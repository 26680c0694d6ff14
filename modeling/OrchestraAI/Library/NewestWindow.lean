import Mathlib.Data.List.DropRight
import Mathlib.Data.List.Sort
import Mathlib.Order.Defs.LinearOrder

/-! # The newest entries of a log

A log is a partial function from the keys to the entries that were first written to them. A
window is the ascending list of its newest entries, at most a given number of them. A log
has one window, and the window after a write can be found from the window before it.

Such a window is a list that is bounded by dropping its first entries. In another kind of it each
key keeps a bounded number of entries, and what one key keeps does not depend on the entries of the others.
-/

namespace LastEntries

variable {α : Type*} {l : List α} {n : Nat}

theorem rtake_sublist (l : List α) (n : Nat) : (l.rtake n).Sublist l := List.drop_sublist _ _

theorem mem_of_mem_rtake {a : α} (h : a ∈ l.rtake n) : a ∈ l := List.mem_of_mem_drop h

theorem rtake_of_length_le (h : l.length ≤ n) : l.rtake n = l := by
  rw [List.rtake, Nat.sub_eq_zero_of_le h, List.drop_zero]

theorem length_rtake_le (l : List α) (n : Nat) : (l.rtake n).length ≤ n := by
  rw [List.rtake, List.length_drop]
  omega

theorem rtake_rtake (l : List α) (n : Nat) : (l.rtake n).rtake n = l.rtake n :=
  rtake_of_length_le (length_rtake_le l n)

theorem rtake_append_rtake (l m : List α) (n : Nat) :
    (l.rtake n ++ m).rtake n = (l ++ m).rtake n := by
  simp only [List.rtake_eq_reverse_take_reverse, List.reverse_append, List.reverse_reverse,
    List.take_append, List.take_take]
  rw [Nat.min_eq_left (Nat.sub_le _ _)]

end LastEntries

namespace NewestWindow

open LastEntries

variable {ν κ : Type} [LinearOrder κ] (key : ν → κ)

def Ascending (l : List ν) : Prop := l.Pairwise fun a b => key a < key b

instance (l : List ν) : Decidable (Ascending key l) :=
  inferInstanceAs (Decidable (l.Pairwise fun a b => key a < key b))

def newer (l : List ν) (k : κ) : Nat := l.countP fun e => k < key e

def append (log : κ → Option ν) (entries : List ν) : κ → Option ν :=
  fun k => (log k).or (entries.find? fun e => key e = k)

/-- The ascending list of the `n` newest entries of a log. -/
structure Window (n : Nat) (log : κ → Option ν) (l : List ν) : Prop where
  keyed : ∀ k e, log k = some e → key e = k
  ascending : Ascending key l
  length_le : l.length ≤ n
  mem : ∀ e ∈ l, log (key e) = some e
  top : ∀ k e, log k = some e → e ∈ l ∨ n ≤ newer key l k

variable {key} {l m : List ν} {n : Nat} {k : κ} {e : ν}

theorem find?_key {κ : Type} [DecidableEq κ] {key : ν → κ} (h : (l.map key).Nodup) (he : e ∈ l) :
    l.find? (fun e' => key e' = key e) = some e := by
  cases hFind : l.find? (fun e' => key e' = key e) with
  | none => exact absurd (List.find?_eq_none.mp hFind e he) (by simp)
  | some e' =>
    have hKey : key e' = key e := by simpa using List.find?_some hFind
    rw [List.inj_on_of_nodup_map h (List.mem_of_find?_eq_some hFind) he hKey]

theorem newer_le_length : newer key l k ≤ l.length := List.countP_le_length

theorem newer_lt_length (he : e ∈ l) (hk : key e ≤ k) : newer key l k < l.length := by
  refine lt_of_le_of_ne newer_le_length fun hAll => ?_
  have hNewer := List.countP_eq_length.mp hAll e he
  exact absurd (of_decide_eq_true hNewer) hk.not_gt

theorem newer_le_of_subset (hl : l.Nodup) (h : ∀ e ∈ l, k < key e → e ∈ m) :
    newer key l k ≤ newer key m k := by
  unfold newer
  rw [List.countP_eq_length_filter, List.countP_eq_length_filter]
  refine (List.subperm_of_subset (hl.filter _) fun e he => ?_).length_le
  obtain ⟨hMem, hNewer⟩ := List.mem_filter.mp he
  exact List.mem_filter.mpr ⟨h e hMem (of_decide_eq_true hNewer), hNewer⟩

theorem ascending_insertionSort (h : l.Pairwise fun a b => key a ≠ key b) :
    Ascending key (l.insertionSort fun a b => key a ≤ key b) := by
  have hTotal : Std.Total fun a b : ν => key a ≤ key b := ⟨fun a b => le_total _ _⟩
  have hTrans : IsTrans ν fun a b => key a ≤ key b := ⟨fun a b c => le_trans⟩
  have hLe := List.pairwise_insertionSort (fun a b => key a ≤ key b) l
  have hNe : (l.insertionSort fun a b => key a ≤ key b).Pairwise fun a b => key a ≠ key b :=
    ((List.perm_insertionSort _ l).pairwise_iff fun hab => Ne.symm hab).mpr h
  exact (hLe.and hNe).imp fun hab => lt_of_le_of_ne hab.1 hab.2

namespace Ascending

theorem nodup (h : Ascending key l) : l.Nodup := by
  refine h.imp fun hLt hEq => ?_
  rw [hEq] at hLt
  exact lt_irrefl _ hLt

theorem eq_of_mem (h : Ascending key l) (h' : Ascending key m) (hMem : ∀ e, e ∈ l ↔ e ∈ m) :
    l = m := by
  have hIrrefl : Std.Irrefl fun a b : ν => key a < key b := ⟨fun a => lt_irrefl (key a)⟩
  have hAntisymm : Std.Antisymm fun a b : ν => key a < key b :=
    ⟨fun a b hab hba => absurd (hab.trans hba) (lt_irrefl _)⟩
  exact h.eq_of_mem_iff h' hMem

theorem rtake (h : Ascending key l) (n : Nat) : Ascending key (l.rtake n) :=
  h.sublist (rtake_sublist l n)

theorem eq_of_key (h : Ascending key l) {e e' : ν} (he : e ∈ l) (he' : e' ∈ l)
    (hKey : key e = key e') : e = e' := by
  have hKeys : (l.map key).Nodup := List.pairwise_map.mpr (h.imp fun hLt => ne_of_lt hLt)
  exact List.inj_on_of_nodup_map hKeys he he' hKey

theorem filter_newer (h : Ascending key l) (k : κ) :
    l.filter (fun e => k < key e) = l.rtake (newer key l k) := by
  induction l with
  | nil => rfl
  | cons e l ih =>
    obtain ⟨hHead, hTail⟩ := List.pairwise_cons.mp h
    by_cases hNewer : k < key e
    · have hAll : ∀ e' ∈ e :: l, decide (k < key e') = true := by
        intro e' he'
        obtain rfl | hMem := List.mem_cons.mp he'
        · exact decide_eq_true hNewer
        · exact decide_eq_true (hNewer.trans (hHead e' hMem))
      have hCount : newer key (e :: l) k = (e :: l).length := List.countP_eq_length.mpr hAll
      rw [List.filter_eq_self.mpr hAll, hCount, List.rtake, Nat.sub_self, List.drop_zero]
    · have hCount : newer key (e :: l) k = newer key l k :=
        List.countP_cons_of_neg (by simpa using hNewer)
      rw [List.filter_cons_of_neg (by simpa using hNewer), ih hTail, hCount, List.rtake,
        List.rtake, List.length_cons, Nat.succ_sub newer_le_length, List.drop_succ_cons]

theorem newer_rtake (h : Ascending key l) (hCount : n ≤ newer key l k) :
    n ≤ newer key (l.rtake n) k := by
  have hLength : (l.rtake n).length = n := by
    have hLe : newer key l k ≤ l.length := newer_le_length
    rw [List.rtake, List.length_drop]
    omega
  have hSuffix : ∀ e ∈ l.rtake n, e ∈ l.rtake (newer key l k) := by
    intro e he
    exact (List.drop_sublist_drop_left l (by omega)).subset he
  have hAll : ∀ e ∈ l.rtake n, decide (k < key e) = true := by
    intro e he
    have hMem := hSuffix e he
    rw [← h.filter_newer] at hMem
    exact (List.mem_filter.mp hMem).2
  exact le_of_eq (hLength.symm.trans (List.countP_eq_length.mpr hAll).symm)

theorem mem_rtake (h : Ascending key l) (he : e ∈ l) :
    e ∈ l.rtake n ↔ newer key l (key e) < n := by
  constructor
  · intro hMem
    by_contra hCount
    have hSub : e ∈ l.rtake (newer key l (key e)) :=
      (List.drop_sublist_drop_left l (by omega)).subset hMem
    rw [← h.filter_newer] at hSub
    exact absurd (of_decide_eq_true (List.mem_filter.mp hSub).2) (lt_irrefl _)
  · intro hCount
    by_contra hNot
    have hSplit : l.take (l.length - n) ++ l.rtake n = l := List.take_append_drop _ _
    have hOld : e ∈ l.take (l.length - n) := by
      rw [← hSplit] at he
      exact (List.mem_append.mp he).resolve_right hNot
    have hLong : n ≤ l.length := by
      by_contra hShort
      rw [Nat.sub_eq_zero_of_le (by omega), List.take_zero] at hOld
      cases hOld
    have hAll : ∀ e' ∈ l.rtake n, decide (key e < key e') = true := by
      intro e' he'
      have hAsc : Ascending key (l.take (l.length - n) ++ l.rtake n) := by rwa [hSplit]
      exact decide_eq_true ((List.pairwise_append.mp hAsc).2.2 e hOld e' he')
    have hNewest : newer key (l.rtake n) (key e) = n := by
      refine (List.countP_eq_length.mpr hAll).trans ?_
      rw [List.rtake, List.length_drop]
      omega
    have hLe : newer key (l.rtake n) (key e) ≤ newer key l (key e) :=
      newer_le_of_subset (h.rtake n).nodup fun e' he' _ => mem_of_mem_rtake he'
    omega

/-- The entries from the one that `n` are newer than. -/
theorem filter_from (h : Ascending key l) (he : l.reverse[n]? = some e) :
    l.filter (fun e' => key e ≤ key e') = l.rtake (n + 1) := by
  have hLong : n < l.length := by
    rw [← List.length_reverse]
    exact (List.getElem?_eq_some_iff.mp he).1
  have hDrop : l.rtake (n + 1) = e :: l.drop (l.length - n) := by
    rw [List.getElem?_reverse hLong, show l.length - 1 - n = l.length - (n + 1) by omega] at he
    obtain ⟨hIndex, rfl⟩ := List.getElem?_eq_some_iff.mp he
    rw [List.rtake, List.drop_eq_getElem_cons hIndex]
    congr 2
    omega
  have hSplit : l.take (l.length - (n + 1)) ++ l.rtake (n + 1) = l := List.take_append_drop _ _
  have hAsc : Ascending key (l.take (l.length - (n + 1)) ++ l.rtake (n + 1)) := by rwa [hSplit]
  obtain ⟨-, hNew, hAcross⟩ := List.pairwise_append.mp hAsc
  have hOlder : (l.take (l.length - (n + 1))).filter (fun e' => key e ≤ key e') = [] := by
    refine List.filter_eq_nil_iff.mpr fun e' he' => ?_
    have hLt : key e' < key e := hAcross e' he' e (hDrop ▸ List.mem_cons_self)
    simpa using hLt
  have hFrom : (l.rtake (n + 1)).filter (fun e' => key e ≤ key e') = l.rtake (n + 1) := by
    refine List.filter_eq_self.mpr fun e' he' => ?_
    rw [hDrop] at he' hNew
    obtain rfl | hMem := List.mem_cons.mp he'
    · exact decide_eq_true le_rfl
    · exact decide_eq_true (List.rel_of_pairwise_cons hNew hMem).le
  calc
    l.filter (fun e' => key e ≤ key e')
        = (l.take (l.length - (n + 1)) ++ l.rtake (n + 1)).filter (fun e' => key e ≤ key e') := by
          rw [hSplit]
    _ = l.rtake (n + 1) := by rw [List.filter_append, hOlder, hFrom, List.nil_append]

end Ascending

namespace Window

variable {log : κ → Option ν}

theorem subset (h : Window key n log l) (h' : Window key n log m) : ∀ e ∈ l, e ∈ m := by
  intro e he
  obtain hMem | hFull := h'.top (key e) e (h.mem e he)
  · exact hMem
  · -- what is newer than `e` in `m` is in `l` too, so that `l` with `e` is too long
    have hNewer : ∀ e' ∈ m, key e < key e' → e' ∈ l := by
      intro e' he' hLt
      obtain hMem | hOver := h.top (key e') e' (h'.mem e' he')
      · exact hMem
      · have hShort : newer key l (key e') < l.length := newer_lt_length he hLt.le
        have hLength := h.length_le
        omega
    have hLe : newer key m (key e) ≤ newer key l (key e) :=
      newer_le_of_subset h'.ascending.nodup hNewer
    have hShort : newer key l (key e) < l.length := newer_lt_length he le_rfl
    have hLength := h.length_le
    omega

theorem unique (h : Window key n log l) (h' : Window key n log m) : l = m :=
  h.ascending.eq_of_mem h'.ascending fun e => ⟨h.subset h' e, h'.subset h e⟩

/-- The window after a write: the newest entries of a list that has the old window and every
entry written to a key without one, unless enough of the list is newer. -/
theorem append (h : Window key n log l) {entries : List ν} (hDistinct : (entries.map key).Nodup)
    (hAscending : Ascending key m) (hFrom : ∀ e ∈ m, e ∈ l ∨ e ∈ entries) (hOld : ∀ e ∈ l, e ∈ m)
    (hNew : ∀ e ∈ entries, log (key e) = none → e ∈ m ∨ n ≤ newer key m (key e)) :
    Window key n (append key log entries) (m.rtake n) := by
  have hMore (k : κ) : newer key l k ≤ newer key m k :=
    newer_le_of_subset h.ascending.nodup fun e he _ => hOld e he
  have hKept {e : ν} (he : e ∈ m) : e ∈ m.rtake n ∨ n ≤ newer key (m.rtake n) (key e) := by
    by_cases hCount : newer key m (key e) < n
    · exact .inl ((hAscending.mem_rtake he).mpr hCount)
    · exact .inr (hAscending.newer_rtake (by omega))
  have hKeyed : ∀ k e, NewestWindow.append key log entries k = some e → key e = k ∧
      (log k = some e ∨ log k = none ∧ e ∈ entries) := by
    intro k e hLog
    obtain hBefore | ⟨hNone, hFind⟩ := Option.or_eq_some_iff.mp hLog
    · exact ⟨h.keyed k e hBefore, .inl hBefore⟩
    · exact ⟨by simpa using List.find?_some hFind, .inr ⟨hNone, List.mem_of_find?_eq_some hFind⟩⟩
  constructor
  · exact fun k e hLog => (hKeyed k e hLog).1
  · exact hAscending.rtake n
  · exact length_rtake_le m n
  · intro e he
    have hMem : e ∈ m := mem_of_mem_rtake he
    unfold NewestWindow.append
    cases hBefore : log (key e) with
    | none =>
      obtain hl | hEntry := hFrom e hMem
      · rw [h.mem e hl] at hBefore
        cases hBefore
      · rw [Option.none_or]
        exact find?_key hDistinct hEntry
    | some first =>
      obtain hFirst | hOver := h.top (key e) first hBefore
      · have hSame := hAscending.eq_of_key (hOld first hFirst) hMem (h.keyed _ _ hBefore)
        rw [hSame]
        rfl
      · have hCount := (hAscending.mem_rtake hMem).mp he
        have hLe := hMore (key e)
        omega
  · intro k e hLog
    obtain ⟨rfl, hBefore | ⟨hNone, hEntry⟩⟩ := hKeyed k e hLog
    · obtain hl | hOver := h.top (key e) e hBefore
      · exact hKept (hOld e hl)
      · exact .inr (hAscending.newer_rtake (hOver.trans (hMore _)))
    · obtain hMem | hOver := hNew e hEntry hNone
      · exact hKept hMem
      · exact .inr (hAscending.newer_rtake hOver)

end Window

section Newest

variable (key) in
/-- The entries that fewer than `n` of a list are newer than, in any order. -/
def Newest (n : Nat) (l m : List ν) : Prop := ∀ e, e ∈ m ↔ e ∈ l ∧ newer key l (key e) < n

variable {l' r t fresh : List ν}

/-- Where `n` entries are newer than a key, so are `n` of the newest. -/
theorem exists_newest (h : (l.map key).Nodup) (hCount : n ≤ newer key l k) :
    ∃ w : List ν, w.Nodup ∧ w.length = n ∧
      ∀ e ∈ w, e ∈ l ∧ k < key e ∧ newer key l (key e) < n := by
  have hPerm := List.perm_insertionSort (fun a b => key a ≤ key b) l
  have hAscending := ascending_insertionSort (List.pairwise_map.mp h)
  have hSame (j : κ) : newer key (l.insertionSort fun a b => key a ≤ key b) j = newer key l j :=
    hPerm.countP_eq _
  have hFull := hAscending.newer_rtake (n := n) (by rwa [hSame])
  have hAll : newer key ((l.insertionSort fun a b => key a ≤ key b).rtake n) k =
      ((l.insertionSort fun a b => key a ≤ key b).rtake n).length :=
    le_antisymm newer_le_length ((length_rtake_le _ n).trans hFull)
  refine ⟨_, (hAscending.rtake n).nodup, le_antisymm (length_rtake_le _ n) (hAll ▸ hFull), ?_⟩
  intro e he
  have hMem := mem_of_mem_rtake he
  refine ⟨hPerm.subset hMem, of_decide_eq_true (List.countP_eq_length.mp hAll e he), ?_⟩
  rw [← hSame]
  exact (hAscending.mem_rtake hMem).mp he

/-- The newest entries of a list can be found from the newest ones of its beginning. -/
theorem Newest.added (h : Newest key n l t) (hDistinct : (l'.map key).Nodup) (hl : l.Nodup)
    (hr : r.Nodup) (hAll : ∀ e, e ∈ l' ↔ e ∈ l ∨ e ∈ fresh)
    (hRows : ∀ e, e ∈ r ↔ e ∈ t ∨ e ∈ fresh) (e : ν) :
    e ∈ l' ∧ newer key l' (key e) < n ↔ e ∈ r ∧ newer key r (key e) < n := by
  have hRest {e : ν} (he : e ∈ r) : e ∈ l' :=
    (hAll e).mpr (((hRows e).mp he).imp_left fun ht => ((h e).mp ht).1)
  have hKept {e : ν} (he : e ∈ l') (hFew : newer key l' (key e) < n) : e ∈ r := by
    rw [hRows]
    refine ((hAll e).mp he).imp_left fun hOld => (h e).mpr ⟨hOld, ?_⟩
    have hLe : newer key l (key e) ≤ newer key l' (key e) :=
      newer_le_of_subset hl fun e' he' _ => (hAll e').mpr (.inl he')
    omega
  constructor
  · rintro ⟨he, hFew⟩
    have hLe : newer key r (key e) ≤ newer key l' (key e) :=
      newer_le_of_subset hr fun e' he' _ => hRest he'
    exact ⟨hKept he hFew, by omega⟩
  · rintro ⟨he, hFew⟩
    refine ⟨hRest he, ?_⟩
    by_contra hMany
    -- the `n` newest of the whole list are in the rows too
    obtain ⟨w, hNodup, hLength, hw⟩ := exists_newest hDistinct (Nat.le_of_not_lt hMany)
    have hNewer : newer key w (key e) = w.length :=
      List.countP_eq_length.mpr fun e' he' => decide_eq_true (hw e' he').2.1
    have hLe : newer key w (key e) ≤ newer key r (key e) :=
      newer_le_of_subset hNodup fun e' he' _ => hKept (hw e' he').1 (hw e' he').2.2
    omega

/-- The last `n` entries are the newest exactly when the others are older. -/
theorem newest_rtake_iff (hDistinct : (l.map key).Nodup) : Newest key n l (l.rtake n) ↔
    ∀ a ∈ l.take (l.length - n), ∀ b ∈ l.rtake n, key a < key b := by
  have hNodup : l.Nodup := hDistinct.of_map
  have hSplit : l.take (l.length - n) ++ l.rtake n = l := List.take_append_drop _ _
  have hApart : ∀ a ∈ l.take (l.length - n), a ∉ l.rtake n := by
    intro a ha hb
    rw [← hSplit] at hNodup
    exact List.disjoint_of_nodup_append hNodup ha hb
  constructor
  · intro h a ha b hb
    have haMem : a ∈ l := List.mem_of_mem_take ha
    have hbMem : b ∈ l := mem_of_mem_rtake hb
    have hMany : ¬ newer key l (key a) < n := fun hFew => hApart a ha ((h a).mpr ⟨haMem, hFew⟩)
    by_contra hNot
    have hLe : newer key l (key a) ≤ newer key l (key b) :=
      List.countP_mono_left fun e _ he =>
        decide_eq_true ((le_of_not_gt hNot).trans_lt (of_decide_eq_true he))
    exact hMany (hLe.trans_lt ((h b).mp hb).2)
  · intro h e
    constructor
    · intro he
      refine ⟨mem_of_mem_rtake he, ?_⟩
      have hLe : newer key l (key e) ≤ newer key (l.rtake n) (key e) := by
        refine newer_le_of_subset hNodup fun e' he' hNewer => ?_
        rw [← hSplit] at he'
        refine (List.mem_append.mp he').resolve_left fun hOld => ?_
        exact lt_asymm hNewer (h e' hOld e he)
      exact hLe.trans_lt ((newer_lt_length he le_rfl).trans_le (length_rtake_le l n))
    · rintro ⟨he, hFew⟩
      rw [← hSplit] at he
      refine (List.mem_append.mp he).resolve_left fun hOld => ?_
      have hAll : newer key (l.rtake n) (key e) = (l.rtake n).length :=
        List.countP_eq_length.mpr fun e' he' => decide_eq_true (h e hOld e' he')
      have hLe : newer key (l.rtake n) (key e) ≤ newer key l (key e) :=
        newer_le_of_subset (hNodup.sublist (rtake_sublist _ _)) fun e' he' _ =>
          mem_of_mem_rtake he'
      have hLong : 0 < l.length - n := by
        by_contra hShort
        rw [Nat.eq_zero_of_not_pos hShort, List.take_zero] at hOld
        cases hOld
      have hFull : (l.rtake n).length = n := by
        rw [List.rtake, List.length_drop]
        omega
      omega

end Newest

end NewestWindow

namespace NewestPerKey

variable {α κ : Type} [DecidableEq κ] (key : α → κ)

def entries (k : κ) (l : List α) : List α := l.filter fun a => key a = k

/-- The newest `cap` entries of each key, in their order. -/
def newestPer (cap : Nat) : List α → List α
  | [] => []
  | a :: l =>
    if (entries key (key a) l).length < cap then a :: newestPer cap l else newestPer cap l

variable {key} {l m : List α} {cap : Nat} {k : κ} {a : α}

theorem newestPer_sublist (cap : Nat) (l : List α) : (newestPer key cap l).Sublist l := by
  induction l with
  | nil => exact .refl _
  | cons a l ih =>
    unfold newestPer
    split
    · exact ih.cons_cons a
    · exact ih.cons a

theorem entries_cons_self (a : α) (l : List α) :
    entries key (key a) (a :: l) = a :: entries key (key a) l :=
  List.filter_cons_of_pos (by simp)

theorem entries_cons_of_ne (h : key a ≠ k) : entries key k (a :: l) = entries key k l :=
  List.filter_cons_of_neg (by simpa using h)

theorem entries_append (l m : List α) : entries key k (l ++ m) = entries key k l ++ entries key k m :=
  List.filter_append ..

theorem entries_newestPer (k : κ) (cap : Nat) (l : List α) :
    entries key k (newestPer key cap l) = (entries key k l).rtake cap := by
  induction l with
  | nil => simp [newestPer, entries]
  | cons a l ih =>
    unfold newestPer
    by_cases hKey : key a = k
    · subst hKey
      rw [entries_cons_self]
      split
      · rename_i hShort
        have hAll : (a :: entries key (key a) l).length ≤ cap := hShort
        rw [entries_cons_self, ih, List.rtake, List.rtake, Nat.sub_eq_zero_of_le hAll,
          Nat.sub_eq_zero_of_le hShort.le]
        rfl
      · rename_i hFull
        have hLength : (a :: entries key (key a) l).length - cap =
            (entries key (key a) l).length - cap + 1 := by
          rw [List.length_cons]
          omega
        rw [ih, List.rtake, List.rtake, hLength, List.drop_succ_cons]
    · rw [entries_cons_of_ne hKey]
      split
      · rw [entries_cons_of_ne hKey, ih]
      · exact ih

end NewestPerKey
