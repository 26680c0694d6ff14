import Mathlib.Data.List.MinMax
import Mathlib.Data.List.Sort
import Mathlib.Order.Compare

/-! # Sorting with a comparator

A stable sort of a list by a comparator. What comes first is least, and if the comparator tells
the elements apart, it does not depend on their order before.

Ranked rows are the rows of a table in the descending order of a key, and the retention of the first of each
partition. A table is a list of which only the members matter.

The first of the least elements of a list is `List.argmin` by the place that it takes its element from: what is before that place is greater, what
is behind it is not less.
-/

namespace ComparatorSort

universe u

variable {α : Type u}

def sortBy (cmp : α → α → Ordering) (l : List α) : List α :=
  l.insertionSort fun a b => (cmp a b).isLE

theorem sortBy_perm (cmp : α → α → Ordering) (l : List α) : (sortBy cmp l).Perm l :=
  List.perm_insertionSort _ l

theorem mem_sortBy (cmp : α → α → Ordering) {l : List α} {a : α} : a ∈ sortBy cmp l ↔ a ∈ l :=
  (sortBy_perm cmp l).mem_iff

def Least (cmp : α → α → Ordering) (l : List α) (a : α) : Prop :=
  a ∈ l ∧ ∀ b ∈ l, (cmp a b).isLE

theorem Least.perm {cmp : α → α → Ordering} {l l' : List α} (hPerm : l.Perm l') {a : α}
    (h : Least cmp l a) : Least cmp l' a :=
  ⟨hPerm.mem_iff.mp h.1, fun b hb => h.2 b (hPerm.mem_iff.mpr hb)⟩

def Separates (cmp : α → α → Ordering) (l : List α) : Prop :=
  ∀ a ∈ l, ∀ b ∈ l, cmp a b = .eq → a = b

theorem transCmp_on {β : Type u} (cmp : β → β → Ordering) [Std.TransCmp cmp] (f : α → β) :
    Std.TransCmp fun a b => cmp (f a) (f b) where
  eq_swap := Std.OrientedCmp.eq_swap
  isLE_trans := Std.TransCmp.isLE_trans

section Transitive

variable {cmp : α → α → Ordering} [Std.TransCmp cmp] {l l' : List α}

theorem pairwise_sortBy (cmp : α → α → Ordering) [Std.TransCmp cmp] (l : List α) : (sortBy cmp l).Pairwise fun a b => (cmp a b).isLE := by
  have hTrans : IsTrans α fun a b => (cmp a b).isLE = true :=
    ⟨fun _ _ _ hab hbc => Std.TransCmp.isLE_trans hab hbc⟩
  have hTotal : Std.Total fun a b : α => (cmp a b).isLE = true := by
    constructor
    intro a b
    rw [show cmp b a = (cmp a b).swap from Std.OrientedCmp.eq_swap]
    cases cmp a b <;> simp
  exact List.pairwise_insertionSort _ l

theorem least_of_head? {a : α} (h : (sortBy cmp l).head? = some a) : Least cmp l a := by
  have hSorted := pairwise_sortBy cmp l
  obtain ⟨rest, hEq⟩ := List.head?_eq_some_iff.mp h
  have hMem (b : α) : b ∈ l ↔ b = a ∨ b ∈ rest := by
    rw [← mem_sortBy cmp, hEq, List.mem_cons]
  rw [hEq, List.pairwise_cons] at hSorted
  refine ⟨(hMem a).mpr (.inl rfl), fun b hb => ?_⟩
  obtain rfl | hRest := (hMem b).mp hb
  · exact Std.ReflCmp.isLE_rfl
  · exact hSorted.1 b hRest

theorem Least.unique (hSep : Separates cmp l) {a b : α} (ha : Least cmp l a)
    (hb : Least cmp l b) : a = b := by
  refine hSep a ha.1 b hb.1 ?_
  exact Std.OrientedCmp.isLE_antisymm (ha.2 b hb.1) (hb.2 a ha.1)

theorem exists_head? (cmp : α → α → Ordering) {l : List α} (h : l ≠ []) :
    ∃ a, (sortBy cmp l).head? = some a := by
  cases hSort : sortBy cmp l with
  | nil =>
    have hPerm := sortBy_perm cmp l
    rw [hSort] at hPerm
    exact absurd hPerm.nil_eq.symm h
  | cons a rest => exact ⟨a, rfl⟩

theorem head?_sortBy_perm (hSep : Separates cmp l) (hPerm : l.Perm l') :
    (sortBy cmp l).head? = (sortBy cmp l').head? := by
  by_cases hNil : l = []
  · subst hNil
    rw [hPerm.nil_eq.symm]
  have hNil' : l' ≠ [] := by
    rintro rfl
    exact hNil hPerm.eq_nil
  obtain ⟨a, ha⟩ := exists_head? cmp hNil
  obtain ⟨b, hb⟩ := exists_head? cmp hNil'
  have hEq := (least_of_head? ha).unique hSep ((least_of_head? hb).perm hPerm.symm)
  rw [ha, hb, hEq]

/-- In a list without repetitions `b` comes before `a` once it is sorted. -/
def Ahead [BEq α] (cmp : α → α → Ordering) (l : List α) (a b : α) : Prop :=
  cmp b a = .lt ∨ cmp b a = .eq ∧ l.idxOf b < l.idxOf a

instance [BEq α] (cmp : α → α → Ordering) (l : List α) (a : α) : DecidablePred (Ahead cmp l a) :=
  fun _ => inferInstanceAs (Decidable (_ ∨ _))

theorem idxOf_lt_of_sublist [BEq α] [LawfulBEq α] {a b : α} (hNodup : l.Nodup) (h : [a, b].Sublist l) :
    l.idxOf a < l.idxOf b := by
  induction l with
  | nil => cases h
  | cons x l ih =>
    obtain ⟨hx, hRest⟩ := List.nodup_cons.mp hNodup
    cases h with
    | cons _ h =>
      have ha : x ≠ a := fun hEq => hx (hEq ▸ h.subset List.mem_cons_self)
      have hb : x ≠ b := fun hEq => hx (hEq ▸ h.subset (List.mem_cons_of_mem _ List.mem_cons_self))
      rw [List.idxOf_cons_ne _ ha, List.idxOf_cons_ne _ hb]
      exact Nat.succ_lt_succ (ih hRest h)
    | cons_cons _ h =>
      have hb : a ≠ b := fun hEq => hx (hEq ▸ h.subset List.mem_cons_self)
      rw [List.idxOf_cons_self, List.idxOf_cons_ne _ hb]
      exact Nat.succ_pos _

theorem sublist_of_idxOf_lt [BEq α] [LawfulBEq α] {a b : α} (hb : b ∈ l) (h : l.idxOf a < l.idxOf b) :
    [a, b].Sublist l := by
  induction l with
  | nil => cases hb
  | cons x l ih =>
    have hbx : x ≠ b := by
      rintro rfl
      rw [List.idxOf_cons_self] at h
      exact Nat.not_lt_zero _ h
    have hbl := (List.mem_cons.mp hb).resolve_left hbx.symm
    by_cases ha : x = a
    · subst ha
      exact (List.singleton_sublist.mpr hbl).cons_cons x
    · rw [List.idxOf_cons_ne _ ha, List.idxOf_cons_ne _ hbx] at h
      exact (ih hbl (Nat.lt_of_succ_lt_succ h)).cons x

/-- The sort is stable: it leaves elements that it takes for the same in their order. -/
theorem pairwise_ahead [BEq α] [LawfulBEq α] (hNodup : l.Nodup) :
    (sortBy cmp l).Pairwise fun b a => Ahead cmp l a b := by
  have hSortedNodup : (sortBy cmp l).Nodup := (sortBy_perm cmp l).nodup_iff.mpr hNodup
  refine List.pairwise_iff_forall_sublist.mpr fun {b a} hPair => ?_
  have hLE := List.pairwise_iff_forall_sublist.mp (pairwise_sortBy cmp l) hPair
  cases hCmp : cmp b a with
  | lt => exact .inl hCmp
  | gt => rw [hCmp] at hLE; cases hLE
  | eq =>
    refine .inr ⟨hCmp, ?_⟩
    by_contra hBehind
    have hb : b ∈ l := (mem_sortBy cmp).mp (hPair.subset List.mem_cons_self)
    have ha : a ∈ l := (mem_sortBy cmp).mp (hPair.subset (List.mem_cons_of_mem _ List.mem_cons_self))
    have hOrder := idxOf_lt_of_sublist hSortedNodup hPair
    have hNe : a ≠ b := by
      rintro rfl
      exact lt_irrefl _ hOrder
    have hOther : [a, b].Sublist l := sublist_of_idxOf_lt hb
      (lt_of_le_of_ne (not_lt.mp hBehind) fun hEq => hNe ((List.idxOf_inj ha).mp hEq))
    have hBack : (cmp a b).isLE = true := by
      rw [Std.OrientedCmp.eq_comm.mp hCmp]
      rfl
    have hSwapped : [a, b].Sublist (sortBy cmp l) := List.pair_sublist_insertionSort hBack hOther
    exact lt_asymm hOrder (idxOf_lt_of_sublist hSortedNodup hSwapped)

theorem Ahead.asymm [BEq α] {a b : α} (h : Ahead cmp l a b) : ¬ Ahead cmp l b a := by
  have hSwap : cmp a b = (cmp b a).swap := Std.OrientedCmp.eq_swap
  rw [Ahead, hSwap]
  obtain hLess | ⟨hSame, hOrder⟩ := h
  · simp [hLess]
  · simp [hSame, hOrder.le]

theorem mem_drop_iff {p : α → α → Prop} [∀ a, DecidablePred (p a)]
    (hp : l.Pairwise fun b a => p a b) (hAsymm : ∀ a b, p a b → ¬ p b a) {a : α} (ha : a ∈ l) (n : Nat) :
    a ∈ l.drop n ↔ n ≤ l.countP (p a) := by
  induction l generalizing n with
  | nil => cases ha
  | cons b l ih =>
    obtain ⟨hHead, hTail⟩ := List.pairwise_cons.mp hp
    cases n with
    | zero => exact iff_of_true ha (Nat.zero_le _)
    | succ n =>
      rw [List.drop_succ_cons]
      by_cases haL : a ∈ l
      · rw [List.countP_cons_of_pos (p := fun b => decide (p a b)) (decide_eq_true (hHead a haL)),
          Nat.succ_le_succ_iff]
        exact ih hTail haL n
      · obtain rfl := (List.mem_cons.mp ha).resolve_right haL
        have hNone : (a :: l).countP (p a) = 0 := by
          refine List.countP_eq_zero.mpr fun c hc hAhead => ?_
          have hAhead := of_decide_eq_true hAhead
          obtain rfl | hc := List.mem_cons.mp hc
          · exact hAsymm c c hAhead hAhead
          · exact hAsymm c a (hHead c hc) hAhead
        rw [hNone]
        exact iff_of_false (fun h => haL (List.mem_of_mem_drop h)) (Nat.not_succ_le_zero n)

/-- Behind the first `n` of a sorted list are those that `n` come before. -/
theorem mem_drop_sortBy [BEq α] [LawfulBEq α] (hNodup : l.Nodup) {a : α} (ha : a ∈ l) (n : Nat) :
    a ∈ (sortBy cmp l).drop n ↔ n ≤ l.countP (Ahead cmp l a) := by
  rw [mem_drop_iff (pairwise_ahead hNodup) (fun _ _ => Ahead.asymm) ((mem_sortBy cmp).mpr ha),
    (sortBy_perm cmp l).countP_eq]

end Transitive

end ComparatorSort

namespace RankedRows

variable {α κ τ : Type} [DecidableEq κ] [LinearOrder τ] (part : α → κ) (rank : α → τ)

def ordered (rows : List α) : List α := rows.insertionSort fun a b => rank b ≤ rank a

def ahead (rows : List α) (a : α) : List α :=
  rows.filter fun b => part b = part a ∧ rank a < rank b

/-- The first `cap` rows of each partition. -/
def pruned (cap : Nat) (rows : List α) : List α :=
  rows.filter fun a => (ahead part rank rows a).length < cap

variable {part rank} {rows l : List α} {a b : α} {cap : Nat}

theorem mem_ordered : a ∈ ordered rank rows ↔ a ∈ rows := List.mem_insertionSort _

theorem ordered_pairwise (h : (rows.map rank).Nodup) :
    (ordered rank rows).Pairwise fun a b => rank b < rank a := by
  have hPerm : (ordered rank rows).Perm rows := List.perm_insertionSort _ rows
  have hNodup : ((ordered rank rows).map rank).Nodup := (hPerm.map rank).nodup_iff.mpr h
  have : Std.Total fun a b : α => rank b ≤ rank a := ⟨fun a b => le_total _ _⟩
  have : IsTrans α fun a b => rank b ≤ rank a := ⟨fun _ _ _ hab hbc => hbc.trans hab⟩
  have hSorted : (ordered rank rows).Pairwise fun a b => rank b ≤ rank a :=
    List.pairwise_insertionSort _ rows
  refine (hSorted.and (List.pairwise_map.mp hNodup)).imp ?_
  rintro a b ⟨hle, hne⟩
  exact lt_of_le_of_ne hle (Ne.symm hne)

theorem ordered_eq (h : (rows.map rank).Nodup) (hl : l.Pairwise fun a b => rank b < rank a)
    (hMem : ∀ a, a ∈ rows ↔ a ∈ l) : ordered rank rows = l := by
  have : Std.Irrefl fun a b : α => rank b < rank a := ⟨fun a => lt_irrefl _⟩
  have : Std.Antisymm fun a b : α => rank b < rank a := ⟨fun a b h h' => absurd h (lt_asymm h')⟩
  exact (ordered_pairwise h).eq_of_mem_iff hl fun a => mem_ordered.trans (hMem a)

theorem ordered_filter (h : (rows.map rank).Nodup) (p : α → Bool) :
    ordered rank (rows.filter p) = (ordered rank rows).filter p := by
  apply ordered_eq
  · exact h.sublist (List.filter_sublist.map rank)
  · exact (ordered_pairwise h).filter p
  · intro a
    rw [List.mem_filter, List.mem_filter, mem_ordered]

theorem mem_pruned : a ∈ pruned part rank cap rows ↔
    a ∈ rows ∧ (ahead part rank rows a).length < cap := by
  rw [pruned, List.mem_filter, decide_eq_true_iff]

end RankedRows

namespace FirstLeast

variable {α β : Type*} [LinearOrder β]

def At (f : α → β) (before : List α) (a : α) (behind : List α) : Prop :=
  (∀ b ∈ before, f a < f b) ∧ ∀ b ∈ behind, f a ≤ f b

-- The order may be decided in any way.
variable [DecidableLT β] {f : α → β} {l : List α} {a : α}

theorem argmin_split (h : l.argmin f = some a) :
    ∃ before behind, l = before ++ a :: behind ∧ At f before a behind := by
  induction l using List.reverseRecOn generalizing a with
  | nil => cases h
  | append_singleton l b ih =>
    rw [List.argmin_concat] at h
    cases hLeast : l.argmin f with
    | none =>
      rw [hLeast] at h
      cases h
      rw [List.argmin_eq_none.mp hLeast]
      exact ⟨[], [], rfl, fun _ hb => (List.not_mem_nil hb).elim, fun _ hb => (List.not_mem_nil hb).elim⟩
    | some c =>
      obtain ⟨before, behind, hl, hBefore, hBehind⟩ := ih hLeast
      rw [hLeast] at h
      dsimp only at h
      split at h
      · rename_i hLess
        cases h
        refine ⟨l, [], rfl, fun x hx => ?_, fun _ hb => (List.not_mem_nil hb).elim⟩
        exact hLess.trans_le (not_lt.mp (List.not_lt_of_mem_argmin hx hLeast))
      · rename_i hNotLess
        cases h
        refine ⟨before, behind ++ [b], by rw [hl, List.append_assoc, List.cons_append], hBefore, ?_⟩
        intro x hx
        obtain hx | hx := List.mem_append.mp hx
        · exact hBehind x hx
        · rw [List.mem_singleton.mp hx]
          exact not_lt.mp hNotLess

theorem argmin_of_at {before behind : List α} (h : At f before a behind) :
    (before ++ a :: behind).argmin f = some a := by
  obtain ⟨hBefore, hBehind⟩ := h
  induction behind using List.reverseRecOn with
  | nil =>
    rw [List.argmin_concat]
    cases hLeast : before.argmin f with
    | none => rfl
    | some c => exact if_pos (hBefore c (List.argmin_mem hLeast))
  | append_singleton behind b ih =>
    rw [← List.cons_append, ← List.append_assoc, List.argmin_concat,
      ih fun x hx => hBehind x (List.mem_append_left _ hx)]
    exact if_neg (not_lt.mpr (hBehind b (List.mem_append_right _ (List.mem_singleton_self b))))

theorem argmin_eq_iff {before behind : List α} (hBefore : a ∉ before) (hBehind : a ∉ behind) :
    (before ++ a :: behind).argmin f = some a ↔ At f before a behind := by
  constructor
  · intro h
    obtain ⟨_, _, hSplit, hAt⟩ := argmin_split h
    obtain ⟨rfl, -, rfl⟩ := (List.append_cons_inj_of_notMem hBefore hBehind).mp hSplit
    exact hAt
  · exact argmin_of_at

end FirstLeast
