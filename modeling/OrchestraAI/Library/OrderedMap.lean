import Mathlib.Data.List.Forall2
import Mathlib.Data.List.Nodup
import Mathlib.Data.List.Perm.Subperm

/-! # Insertion-ordered finite maps

Keys are listed in the order of their first insertion and each key occurs once;
writing to a present key keeps its place, as the maps of the modelled language do.
-/

universe u v

structure OrderedMap (κ : Type u) (ν : Type v) where
  entries : List (κ × ν)
  nodup : (entries.map Prod.fst).Nodup

namespace OrderedMap

variable {κ : Type u} {ν : Type v} [DecidableEq κ]

def lookup (k : κ) : List (κ × ν) → Option ν
  | [] => none
  | e :: es => if e.1 = k then some e.2 else lookup k es

def write (k : κ) (v : ν) : List (κ × ν) → List (κ × ν)
  | [] => [(k, v)]
  | e :: es => if e.1 = k then (k, v) :: es else e :: write k v es

def drop (k : κ) (es : List (κ × ν)) : List (κ × ν) := es.filter fun e => e.1 ≠ k

attribute [grind =] lookup write

theorem mem_keys_write (k j : κ) (v : ν) (es : List (κ × ν)) :
    j ∈ (write k v es).map Prod.fst ↔ j = k ∨ j ∈ es.map Prod.fst := by
  induction es with
  | nil => simp [write]
  | cons e es ih =>
    by_cases he : e.1 = k
    · subst he; simp [write]
    · simp only [write, if_neg he, List.map_cons, List.mem_cons, ih]
      tauto

theorem nodup_write (k : κ) (v : ν) (es : List (κ × ν)) (h : (es.map Prod.fst).Nodup) :
    ((write k v es).map Prod.fst).Nodup := by
  induction es with
  | nil => simp [write]
  | cons e es ih =>
    rw [List.map_cons, List.nodup_cons] at h
    by_cases he : e.1 = k
    · subst he; simpa [write] using h
    · simp only [write, if_neg he, List.map_cons, List.nodup_cons, mem_keys_write]
      exact ⟨fun hm => hm.elim he h.1, ih h.2⟩

theorem nodup_drop (k : κ) (es : List (κ × ν)) (h : (es.map Prod.fst).Nodup) :
    ((drop k es).map Prod.fst).Nodup :=
  h.sublist (List.filter_sublist.map Prod.fst)

theorem lookup_isSome (k : κ) (es : List (κ × ν)) :
    (lookup k es).isSome ↔ k ∈ es.map Prod.fst := by
  induction es with
  | nil => simp [lookup]
  | cons e es ih =>
    by_cases he : e.1 = k
    · simp [lookup, he]
    · simp [lookup, he, ih, Ne.symm he]

theorem lookup_mem {k : κ} {v : ν} {es : List (κ × ν)} (h : lookup k es = some v) :
    (k, v) ∈ es := by
  induction es with
  | nil => cases h
  | cons e es ih =>
    by_cases he : e.1 = k
    · simp only [lookup, if_pos he, Option.some.injEq] at h
      subst he; subst h
      exact List.mem_cons_self
    · simp only [lookup, if_neg he] at h
      exact List.mem_cons_of_mem _ (ih h)

theorem lookup_of_mem {k : κ} {v : ν} {es : List (κ × ν)} (hn : (es.map Prod.fst).Nodup)
    (h : (k, v) ∈ es) : lookup k es = some v := by
  induction es with
  | nil => cases h
  | cons e es ih =>
    rw [List.map_cons, List.nodup_cons] at hn
    rcases List.mem_cons.mp h with rfl | h
    · simp [lookup]
    · have hne : e.1 ≠ k := fun he => hn.1 (he ▸ List.mem_map_of_mem (f := Prod.fst) h)
      simp only [lookup, if_neg hne]
      exact ih hn.2 h

def empty : OrderedMap κ ν := ⟨[], List.nodup_nil⟩

def get (m : OrderedMap κ ν) (k : κ) : Option ν := lookup k m.entries

def has (m : OrderedMap κ ν) (k : κ) : Bool := (m.get k).isSome

def set (m : OrderedMap κ ν) (k : κ) (v : ν) : OrderedMap κ ν :=
  ⟨write k v m.entries, nodup_write k v m.entries m.nodup⟩

def delete (m : OrderedMap κ ν) (k : κ) : OrderedMap κ ν :=
  ⟨drop k m.entries, nodup_drop k m.entries m.nodup⟩

def keys (m : OrderedMap κ ν) : List κ := m.entries.map Prod.fst

def size (m : OrderedMap κ ν) : Nat := m.entries.length

def dropOldest (m : OrderedMap κ ν) : OrderedMap κ ν :=
  ⟨m.entries.tail, m.nodup.sublist ((List.tail_sublist _).map Prod.fst)⟩

def values (m : OrderedMap κ ν) : List ν := m.entries.map Prod.snd

def mapValues (m : OrderedMap κ ν) (f : ν → ν) : OrderedMap κ ν :=
  ⟨m.entries.map fun e => (e.1, f e.2), by
    rw [List.map_map]
    exact m.nodup⟩

def keepIf (m : OrderedMap κ ν) (p : ν → Bool) : OrderedMap κ ν :=
  ⟨m.entries.filter fun e => p e.2, m.nodup.sublist (List.filter_sublist.map Prod.fst)⟩

@[simp] theorem get_empty (k : κ) : (empty : OrderedMap κ ν).get k = none := rfl

omit [DecidableEq κ] in
@[simp] theorem keys_empty : (empty : OrderedMap κ ν).keys = [] := rfl

theorem get_set (m : OrderedMap κ ν) (k j : κ) (v : ν) :
    (m.set k v).get j = if j = k then some v else m.get j := by
  change lookup j (write k v m.entries) = _
  unfold get
  induction m.entries with
  | nil => by_cases h : j = k <;> simp [write, lookup, h, Ne.symm]
  | cons e es ih =>
    by_cases he : e.1 = k
    · by_cases hj : j = k
      · subst hj; simp [write, lookup, he]
      · have : e.1 ≠ j := fun h => hj (h ▸ he)
        simp [write, lookup, he, hj, Ne.symm hj]
    · by_cases hj : e.1 = j
      · have : j ≠ k := fun h => he (hj.trans h)
        simp [write, lookup, hj, this]
      · simp only [write, if_neg he, lookup, if_neg hj, ih]

@[simp] theorem get_set_self (m : OrderedMap κ ν) (k : κ) (v : ν) :
    (m.set k v).get k = some v := by rw [get_set, if_pos rfl]

theorem get_set_ne (m : OrderedMap κ ν) {k j : κ} (v : ν) (h : j ≠ k) :
    (m.set k v).get j = m.get j := by rw [get_set, if_neg h]

theorem get_delete (m : OrderedMap κ ν) (k j : κ) :
    (m.delete k).get j = if j = k then none else m.get j := by
  change lookup j (drop k m.entries) = _
  unfold get drop
  induction m.entries with
  | nil => simp [lookup]
  | cons e es ih =>
    by_cases he : e.1 = k
    · rw [List.filter_cons_of_neg (by simpa using he), ih]
      by_cases hj : j = k
      · rw [if_pos hj, if_pos hj]
      · have : e.1 ≠ j := fun h => hj (h ▸ he)
        simp [lookup, this]
    · rw [List.filter_cons_of_pos (by simpa using he)]
      by_cases hj : e.1 = j
      · have : j ≠ k := fun h => he (hj.trans h)
        simp [lookup, hj, this]
      · simp only [lookup, if_neg hj, ih]

@[simp] theorem get_delete_self (m : OrderedMap κ ν) (k : κ) : (m.delete k).get k = none := by
  rw [get_delete, if_pos rfl]

theorem get_delete_ne (m : OrderedMap κ ν) {k j : κ} (h : j ≠ k) :
    (m.delete k).get j = m.get j := by rw [get_delete, if_neg h]

theorem mem_keys_iff (m : OrderedMap κ ν) (k : κ) : k ∈ m.keys ↔ ∃ v, m.get k = some v := by
  rw [keys, ← lookup_isSome, Option.isSome_iff_exists]
  rfl

theorem has_iff (m : OrderedMap κ ν) (k : κ) : m.has k = true ↔ k ∈ m.keys := by
  rw [mem_keys_iff, has, Option.isSome_iff_exists]

theorem get_eq_none_iff (m : OrderedMap κ ν) (k : κ) : m.get k = none ↔ k ∉ m.keys := by
  rw [mem_keys_iff, Option.eq_none_iff_forall_ne_some, not_exists]

theorem mem_entries_iff (m : OrderedMap κ ν) (k : κ) (v : ν) :
    (k, v) ∈ m.entries ↔ m.get k = some v :=
  ⟨lookup_of_mem m.nodup, lookup_mem⟩

theorem mem_keys_set (m : OrderedMap κ ν) (k j : κ) (v : ν) :
    j ∈ (m.set k v).keys ↔ j = k ∨ j ∈ m.keys := mem_keys_write k j v m.entries

theorem mem_keys_delete (m : OrderedMap κ ν) (k j : κ) :
    j ∈ (m.delete k).keys ↔ j ≠ k ∧ j ∈ m.keys := by
  rw [mem_keys_iff, mem_keys_iff, get_delete]
  by_cases h : j = k <;> simp [h]

theorem write_new {k : κ} {es : List (κ × ν)} (v : ν) (h : k ∉ es.map Prod.fst) :
    write k v es = es ++ [(k, v)] := by
  induction es with
  | nil => rfl
  | cons e es ih =>
    rw [List.map_cons, List.mem_cons, not_or] at h
    simp only [write, if_neg (Ne.symm h.1), ih h.2, List.cons_append]

theorem keys_set_new {m : OrderedMap κ ν} {k : κ} (v : ν) (h : k ∉ m.keys) :
    (m.set k v).keys = m.keys ++ [k] := by
  change (write k v m.entries).map Prod.fst = _
  rw [write_new v h, List.map_append]
  rfl

theorem keys_write_old {k : κ} {es : List (κ × ν)} (v : ν) (h : k ∈ es.map Prod.fst) :
    (write k v es).map Prod.fst = es.map Prod.fst := by
  induction es with
  | nil => cases h
  | cons e es ih =>
    unfold write
    split
    · rename_i he
      rw [List.map_cons, List.map_cons, he]
    · rename_i he
      rw [List.map_cons, List.map_cons, ih ((List.mem_cons.mp h).resolve_left (Ne.symm he))]

theorem keys_set_old {m : OrderedMap κ ν} {k : κ} (v : ν) (h : k ∈ m.keys) :
    (m.set k v).keys = m.keys := keys_write_old v h

theorem values_set_new {m : OrderedMap κ ν} {k : κ} (v : ν) (h : k ∉ m.keys) :
    (m.set k v).values = m.values ++ [v] := by
  change (write k v m.entries).map Prod.snd = _
  rw [write_new v h, List.map_append]
  rfl

theorem keys_delete (m : OrderedMap κ ν) (k : κ) :
    (m.delete k).keys = m.keys.filter fun j => j ≠ k := by
  change (drop k m.entries).map Prod.fst = (m.entries.map Prod.fst).filter _
  rw [List.filter_map]
  rfl

omit [DecidableEq κ] in
theorem keys_nodup (m : OrderedMap κ ν) : m.keys.Nodup := m.nodup

omit [DecidableEq κ] in
theorem size_eq_keys_length (m : OrderedMap κ ν) : m.size = m.keys.length := by
  simp [size, keys]

omit [DecidableEq κ] in
theorem entries_nodup (m : OrderedMap κ ν) : m.entries.Nodup := List.Nodup.of_map _ m.nodup

theorem entries_perm_cons {m n : OrderedMap κ ν} {k : κ} {v : ν} (hk : n.get k = none)
    (h : ∀ j, m.get j = if j = k then some v else n.get j) :
    m.entries.Perm ((k, v) :: n.entries) := by
  have hNew : (k, v) ∉ n.entries := fun hm => by
    rw [mem_entries_iff, hk] at hm
    cases hm
  rw [List.perm_ext_iff_of_nodup m.entries_nodup (List.nodup_cons.mpr ⟨hNew, n.entries_nodup⟩)]
  rintro ⟨j, w⟩
  rw [List.mem_cons, mem_entries_iff, mem_entries_iff, h]
  by_cases hj : j = k
  · subst hj
    simp [hk, eq_comm]
  · simp [hj]

theorem entries_perm_delete {m : OrderedMap κ ν} {k : κ} {v : ν} (h : m.get k = some v) :
    m.entries.Perm ((k, v) :: (m.delete k).entries) := by
  refine entries_perm_cons (get_delete_self m k) fun j => ?_
  rw [get_delete]
  by_cases hj : j = k
  · rw [if_pos hj, hj, h]
  · rw [if_neg hj, if_neg hj]

theorem entries_perm_set (m : OrderedMap κ ν) (k : κ) (v : ν) :
    (m.set k v).entries.Perm ((k, v) :: (m.delete k).entries) := by
  refine entries_perm_cons (get_delete_self m k) fun j => ?_
  rw [get_set, get_delete]
  by_cases hj : j = k
  · rw [if_pos hj, if_pos hj]
  · rw [if_neg hj, if_neg hj, if_neg hj]

theorem entries_perm_set_new {m : OrderedMap κ ν} {k : κ} (v : ν) (h : m.get k = none) :
    (m.set k v).entries.Perm ((k, v) :: m.entries) :=
  entries_perm_cons h fun j => get_set m k j v

theorem values_perm_set_new {m : OrderedMap κ ν} {k : κ} (v : ν) (h : m.get k = none) :
    (m.set k v).values.Perm (v :: m.values) :=
  (entries_perm_set_new v h).map Prod.snd

theorem values_perm_set_old {m : OrderedMap κ ν} {k : κ} {w : ν} (v : ν) (h : m.get k = some w) :
    (w :: (m.set k v).values).Perm (v :: m.values) := by
  have hSet : (m.set k v).values.Perm (v :: (m.delete k).values) :=
    (entries_perm_set m k v).map Prod.snd
  have hDelete : m.values.Perm (w :: (m.delete k).values) := (entries_perm_delete h).map Prod.snd
  exact (hSet.cons w).trans ((List.Perm.swap v w _).trans (hDelete.symm.cons v))

@[simp] theorem get_mapValues (m : OrderedMap κ ν) (f : ν → ν) (k : κ) :
    (m.mapValues f).get k = (m.get k).map f := by
  change lookup k (m.entries.map fun e => (e.1, f e.2)) = (lookup k m.entries).map f
  induction m.entries with
  | nil => rfl
  | cons e es ih =>
    simp only [List.map_cons, lookup]
    split
    · rfl
    · exact ih

theorem get_keepIf (m : OrderedMap κ ν) (p : ν → Bool) {k : κ} {v : ν} :
    (m.keepIf p).get k = some v ↔ m.get k = some v ∧ p v = true := by
  rw [← mem_entries_iff, ← mem_entries_iff]
  exact List.mem_filter

theorem mem_values_iff (m : OrderedMap κ ν) (v : ν) : v ∈ m.values ↔ ∃ k, m.get k = some v := by
  simp only [values, List.mem_map, Prod.exists, exists_eq_right, mem_entries_iff]

omit [DecidableEq κ] in
theorem ext_entries {m n : OrderedMap κ ν} (h : m.entries = n.entries) : m = n := by
  cases m
  cases n
  cases h
  rfl

theorem entries_foldl_set (l : List (κ × ν)) (m : OrderedMap κ ν)
    (h : ((m.entries ++ l).map Prod.fst).Nodup) :
    (l.foldl (fun m e => m.set e.1 e.2) m).entries = m.entries ++ l := by
  induction l generalizing m with
  | nil => exact (List.append_nil _).symm
  | cons e l ih =>
    have hNew : e.1 ∉ m.entries.map Prod.fst := by
      rw [List.map_append, List.map_cons, List.nodup_append] at h
      exact fun hMem => h.2.2 _ hMem _ List.mem_cons_self rfl
    have hEntries : (m.set e.1 e.2).entries = m.entries ++ [e] := write_new e.2 hNew
    rw [List.foldl_cons, ih, hEntries, List.append_assoc]
    · rfl
    · rw [hEntries, List.append_assoc]
      exact h

theorem foldl_set_empty (m : OrderedMap κ ν) :
    m.entries.foldl (fun m e => m.set e.1 e.2) empty = m :=
  ext_entries (entries_foldl_set m.entries empty m.nodup)

section Keyed

variable (key : ν → κ)

def setAll (m : OrderedMap κ ν) (l : List ν) : OrderedMap κ ν := l.foldl (fun m v => m.set (key v) v) m

variable {key} {m : OrderedMap κ ν} {l : List ν} {k : κ}

theorem mem_keys_setAll : k ∈ (m.setAll key l).keys ↔ k ∈ m.keys ∨ k ∈ l.map key := by
  induction l generalizing m with
  | nil => exact (or_iff_left List.not_mem_nil).symm
  | cons v l ih =>
    change k ∈ ((m.set (key v) v).setAll key l).keys ↔ _
    rw [ih, mem_keys_set, List.map_cons, List.mem_cons]
    tauto

/-- A value of the result is one of the list, or it is an old one whose key is not written. -/
theorem get_setAll {v : ν} (h : (m.setAll key l).get k = some v) :
    v ∈ l ∧ key v = k ∨ m.get k = some v ∧ k ∉ l.map key := by
  induction l generalizing m with
  | nil => exact .inr ⟨h, List.not_mem_nil⟩
  | cons w l ih =>
    obtain ⟨hv, hKey⟩ | ⟨hGet, hOther⟩ := ih h
    · exact .inl ⟨List.mem_cons_of_mem w hv, hKey⟩
    · rw [get_set] at hGet
      split at hGet
      · rename_i hSame
        cases hGet
        exact .inl ⟨List.mem_cons_self, hSame.symm⟩
      · rename_i hNe
        exact .inr ⟨hGet, fun hMem => (List.mem_cons.mp hMem).elim hNe hOther⟩

theorem get_setAll_of_nodup (h : (l.map key).Nodup) :
    (m.setAll key l).get k = (l.find? fun v => key v = k).or (m.get k) := by
  induction l generalizing m with
  | nil => rfl
  | cons v l ih =>
    obtain ⟨hHead, hTail⟩ := List.nodup_cons.mp h
    refine (ih hTail).trans ?_
    by_cases hKey : key v = k
    · subst hKey
      have hNone : (l.find? fun w => key w = key v) = none :=
        List.find?_eq_none.mpr fun w hw hSame =>
          hHead (of_decide_eq_true hSame ▸ List.mem_map_of_mem hw)
      rw [hNone, get_set_self, List.find?_cons_of_pos (by simp)]
      rfl
    · rw [get_set_ne _ _ (Ne.symm hKey), List.find?_cons_of_neg (by simpa using hKey)]

/-- The page of a listing has an entry that passes its filter and has few such entries before it. -/
theorem find?_page (h : (l.map key).Nodup) (f : ν → Bool) (n : Nat) :
    (((l.filter f).take n).find? fun v => key v = k) =
      (l.find? fun v => key v = k).filter fun v =>
        f v && decide ((l.takeWhile fun w => key w ≠ k).countP f < n) := by
  induction l generalizing n with
  | nil => simp
  | cons v l ih =>
    obtain ⟨hHead, hTail⟩ := List.nodup_cons.mp h
    by_cases hKey : key v = k
    · subst hKey
      have hNone (i : Nat) : (((l.filter f).take i).find? fun w => key w = key v) = none := by
        refine List.find?_eq_none.mpr fun w hw hSame => hHead ?_
        rw [← of_decide_eq_true hSame]
        exact List.mem_map_of_mem (List.mem_of_mem_filter (List.mem_of_mem_take hw))
      cases hPass : f v <;> cases n <;> simp [hPass, hNone, Option.filter_some]
    · cases hPass : f v with
      | false => simp [hPass, hKey, ih hTail]
      | true =>
        cases n with
        | zero => simp [hPass, hKey]
        | succ n => simp [hPass, hKey, ih hTail]

def addAll (key : ν → κ) (m : OrderedMap κ ν) (l : List ν) : OrderedMap κ ν :=
  l.foldl (fun m v => if m.has (key v) then m else m.set (key v) v) m

theorem get_addAll (m : OrderedMap κ ν) (l : List ν) (k : κ) :
    (m.addAll key l).get k = (m.get k).or (l.find? fun v => key v = k) := by
  induction l generalizing m with
  | nil => exact (Option.or_none).symm
  | cons v l ih =>
    refine (ih _).trans ?_
    by_cases hKey : key v = k
    · subst hKey
      rw [List.find?_cons_of_pos (by simp)]
      cases hGet : m.get (key v) with
      | some w => simp [has, hGet]
      | none => simp [has, hGet]
    · rw [List.find?_cons_of_neg (by simpa using hKey)]
      change (OrderedMap.get (if m.has (key v) then m else m.set (key v) v) k).or _ = _
      split
      · rfl
      · rw [get_set_ne m v (Ne.symm hKey)]

def Keyed (key : ν → κ) (m : OrderedMap κ ν) : Prop := ∀ k v, m.get k = some v → key v = k

theorem keyed_empty : (empty : OrderedMap κ ν).Keyed key := fun k v h => by
  rw [get_empty] at h
  cases h

theorem Keyed.set (h : m.Keyed key) {v : ν} (hv : key v = k) : (m.set k v).Keyed key := by
  intro k' v' hGet
  rw [get_set] at hGet
  split at hGet
  · rename_i hSame
    cases hGet
    exact hv.trans hSame.symm
  · exact h k' v' hGet

theorem Keyed.delete (h : m.Keyed key) (k : κ) : (m.delete k).Keyed key := by
  intro k' v' hGet
  rw [get_delete] at hGet
  split at hGet
  · cases hGet
  · exact h k' v' hGet

theorem Keyed.setAll (h : m.Keyed key) : (m.setAll key l).Keyed key := by
  intro k v hGet
  obtain ⟨-, hKey⟩ | ⟨hOld, -⟩ := get_setAll hGet
  · exact hKey
  · exact h k v hOld

theorem Keyed.addAll (h : m.Keyed key) : (m.addAll key l).Keyed key := by
  intro k v hGet
  rw [get_addAll] at hGet
  obtain hOld | ⟨-, hFind⟩ := Option.or_eq_some_iff.mp hGet
  · exact h k v hOld
  · simpa using List.find?_some hFind

theorem Keyed.values_map (h : m.Keyed key) : m.values.map key = m.keys := by
  unfold values keys
  rw [List.map_map]
  refine List.map_congr_left fun e he => ?_
  exact h e.1 e.2 ((mem_entries_iff m e.1 e.2).mp he)

theorem Keyed.find?_values (h : m.Keyed key) (k : κ) : (m.values.find? fun v => key v = k) = m.get k := by
  cases hGet : m.get k with
  | none =>
    rw [List.find?_eq_none]
    intro v hv hSame
    obtain ⟨k', hGet'⟩ := (mem_values_iff m v).mp hv
    obtain rfl := (h k' v hGet').symm.trans (of_decide_eq_true hSame)
    cases hGet.symm.trans hGet'
  | some v =>
    have hFound : ((m.values.find? fun w => key w = k)).isSome :=
      List.find?_isSome.mpr ⟨v, (mem_values_iff m v).mpr ⟨k, hGet⟩, decide_eq_true (h k v hGet)⟩
    obtain ⟨w, hw⟩ := Option.isSome_iff_exists.mp hFound
    have hKey : key w = k := by simpa using List.find?_some hw
    obtain ⟨k', hGet'⟩ := (mem_values_iff m w).mp (List.mem_of_find?_eq_some hw)
    obtain rfl := (h k' w hGet').symm.trans hKey
    rw [hw, ← hGet', hGet]

theorem Keyed.mem_values (h : m.Keyed key) {v : ν} : v ∈ m.values ↔ m.get (key v) = some v := by
  rw [mem_values_iff]
  constructor
  · rintro ⟨k, hGet⟩
    rwa [h k v hGet]
  · exact fun hGet => ⟨key v, hGet⟩

end Keyed

def Rel (R : ν → ν → Prop) (m n : OrderedMap κ ν) : Prop :=
  List.Forall₂ (fun e f => f.1 = e.1 ∧ R e.2 f.2) m.entries n.entries

section Related

variable {R : ν → ν → Prop} {m n : OrderedMap κ ν}

omit [DecidableEq κ] in
theorem rel_refl (h : ∀ v, R v v) (m : OrderedMap κ ν) : m.Rel R m :=
  List.forall₂_same.mpr fun e _ => ⟨rfl, h e.2⟩

theorem Rel.get (h : m.Rel R n) {k : κ} {w : ν} (hGet : n.get k = some w) :
    ∃ v, m.get k = some v ∧ R v w := by
  obtain ⟨es, hes⟩ := m
  obtain ⟨fs, hfs⟩ := n
  change List.Forall₂ _ es fs at h
  change lookup k fs = some w at hGet
  change ∃ v, lookup k es = some v ∧ R v w
  clear hes hfs
  induction h with
  | nil => cases hGet
  | @cons e f es fs hef hRest ih =>
    unfold lookup at hGet ⊢
    rw [hef.1] at hGet
    split at hGet
    · rename_i he
      cases hGet
      exact ⟨e.2, if_pos he, hef.2⟩
    · rename_i he
      rw [if_neg he]
      exact ih hGet

omit [DecidableEq κ] in
theorem Rel.flip (h : m.Rel R n) : n.Rel (fun v w => R w v) m :=
  List.Forall₂.flip (h.imp fun _ _ he => ⟨he.1.symm, he.2⟩)

omit [DecidableEq κ] in
theorem Rel.countP (h : m.Rel R n) {p : ν → Bool} (hp : ∀ v w, R v w → p w = p v) :
    n.values.countP p = m.values.countP p := by
  obtain ⟨es, hes⟩ := m
  obtain ⟨fs, hfs⟩ := n
  change List.Forall₂ _ es fs at h
  change (fs.map Prod.snd).countP p = (es.map Prod.snd).countP p
  clear hes hfs
  induction h with
  | nil => rfl
  | @cons e f es fs hef hRest ih =>
    rw [List.map_cons, List.map_cons, List.countP_cons, List.countP_cons, ih, hp e.2 f.2 hef.2]

theorem Rel.set (h : m.Rel R n) {k : κ} {v w : ν} (hHas : n.get k = some v)
    (hNew : ∀ u, m.get k = some u → R u w) : m.Rel R (n.set k w) := by
  obtain ⟨es, hes⟩ := m
  obtain ⟨fs, hfs⟩ := n
  change List.Forall₂ _ es fs at h
  change lookup k fs = some v at hHas
  change ∀ u, lookup k es = some u → R u w at hNew
  change List.Forall₂ _ es (write k w fs)
  clear hes hfs
  induction h with
  | nil => cases hHas
  | @cons e f es fs hef hRest ih =>
    unfold lookup at hHas hNew
    unfold write
    rw [hef.1] at hHas ⊢
    split
    · rename_i he
      rw [if_pos he] at hNew
      exact List.Forall₂.cons ⟨he.symm, hNew e.2 rfl⟩ hRest
    · rename_i he
      rw [if_neg he] at hHas hNew
      exact List.Forall₂.cons hef (ih hHas hNew)

omit [DecidableEq κ] in
theorem Rel.keepIf (h : m.Rel R n) {p : ν → Bool} (hp : ∀ v w, R v w → p w = p v) :
    (m.keepIf p).Rel R (n.keepIf p) := by
  obtain ⟨es, hes⟩ := m
  obtain ⟨fs, hfs⟩ := n
  change List.Forall₂ _ es fs at h
  change List.Forall₂ _ (es.filter _) (fs.filter _)
  clear hes hfs
  induction h with
  | nil => exact List.Forall₂.nil
  | @cons e f es fs hef hRest ih =>
    rw [List.filter_cons, List.filter_cons, hp e.2 f.2 hef.2]
    split
    · exact List.Forall₂.cons hef ih
    · exact ih

end Related

end OrderedMap
