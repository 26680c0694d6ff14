import OrchestraAI.Library.JsonText

/-! # Fields and paths of JSON values

The fields of an object are a list, of which the first with a key counts. A path leads from a
value by keys and indices to one inside of it.

A pruning of a value has the fields of the value and of each array some of the elements, in their
order and pruned themselves.
-/

namespace Json

abbrev Fields := List (String × Json)

def field (key : String) : Fields → Option Json
  | [] => none
  | (k, v) :: fields => if k = key then some v else field key fields

def assign (key : String) (value : Json) : Fields → Fields
  | [] => [(key, value)]
  | (k, v) :: fields => if k = key then (k, value) :: fields else (k, v) :: assign key value fields

def rewrite (g : String → Json → Json) (fields : Fields) : Fields :=
  fields.map fun f => (f.1, g f.1 f.2)

inductive Step
  | key (key : String)
  | index (i : Nat)
  deriving DecidableEq

abbrev Path := List Step

def lookup : Path → Json → Option Json
  | [], v => some v
  | .key key :: path, .obj fields => (field key fields).bind (lookup path)
  | .index i :: path, .arr elems => elems[i]?.bind (lookup path)
  | _ :: _, _ => none

attribute [grind =] field assign lookup

variable {key other : String} {value w : Json} {fields : Fields}

theorem field_assign_same (key : String) (value : Json) (fields : Fields) :
    field key (assign key value fields) = some value := by
  induction fields with
  | nil => exact if_pos rfl
  | cons f fields ih =>
    unfold assign
    split
    · rename_i hKey
      exact if_pos hKey
    · rename_i hKey
      exact (if_neg hKey).trans ih

theorem field_assign_other (h : other ≠ key) (value : Json) (fields : Fields) :
    field other (assign key value fields) = field other fields := by
  induction fields with
  | nil => exact if_neg (Ne.symm h)
  | cons f fields ih =>
    unfold assign
    split
    · rename_i hKey
      have hOther : f.1 ≠ other := fun hSame => h (hSame.symm.trans hKey)
      exact (if_neg hOther).trans (if_neg hOther).symm
    · unfold field
      split
      · rfl
      · exact ih

theorem assign_assign (key : String) (value w : Json) (fields : Fields) :
    assign key w (assign key value fields) = assign key w fields := by
  induction fields with
  | nil => exact if_pos rfl
  | cons f fields ih =>
    obtain ⟨k, v⟩ := f
    obtain rfl | hKey := eq_or_ne k key
    · simp only [assign, if_true]
    · simp only [assign, if_neg hKey, ih]

theorem assign_of_field (h : field key fields = some value) : assign key value fields = fields := by
  induction fields with
  | nil => cases h
  | cons f fields ih =>
    obtain ⟨k, v⟩ := f
    obtain rfl | hKey := eq_or_ne k key
    · simp only [field, if_true, Option.some.injEq] at h
      simp only [assign, if_true, h]
    · simp only [field, if_neg hKey] at h
      simp only [assign, if_neg hKey, ih h]

theorem assign_comm (h : key ≠ other) (hThere : (field key fields).isSome) (value w : Json) :
    assign key value (assign other w fields) = assign other w (assign key value fields) := by
  induction fields with
  | nil => cases hThere
  | cons f fields ih =>
    obtain ⟨k, v⟩ := f
    obtain rfl | hKey := eq_or_ne k key
    · simp only [assign, if_neg h, if_true]
    · simp only [field, if_neg hKey] at hThere
      obtain rfl | hOther := eq_or_ne k other
      · simp only [assign, if_true, if_neg hKey]
      · simp only [assign, if_neg hKey, if_neg hOther, ih hThere]

theorem field_rewrite (g : String → Json → Json) (key : String) (fields : Fields) :
    field key (rewrite g fields) = (field key fields).map (g key) := by
  induction fields with
  | nil => rfl
  | cons f fields ih =>
    obtain ⟨k, v⟩ := f
    change field key ((k, g k v) :: rewrite g fields) = _
    obtain rfl | hKey := eq_or_ne k key
    · simp only [field, if_true, Option.map_some]
    · simp only [field, if_neg hKey, ih]

theorem rewrite_assign (g : String → Json → Json) (key : String) (value : Json) (fields : Fields) :
    rewrite g (assign key value fields) = assign key (g key value) (rewrite g fields) := by
  induction fields with
  | nil => rfl
  | cons f fields ih =>
    obtain ⟨k, v⟩ := f
    change rewrite g (assign key value ((k, v) :: fields)) =
      assign key (g key value) ((k, g k v) :: rewrite g fields)
    obtain rfl | hKey := eq_or_ne k key
    · simp only [assign, if_true]
      rfl
    · simp only [assign, if_neg hKey, ← ih]
      rfl

theorem rewrite_rewrite {g : String → Json → Json} (h : ∀ f ∈ fields, g f.1 (g f.1 f.2) = g f.1 f.2) :
    rewrite g (rewrite g fields) = rewrite g fields := by
  rw [rewrite, rewrite, List.map_map]
  exact List.map_congr_left fun f hf => congrArg (Prod.mk f.1) (h f hf)

theorem lookup_key (key : String) (path : Path) (fields : Fields) :
    lookup (.key key :: path) (.obj fields) = (field key fields).bind (lookup path) := rfl

theorem lookup_assign_other (h : other ≠ key) (value : Json) (path : Path) (fields : Fields) :
    lookup (.key other :: path) (.obj (assign key value fields)) =
      lookup (.key other :: path) (.obj fields) := by
  rw [lookup_key, lookup_key, field_assign_other h]

theorem lookup_assign_same (key : String) (value : Json) (path : Path) (fields : Fields) :
    lookup (.key key :: path) (.obj (assign key value fields)) = lookup path value := by
  rw [lookup_key, field_assign_same]
  rfl

mutual

inductive Pruning : Json → Json → Prop
  | refl (v : Json) : Pruning v v
  | arr {elems kept : List Json} (h : PrunedElems elems kept) : Pruning (.arr elems) (.arr kept)
  | obj {fields pruned : Fields} (h : PrunedFields fields pruned) :
      Pruning (.obj fields) (.obj pruned)

inductive PrunedElems : List Json → List Json → Prop
  | nil : PrunedElems [] []
  | left (v : Json) {elems kept : List Json} (h : PrunedElems elems kept) :
      PrunedElems (v :: elems) kept
  | taken {v w : Json} {elems kept : List Json} (hValue : Pruning v w) (h : PrunedElems elems kept) :
      PrunedElems (v :: elems) (w :: kept)

inductive PrunedFields : Fields → Fields → Prop
  | nil : PrunedFields [] []
  | cons (key : String) {v w : Json} {fields pruned : Fields} (hValue : Pruning v w)
      (h : PrunedFields fields pruned) : PrunedFields ((key, v) :: fields) ((key, w) :: pruned)

end

variable {elems kept : List Json} {fields : Fields}

theorem PrunedElems.of_sublist : {elems kept : List Json} → kept.Sublist elems →
    PrunedElems elems kept
  | _, _, .slnil => .nil
  | _, _, .cons v h => .left v (of_sublist h)
  | _, _, .cons_cons v h => .taken (.refl v) (of_sublist h)

theorem PrunedFields.refl (fields : Fields) : PrunedFields fields fields := by
  induction fields with
  | nil => exact .nil
  | cons f fields ih => exact .cons f.1 (.refl f.2) ih

theorem PrunedFields.rewrite {g : String → Json → Json}
    (h : ∀ f ∈ fields, Pruning f.2 (g f.1 f.2)) : PrunedFields fields (rewrite g fields) := by
  induction fields with
  | nil => exact .nil
  | cons f fields ih =>
    exact .cons f.1 (h f List.mem_cons_self) (ih fun e he => h e (List.mem_cons_of_mem f he))

theorem PrunedFields.assign {key : String} {v w : Json} (hField : field key fields = some v)
    (h : Pruning v w) : PrunedFields fields (assign key w fields) := by
  induction fields with
  | nil => nomatch hField
  | cons f fields ih =>
    obtain ⟨k, u⟩ := f
    unfold Json.field at hField
    unfold Json.assign
    split at hField
    · rename_i hKey
      cases hField
      rw [if_pos hKey]
      exact .cons k h (.refl fields)
    · rename_i hKey
      rw [if_neg hKey]
      exact .cons k (.refl u) (ih hField)

mutual

theorem Pruning.trans {u v w : Json} : Pruning u v → Pruning v w → Pruning u w
  | .refl _, h => h
  | .arr h, .refl _ => .arr h
  | .arr h, .arr h' => .arr (h.trans h')
  | .obj h, .refl _ => .obj h
  | .obj h, .obj h' => .obj (h.trans h')

theorem PrunedElems.trans {us vs ws : List Json} :
    PrunedElems us vs → PrunedElems vs ws → PrunedElems us ws
  | .nil, h => h
  | .left v h, h' => .left v (h.trans h')
  | .taken _ h, .left _ h' => .left _ (h.trans h')
  | .taken hValue h, .taken hValue' h' => .taken (hValue.trans hValue') (h.trans h')

theorem PrunedFields.trans {us vs ws : Fields} :
    PrunedFields us vs → PrunedFields vs ws → PrunedFields us ws
  | .nil, h => h
  | .cons key hValue h, .cons _ hValue' h' => .cons key (hValue.trans hValue') (h.trans h')

end

end Json
