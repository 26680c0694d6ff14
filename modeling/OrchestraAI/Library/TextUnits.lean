import Mathlib.Data.List.DropRight
import OrchestraAI.Library.JsonText
import OrchestraAI.Library.Utf8

/-! # Blanks, lengths and slices

What a program whose texts are code units in UTF-16 takes for a blank, for the length of a text
and for a slice of it.
-/

namespace Text

/-- What `\s` matches, and what `trim` takes away. -/
def isSpace (c : Char) : Bool :=
  c ∈ [' ', '\t', '\n', '\r', '\u000B', '\u000C', '\u00A0', '\u1680', '\u2028', '\u2029', '\u202F',
    '\u205F', '\u3000', '\uFEFF'] || ('\u2000' ≤ c && c ≤ '\u200A')

def trimBy {α : Type} (p : α → Bool) (t : List α) : List α := (t.dropWhile p).rdropWhile p

def trim (t : Text) : Text := trimBy isSpace t

/-- `text.length`, in code units. -/
def codeUnitCount : Text → Nat
  | [] => 0
  | c :: t => (if c.toNat < 0x10000 then 1 else 2) + codeUnitCount t

/-- `text.slice(0, n)`; half of a pair becomes a replacement character. -/
def sliceUnits : Nat → Text → Text
  | 0, _ => []
  | _, [] => []
  | n + 1, c :: t =>
    if c.toNat < 0x10000 then c :: sliceUnits n t
    else
      match n with
      | 0 => [Utf8.replacement]
      | m + 1 => c :: sliceUnits m t
termination_by structural _ t => t

/-- `text.slice(-n)`, for a positive `n`. -/
def lastUnits (n : Nat) (t : Text) : Text := (sliceUnits n t.reverse).reverse

theorem trimBy_eq_nil {α : Type} {p : α → Bool} {t : List α} :
    trimBy p t = [] ↔ ∀ a ∈ t, p a = true := by
  rw [trimBy, List.rdropWhile_eq_nil_iff]
  constructor
  · intro h
    rw [← List.dropWhile_eq_nil_iff]
    cases hRest : t.dropWhile p with
    | nil => rfl
    | cons a u =>
      have hHead := List.head?_dropWhile_not p t
      rw [hRest, List.head?_cons] at hHead
      exact absurd (h a (hRest ▸ List.mem_cons_self)) (by simpa using hHead)
  · intro h a ha
    exact h a ((List.dropWhile_sublist _).mem ha)

theorem trimBy_infix {α : Type} {p : α → Bool} (t : List α) : trimBy p t <:+: t := by
  have hLeft : t.dropWhile p <:+: t := (List.dropWhile_suffix _).isInfix
  exact (List.rdropWhile_prefix p _).isInfix.trans hLeft

theorem mem_sliceUnits {n : Nat} {t : Text} {c : Char} (h : c ∈ sliceUnits n t) :
    c ∈ t ∨ c = Utf8.replacement := by
  fun_induction sliceUnits n t with
  | case1 | case2 => cases h
  | case3 n d t _ ih | case5 d t _ n ih =>
    obtain rfl | hRest := List.mem_cons.mp h
    · exact .inl List.mem_cons_self
    · exact (ih hRest).imp_left (List.mem_cons_of_mem d)
  | case4 => exact .inr (List.mem_singleton.mp h)

theorem codeUnitCount_sliceUnits_le (n : Nat) (t : Text) : codeUnitCount (sliceUnits n t) ≤ n := by
  fun_induction sliceUnits n t with
  | case1 => exact Nat.le_refl 0
  | case2 => exact Nat.zero_le _
  | case3 n c t hShort ih =>
    rw [codeUnitCount, if_pos hShort, Nat.add_comm]
    exact Nat.succ_le_succ ih
  | case4 => decide
  | case5 c t hLong m ih =>
    rw [codeUnitCount, if_neg hLong, Nat.add_comm]
    exact Nat.add_le_add_right ih 2

theorem sliceUnits_of_codeUnitCount_le {n : Nat} {t : Text} (h : codeUnitCount t ≤ n) :
    sliceUnits n t = t := by
  fun_induction sliceUnits n t with
  | case1 t =>
    cases t with
    | nil => rfl
    | cons c t =>
      rw [codeUnitCount] at h
      split at h <;> omega
  | case2 => rfl
  | case3 n c t hShort ih =>
    rw [codeUnitCount, if_pos hShort] at h
    rw [ih (by omega)]
  | case4 c t hLong =>
    rw [codeUnitCount, if_neg hLong] at h
    omega
  | case5 c t hLong m ih =>
    rw [codeUnitCount, if_neg hLong] at h
    rw [ih (by omega)]

theorem sliceUnits_sliceUnits (n : Nat) (t : Text) : sliceUnits n (sliceUnits n t) = sliceUnits n t :=
  sliceUnits_of_codeUnitCount_le (codeUnitCount_sliceUnits_le n t)

theorem length_codeUnits (t : Text) : (codeUnits (String.ofList t)).length = codeUnitCount t := by
  rw [codeUnits, String.toList_ofList]
  induction t with
  | nil => rfl
  | cons c t ih =>
    rw [List.flatMap_cons, List.length_append, ih, codeUnitCount]
    split_ifs <;> rfl

end Text
