import Mathlib.Algebra.Order.BigOperators.Group.List
import Mathlib.Algebra.Order.Ring.Nat
import OrchestraAI.Library.JsonText
import OrchestraAI.Library.Utf8

/-! # The size of a JSON text

A text is as long as its parts together, and as many bytes long as it has characters at least.
-/

namespace Json

def size (v : Json) : Nat := (stringify v).length

def byteSize (v : Json) : Nat := (Utf8.encode (stringify v)).length

theorem length_le_length_encode (t : Text) : t.length ≤ (Utf8.encode t).length := by
  induction t with
  | nil => exact Nat.le_refl 0
  | cons c t ih =>
    have hChar : 1 ≤ (Utf8.encodeChar c).length := by
      unfold Utf8.encodeChar
      dsimp only
      split_ifs <;> exact Nat.le_add_left 1 _
    rw [Utf8.encode, List.flatMap_cons, List.length_append, List.length_cons, Nat.add_comm]
    exact Nat.add_le_add hChar ih

theorem size_le_byteSize (v : Json) : v.size ≤ v.byteSize := length_le_length_encode _

theorem sum_le_commaSeparated (ts : List Text) :
    (ts.map List.length).sum ≤ (commaSeparated ts).length := by
  induction ts with
  | nil => exact Nat.le_refl 0
  | cons t ts ih =>
    cases ts with
    | nil => exact Nat.le_refl _
    | cons u us =>
      rw [commaSeparated, List.length_append, List.length_cons, List.map_cons, List.sum_cons]
      · omega
      · exact List.cons_ne_nil u us

theorem sum_le_size_arr (vs : List Json) : (vs.map size).sum ≤ (Json.arr vs).size := by
  have hSum := sum_le_commaSeparated (elemTexts vs)
  rw [elemTexts_eq_map, List.map_map] at hSum
  simp only [size, stringify, List.length_append, List.length_cons, elemTexts_eq_map]
  exact hSum.trans (by omega)

theorem size_le_size_obj {fields : List (String × Json)} {f : String × Json} (h : f ∈ fields) :
    f.2.size ≤ (Json.obj fields).size := by
  have hSum := sum_le_commaSeparated (fieldTexts fields)
  have hField : (fieldText f.1 (stringify f.2)).length ∈ (fieldTexts fields).map List.length := by
    rw [fieldTexts_eq_map]
    exact List.mem_map_of_mem (List.mem_map_of_mem h)
  have hText : f.2.size ≤ (fieldText f.1 (stringify f.2)).length := by
    rw [size, fieldText, List.length_append, List.length_cons]
    omega
  have hLength : (commaSeparated (fieldTexts fields)).length ≤ (Json.obj fields).size := by
    simp only [size, stringify, List.length_append, List.length_cons]
    omega
  calc f.2.size ≤ (fieldText f.1 (stringify f.2)).length := hText
    _ ≤ ((fieldTexts fields).map List.length).sum := List.le_sum_of_mem hField
    _ ≤ (Json.obj fields).size := hSum.trans hLength

theorem size_str (s : String) : (s.toList.map fun c => (escapeChar c).length).sum ≤ (Json.str s).size := by
  simp only [size, stringify, quoted, List.length_append, List.length_cons, List.length_flatMap]
  omega

end Json
