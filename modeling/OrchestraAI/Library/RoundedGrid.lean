import Mathlib.Algebra.Order.Round
import Mathlib.Algebra.Group.Subgroup.ZPowers.Basic
import Mathlib.Tactic.Positivity
import Mathlib.Tactic.Linarith
import Mathlib.Tactic.FieldSimp
import Mathlib.Tactic.Ring

/-! # Rounding to a grid

Numbers rounded to the nearest multiple of `1 / n`, halves upwards. A rounded number
is at most half a mesh away, and two points of the grid that are no further apart
than that are one. Sums of points are points, so rounding them changes nothing.
-/

namespace RoundedGrid

universe u

variable {α : Type u} [Field α] [LinearOrder α] [IsStrictOrderedRing α] [FloorRing α]

def toGrid (n : ℕ) (x : α) : α := round (x * n) / n

variable {n : ℕ}

theorem abs_toGrid_sub (hn : 0 < n) (x : α) : |toGrid n x - x| ≤ 1 / (2 * n) := by
  have hPos : (0 : α) < n := Nat.cast_pos.mpr hn
  have hEq : toGrid n x - x = -(x * n - round (x * n)) / n := by
    unfold toGrid
    field_simp
    ring
  rw [hEq, abs_div, abs_neg, abs_of_pos hPos, div_le_div_iff₀ hPos (by positivity)]
  have hRound := abs_sub_round (x * n)
  calc |x * n - round (x * n)| * (2 * n) ≤ 1 / 2 * (2 * n) := by gcongr
    _ = 1 * n := by ring

theorem toGrid_nonneg (n : ℕ) {x : α} (hx : 0 ≤ x) : 0 ≤ toGrid n x := by
  have hRound : 0 ≤ round (x * n) := by
    rw [round_eq]
    apply Int.floor_nonneg.mpr
    positivity
  unfold toGrid
  positivity

@[simp] theorem toGrid_zero (n : ℕ) : toGrid n (0 : α) = 0 := by simp [toGrid]

theorem toGrid_eq_of_close (hn : 0 < n) {x y : α} (h : |toGrid n x - toGrid n y| ≤ 1 / (2 * n)) :
    toGrid n x = toGrid n y := by
  have hPos : (0 : α) < n := Nat.cast_pos.mpr hn
  have hEq : toGrid n x - toGrid n y = ((round (x * n) - round (y * n) : ℤ) : α) / n := by
    unfold toGrid
    push_cast
    ring
  rw [hEq, abs_div, abs_of_pos hPos, div_le_div_iff₀ hPos (by positivity)] at h
  have hInt : |(round (x * n) - round (y * n) : ℤ)| < 1 := by
    have hLt : |((round (x * n) - round (y * n) : ℤ) : α)| < 1 := by nlinarith
    exact_mod_cast hLt
  have hSame : round (x * n) = round (y * n) := by
    rw [Int.abs_lt_one_iff] at hInt
    omega
  unfold toGrid
  rw [hSame]

theorem toGrid_mono (n : ℕ) {x y : α} (h : x ≤ y) : toGrid n x ≤ toGrid n y := by
  have hRound : round (x * n) ≤ round (y * n) := by
    rw [round_eq, round_eq]
    apply Int.floor_mono
    gcongr
  unfold toGrid
  gcongr

/-- The multiples of `1 / n`. -/
def grid (n : ℕ) : AddSubgroup α := AddSubgroup.zmultiples (n : α)⁻¹

omit [IsStrictOrderedRing α] in
theorem toGrid_mem (n : ℕ) (x : α) : toGrid n x ∈ grid n := by
  refine ⟨round (x * n), ?_⟩
  rw [toGrid, div_eq_mul_inv]
  exact zsmul_eq_mul _ _

theorem toGrid_of_mem (hn : 0 < n) {x : α} (h : x ∈ grid n) : toGrid n x = x := by
  obtain ⟨k, rfl⟩ := h
  have hPos : (n : α) ≠ 0 := (Nat.cast_pos.mpr hn).ne'
  change toGrid n (k • (n : α)⁻¹) = k • (n : α)⁻¹
  rw [toGrid, zsmul_eq_mul, inv_mul_cancel_right₀ hPos, round_intCast, div_eq_mul_inv]

omit [IsStrictOrderedRing α] [FloorRing α] in
theorem max_mem_grid {x y : α} (hx : x ∈ grid n) (hy : y ∈ grid n) : max x y ∈ grid n := by
  obtain h | h := max_choice x y
  · rwa [h]
  · rwa [h]

omit [IsStrictOrderedRing α] [FloorRing α] in
theorem min_mem_grid {x y : α} (hx : x ∈ grid n) (hy : y ∈ grid n) : min x y ∈ grid n := by
  obtain h | h := min_choice x y
  · rwa [h]
  · rwa [h]

end RoundedGrid
