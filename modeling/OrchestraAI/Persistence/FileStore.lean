import Mathlib.Algebra.BigOperators.Group.List.Basic
import Mathlib.Algebra.GroupWithZero.Nat
import Mathlib.Logic.Function.Iterate
import OrchestraAI.Library.NewestWindow

/-! # Lists in files

`_serializePrunable` and `_writeJson` of `persistence.js` for the files that hold one list:
a text that is too long loses its oldest entries, and one that stays too long is not
written.
-/

namespace OrchestraAI.Persistence

open LastEntries

variable {α : Type}

def prune (current : List α) : Option (List α) :=
  if current.length ≤ 10 then none else some (current.rtake (max 10 (current.length / 2)))

/-- The newest entries that `i` prunings leave. -/
def halved (list : List α) (i : Nat) : List α := list.rtake ((fun n => max 10 (n / 2))^[i] list.length)

structure FileLimits (α : Type) where
  maxBytes : Nat
  /-- The length of the text of an entry, in code units. -/
  bytes : α → Nat

namespace FileLimits

variable (limits : FileLimits α)

def textLength (list : List α) : Nat := 2 + (list.map limits.bytes).sum + (list.length - 1)

def serializePrunable : Nat → List α → Option (List α)
  | 0, current => if limits.textLength current ≤ limits.maxBytes then some current else none
  | attempts + 1, current =>
    if limits.textLength current ≤ limits.maxBytes then some current
    else (prune current).bind fun next => serializePrunable attempts next

def writeJson (file value : List α) : List α := (limits.serializePrunable 6 value).getD file

variable {limits}

theorem serializePrunable_sublist {attempts : Nat} {list written : List α}
    (h : limits.serializePrunable attempts list = some written) : written.Sublist list := by
  induction attempts generalizing list with
  | zero =>
    simp only [serializePrunable] at h
    split at h
    · cases h
      exact List.Sublist.refl _
    · cases h
  | succ attempts ih =>
    simp only [serializePrunable] at h
    split at h
    · cases h
      exact List.Sublist.refl _
    · obtain ⟨next, hNext, hWritten⟩ := Option.bind_eq_some_iff.mp h
      unfold prune at hNext
      split at hNext
      · cases hNext
      · cases hNext
        exact (ih hWritten).trans (rtake_sublist _ _)

theorem writeJson_cases (file value : List α) :
    limits.writeJson file value = file ∨ (limits.writeJson file value).Sublist value := by
  unfold writeJson
  cases hWritten : limits.serializePrunable 6 value with
  | none => exact .inl rfl
  | some written => exact .inr (serializePrunable_sublist hWritten)

theorem halved_zero (list : List α) : halved list 0 = list := rtake_of_length_le le_rfl

theorem halved_short {list : List α} (h : list.length ≤ 10) (i : Nat) : halved list i = list := by
  apply rtake_of_length_le
  cases i with
  | zero => exact le_rfl
  | succ i =>
    rw [Function.iterate_succ_apply']
    exact h.trans (le_max_left 10 _)

theorem iterate_halving_le {n : Nat} (h : 10 ≤ n) (i : Nat) : (fun n => max 10 (n / 2))^[i] n ≤ n := by
  induction i with
  | zero => exact le_rfl
  | succ i ih =>
    rw [Function.iterate_succ_apply']
    omega

theorem halved_succ {list next : List α} (h : prune list = some next) (i : Nat) :
    halved list (i + 1) = halved next i := by
  unfold prune at h
  split at h
  · cases h
  · rename_i hLong
    cases h
    have hLength : (list.rtake (max 10 (list.length / 2))).length = max 10 (list.length / 2) := by
      rw [List.rtake, List.length_drop]
      omega
    have hLeft := iterate_halving_le (le_max_left 10 (list.length / 2)) i
    rw [halved, halved, Function.iterate_succ_apply, hLength, List.rtake, List.rtake, List.rtake,
      List.drop_drop, List.length_drop]
    congr 1
    omega

theorem writeJson_of_fits {value : List α} (h : limits.textLength value ≤ limits.maxBytes)
    (file : List α) : limits.writeJson file value = value := by
  unfold writeJson serializePrunable
  rw [if_pos h]
  rfl

end FileLimits

end OrchestraAI.Persistence
