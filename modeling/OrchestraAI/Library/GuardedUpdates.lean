import Mathlib.Logic.Function.Basic
import Mathlib.Data.List.Basic
import Mathlib.Data.Option.Basic

/-! # Sequences of guarded updates

An update replaces the value of one key, or refuses the value it finds. A sequence
of updates is refused with its first refused update. What two sequences do one after
the other does not change when the first grows by an update of a key that the second
leaves alone.
-/

namespace GuardedUpdates

universe u v

variable {κ : Type u} {ν : Type v}

structure Update (κ : Type u) (ν : Type v) where
  key : κ
  change : ν → Option ν

variable [DecidableEq κ]

def exec : List (Update κ ν) → (κ → ν) → Option (κ → ν)
  | [], s => some s
  | u :: us, s => (u.change (s u.key)).bind fun v => exec us (Function.update s u.key v)

theorem exec_append (us vs : List (Update κ ν)) (s : κ → ν) :
    exec (us ++ vs) s = (exec us s).bind (exec vs) := by
  induction us generalizing s with
  | nil => rfl
  | cons u us ih =>
    simp only [List.cons_append, exec, Option.bind_assoc, ih]

theorem exec_snoc {us : List (Update κ ν)} {u : Update κ ν} {s t : κ → ν} {v : ν}
    (h : exec us s = some t) (hv : u.change (t u.key) = some v) :
    exec (us ++ [u]) s = some (Function.update t u.key v) := by
  rw [exec_append, h, Option.bind_some, exec, hv]
  rfl

theorem exec_untouched {us : List (Update κ ν)} {s t : κ → ν} {k : κ} (h : exec us s = some t)
    (hk : ∀ u ∈ us, u.key ≠ k) : t k = s k := by
  induction us generalizing s with
  | nil =>
    cases h
    rfl
  | cons u us ih =>
    obtain ⟨v, -, hRest⟩ := Option.bind_eq_some_iff.mp h
    rw [ih hRest fun w hw => hk w (List.mem_cons_of_mem _ hw)]
    exact Function.update_of_ne (hk u List.mem_cons_self).symm _ _

theorem exec_update {us : List (Update κ ν)} {k : κ} (hk : ∀ u ∈ us, u.key ≠ k) {s t : κ → ν}
    (h : exec us s = some t) (v : ν) :
    exec us (Function.update s k v) = some (Function.update t k v) := by
  induction us generalizing s with
  | nil =>
    cases h
    rfl
  | cons u us ih =>
    obtain ⟨w, hw, hRest⟩ := Option.bind_eq_some_iff.mp h
    have hKey := hk u List.mem_cons_self
    unfold exec
    rw [Function.update_of_ne hKey, hw, Option.bind_some, Function.update_comm hKey.symm]
    exact ih (fun w hw => hk w (List.mem_cons_of_mem _ hw)) hRest

theorem exec_insert {us vs : List (Update κ ν)} {u : Update κ ν} {r s t : κ → ν} {v : ν}
    (hFirst : exec us r = some s) (hSecond : exec vs s = some t)
    (hApart : ∀ w ∈ vs, w.key ≠ u.key) (hv : u.change (t u.key) = some v) :
    exec (us ++ [u]) r = some (Function.update s u.key v) ∧
      exec vs (Function.update s u.key v) = some (Function.update t u.key v) := by
  rw [exec_untouched hSecond hApart] at hv
  exact ⟨exec_snoc hFirst hv, exec_update hApart hSecond v⟩

end GuardedUpdates
