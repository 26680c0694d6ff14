import Mathlib.Logic.Basic
import Mathlib.Data.Option.Basic

/-! # Runs of a labelled step function

A system is a partial step function: a label fixes everything the outside world
chooses, and `none` says that the step is not enabled. Runs are restricted by a
condition on the state before each step, so that one notion of reachability
serves unrestricted runs and the runs that keep away from a given branch.
-/

namespace LabelledSystem

universe u v

variable {σ : Type u} {ℓ : Type v}

/-- The states reached from a start state by steps that all meet `ok`. -/
inductive Reach (step : σ → ℓ → Option σ) (ok : σ → ℓ → Prop) (start : σ → Prop) : σ → Prop
  | start {s : σ} : start s → Reach step ok start s
  | next {s t : σ} {l : ℓ} : Reach step ok start s → ok s l → step s l = some t →
      Reach step ok start t

def Anything : σ → ℓ → Prop := fun _ _ => True

variable {step : σ → ℓ → Option σ} {ok : σ → ℓ → Prop} {start : σ → Prop}

/-- The run rule: what the start states have and every step keeps, every reached state has. -/
theorem Reach.invariant {I : σ → Prop} {s : σ} (h : Reach step ok start s)
    (hStart : ∀ s, start s → I s)
    (hStep : ∀ s l t, I s → ok s l → step s l = some t → I t) : I s := by
  induction h with
  | start hs => exact hStart _ hs
  | next _ hok hstep ih => exact hStep _ _ _ ih hok hstep

def run (step : σ → ℓ → Option σ) : σ → List ℓ → Option σ
  | s, [] => some s
  | s, l :: ls => (step s l).bind fun t => run step t ls

/-- Whether every step of an executed list of labels meets `ok`. -/
def Along (step : σ → ℓ → Option σ) (ok : σ → ℓ → Prop) : σ → List ℓ → Prop
  | _, [] => True
  | s, l :: ls => ok s l ∧ match step s l with
    | none => True
    | some t => Along step ok t ls

instance decidableAlong [∀ s l, Decidable (ok s l)] :
    ∀ (s : σ) (ls : List ℓ), Decidable (Along step ok s ls)
  | _, [] => inferInstanceAs (Decidable True)
  | s, l :: ls =>
    match h : step s l with
    | none => decidable_of_iff (ok s l) (by simp [Along, h])
    | some t =>
      have := decidableAlong t ls
      decidable_of_iff (ok s l ∧ Along step ok t ls) (by simp [Along, h])

theorem Along.tail {s t : σ} {l : ℓ} {ls : List ℓ} (h : Along step ok s (l :: ls))
    (hs : step s l = some t) : Along step ok t ls := by
  have h := h.2
  rwa [hs] at h

theorem Along.last {s t : σ} {ls : List ℓ} {l : ℓ} (h : Along step ok s (ls ++ [l]))
    (hrun : run step s ls = some t) : ok t l := by
  induction ls generalizing s with
  | nil => exact Option.some.inj hrun ▸ h.1
  | cons l' ls ih =>
    obtain ⟨m, hm, hrest⟩ := Option.bind_eq_some_iff.mp hrun
    exact ih (h.tail hm) hrest

theorem along_of_forall {ls : List ℓ} (h : ∀ l ∈ ls, ∀ s, ok s l) (s : σ) :
    Along step ok s ls := by
  induction ls generalizing s with
  | nil => trivial
  | cons l ls ih =>
    refine ⟨h l List.mem_cons_self s, ?_⟩
    split
    · trivial
    · exact ih (fun m hm => h m (List.mem_cons_of_mem l hm)) _

/-- Two conditions that agree where an invariant holds agree along a run, if the invariant is kept
by the steps that meet them. -/
theorem along_congr {I : σ → Prop} {ok' : σ → ℓ → Prop} {s : σ}
    (hStep : ∀ s l, I s → (ok s l ↔ ok' s l) ∧ ∀ t, step s l = some t → ok s l → I t)
    (hs : I s) (ls : List ℓ) : Along step ok s ls ↔ Along step ok' s ls := by
  induction ls generalizing s with
  | nil => rfl
  | cons l ls ih =>
    obtain ⟨hSame, hKeeps⟩ := hStep s l hs
    unfold Along
    rw [← hSame]
    apply and_congr_right
    intro hok
    cases hm : step s l with
    | none => rfl
    | some m => exact ih (hKeeps m hm hok)

theorem along_anything (s : σ) (ls : List ℓ) : Along step Anything s ls :=
  along_of_forall (fun _ _ _ => trivial) s

theorem Reach.run {s t : σ} {ls : List ℓ} (h : Reach step ok start s)
    (hrun : LabelledSystem.run step s ls = some t) (hok : Along step ok s ls) :
    Reach step ok start t := by
  induction ls generalizing s with
  | nil => exact Option.some.inj hrun ▸ h
  | cons l ls ih =>
    obtain ⟨m, hm, hrest⟩ := Option.bind_eq_some_iff.mp hrun
    exact ih (.next h hok.1 hm) hrest (hok.tail hm)

theorem reach_of_run {s t : σ} {ls : List ℓ} (hs : start s)
    (hrun : LabelledSystem.run step s ls = some t) : Reach step Anything start t :=
  (Reach.start hs).run hrun (along_anything s ls)

end LabelledSystem
