import OrchestraAI.Library.AsyncProgram
import OrchestraAI.Library.LabelledSystem

/-! # Programs with notes

Notes are kept beside the shared state of a program, of the operations that are applied and of
the answers that come. What the program does is not changed by them; a contract may refer to
them, and so say of a state what has led to it.
-/

namespace AsyncProgram

open Prog LabelledSystem

universe u

variable {σ ο τ ε α γ ι : Type u} {Res : ο → Type u} {Ans : τ → Type u}

structure Notes (σ ο τ : Type u) (Ans : τ → Type u) (γ : Type u) where
  /-- An operation is applied to the state. -/
  applied : ο → σ → γ → γ
  /-- A wait ends with an answer. -/
  heard : (t : τ) → Ans t → γ → γ

namespace Notes

variable (n : Notes σ ο τ Ans γ) (exec : (o : ο) → σ → Res o × σ)

def apply (o : ο) (x : σ × γ) : Res o × σ × γ :=
  ((exec o x.1).1, (exec o x.1).2, n.applied o x.1 x.2)

def noted (x : System (σ × γ) ο Res τ Ans ε α) : Label τ Ans ι → γ
  | .tick =>
    match x.prog with
    | .op o _ => n.applied o x.shared.1 x.shared.2
    | _ => x.shared.2
  | .resume answers =>
    match x.prog with
    | .await t _ => n.heard t (answers t) x.shared.2
    | _ => x.shared.2
  | .env _ => x.shared.2

end Notes

def System.plain (x : System (σ × γ) ο Res τ Ans ε α) : System σ ο Res τ Ans ε α :=
  ⟨x.shared.1, x.prog⟩

namespace Notes

variable (n : Notes σ ο τ Ans γ) (exec : (o : ο) → σ → Res o × σ)
  (ends : (t : τ) → Ans t → σ → Bool) (envStep : ι → Option τ → σ → Option σ)

def step (x : System (σ × γ) ο Res τ Ans ε α) (l : Label τ Ans ι) :
    Option (System (σ × γ) ο Res τ Ans ε α) :=
  (AsyncProgram.step exec ends envStep x.plain l).map fun y => ⟨(y.shared, n.noted x l), y.prog⟩

variable {n exec ends envStep} {x y : System (σ × γ) ο Res τ Ans ε α} {l : Label τ Ans ι}

theorem step_plain (h : n.step exec ends envStep x l = some y) :
    AsyncProgram.step exec ends envStep x.plain l = some y.plain := by
  obtain ⟨z, hz, rfl⟩ := Option.map_eq_some_iff.mp h
  exact hz

theorem step_cases (h : n.step exec ends envStep x l = some y) :
    (∃ o k, l = .tick ∧ x.prog = .op o k ∧
      y = ⟨(n.apply exec o x.shared).2, k (n.apply exec o x.shared).1⟩) ∨
    (∃ answers t k, l = .resume answers ∧ x.prog = .await t k ∧
      ends t (answers t) x.shared.1 = true ∧
      y = ⟨(x.shared.1, n.heard t (answers t) x.shared.2), k (answers t)⟩) ∨
    (∃ i stands s, l = .env i ∧ x.prog.stand = some stands ∧
      envStep i stands x.shared.1 = some s ∧ y = ⟨(s, x.shared.2), x.prog⟩) := by
  obtain ⟨z, hz, rfl⟩ := Option.map_eq_some_iff.mp h
  obtain ⟨⟨s, g⟩, p⟩ := x
  rcases AsyncProgram.step_cases hz with ⟨o, k, rfl, hProg, rfl⟩ |
    ⟨answers, t, k, rfl, hProg, hEnds, rfl⟩ | ⟨i, stands, s', rfl, hStand, hEnv, rfl⟩
  · change p = _ at hProg
    subst hProg
    exact .inl ⟨o, k, rfl, rfl, rfl⟩
  · change p = _ at hProg
    subst hProg
    exact .inr (.inl ⟨answers, t, k, rfl, rfl, hEnds, rfl⟩)
  · exact .inr (.inr ⟨i, stands, s', rfl, hStand, hEnv, rfl⟩)

theorem meets_step {c : Contract (σ × γ) ο τ Ans} {Q : Except ε α → σ × γ → Prop}
    (h : Meets c (n.apply exec) x.prog x.shared Q) (hs : n.step exec ends envStep x l = some y)
    (hAllowed : ∀ o, l = .tick → x.prog.due = some o → c.allowed o x.shared)
    (hResume : ∀ answers t, l = .resume answers → x.prog.stand = some (some t) →
      ends t (answers t) x.shared.1 = true →
      c.rely t x.shared (answers t) (x.shared.1, n.heard t (answers t) x.shared.2))
    (hEnv : ∀ i stands s, l = .env i → x.prog.stand = some stands →
      envStep i stands x.shared.1 = some s →
      (∀ t, stands = some t → ∀ a s', c.rely t (s, x.shared.2) a s' → c.rely t x.shared a s') ∧
        (stands = none → ∀ r, Q r x.shared → Q r (s, x.shared.2))) :
    Meets c (n.apply exec) y.prog y.shared Q := by
  obtain ⟨s, p⟩ := x
  rcases step_cases hs with ⟨o, k, rfl, rfl, rfl⟩ | ⟨answers, t, k, rfl, rfl, hEnds, rfl⟩ |
    ⟨i, stands, s', rfl, hStand, hEnvStep, rfl⟩
  · exact (h (hAllowed o rfl rfl)).2
  · exact h _ _ (hResume answers t rfl rfl hEnds)
  · obtain ⟨hWait, hDone⟩ := hEnv i stands s' rfl hStand hEnvStep
    cases p with
    | done a => exact hDone (Option.some.inj hStand).symm _ h
    | throw e => exact hDone (Option.some.inj hStand).symm _ h
    | op o k => cases hStand
    | await t k =>
      exact fun a s'' hRely => h a s'' (hWait t (Option.some.inj hStand).symm a s'' hRely)

end Notes

end AsyncProgram
