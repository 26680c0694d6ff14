import Mathlib.Logic.Basic

/-! # Programs that wait

A program works on a shared state: it applies operations to it, each of which gives a
result, throws, and waits for answers from outside. Between two waits it has the state to
itself; while it waits, the environment may change the state. A contract says what an
operation needs, what may be assumed of it, and which answers and changes a wait may
bring; that a program meets a contract is defined by recursion on the program, and
composes along sequencing and error handling. So does that it heeds an etiquette, which
says of the waits what they are begun in.

An error that a program throws is its own, or comes with a result of an operation or an answer
of a wait. Which errors are its own is seen from the program alone; what is true of the others
when they come stays true, if every operation and every wait keeps it.
-/

universe u

inductive Prog (ο : Type u) (Res : ο → Type u) (τ : Type u) (Ans : τ → Type u) (ε α : Type u)
  | done (a : α)
  | throw (e : ε)
  | op (o : ο) (k : Res o → Prog ο Res τ Ans ε α)
  | await (t : τ) (k : Ans t → Prog ο Res τ Ans ε α)

namespace Prog

variable {ο τ ε α β : Type u} {Res : ο → Type u} {Ans : τ → Type u}

def bind : Prog ο Res τ Ans ε α → (α → Prog ο Res τ Ans ε β) → Prog ο Res τ Ans ε β
  | done a, f => f a
  | throw e, _ => throw e
  | op o k, f => op o fun r => (k r).bind f
  | await t k, f => await t fun a => (k a).bind f

def tryCatch : Prog ο Res τ Ans ε α → (ε → Prog ο Res τ Ans ε α) → Prog ο Res τ Ans ε α
  | done a, _ => done a
  | throw e, h => h e
  | op o k, h => op o fun r => (k r).tryCatch h
  | await t k, h => await t fun a => (k a).tryCatch h

instance : Monad (Prog ο Res τ Ans ε) where
  pure := done
  bind := bind

def due : Prog ο Res τ Ans ε α → Option ο
  | op o _ => some o
  | _ => none

def stand : Prog ο Res τ Ans ε α → Option (Option τ)
  | done _ => some none
  | throw _ => some none
  | op _ _ => none
  | await t _ => some (some t)

/-- Every operation meets `P` and every wait meets `R`, whatever they bring. -/
def All (P : ο → Prop) (R : τ → Prop) : Prog ο Res τ Ans ε α → Prop
  | done _ => True
  | throw _ => True
  | op o k => P o ∧ ∀ r, (k r).All P R
  | await t k => R t ∧ ∀ a, (k a).All P R

section All

variable {P P' : ο → Prop} {R R' : τ → Prop} {p : Prog ο Res τ Ans ε α}

theorem All.mono (h : p.All P R) (hP : ∀ o, P o → P' o) (hR : ∀ t, R t → R' t) :
    p.All P' R' := by
  induction p with
  | done a => trivial
  | throw e => trivial
  | op o k ih => exact ⟨hP o h.1, fun r => ih r (h.2 r)⟩
  | await t k ih => exact ⟨hR t h.1, fun a => ih a (h.2 a)⟩

theorem All.bind {f : α → Prog ο Res τ Ans ε β} (h : p.All P R) (hf : ∀ a, (f a).All P R) :
    (p >>= f).All P R := by
  induction p with
  | done a => exact hf a
  | throw e => trivial
  | op o k ih => exact ⟨h.1, fun r => ih r (h.2 r)⟩
  | await t k ih => exact ⟨h.1, fun a => ih a (h.2 a)⟩

theorem All.tryCatch {g : ε → Prog ο Res τ Ans ε α} (h : p.All P R) (hg : ∀ e, (g e).All P R) :
    (p.tryCatch g).All P R := by
  induction p with
  | done a => trivial
  | throw e => exact hg e
  | op o k ih => exact ⟨h.1, fun r => ih r (h.2 r)⟩
  | await t k ih => exact ⟨h.1, fun a => ih a (h.2 a)⟩

end All

end Prog

namespace AsyncProgram

open Prog

variable {σ ο τ ε α β ι : Type u} {Res : ο → Type u} {Ans : τ → Type u}

structure Contract (σ ο τ : Type u) (Ans : τ → Type u) where
  /-- What an operation needs of the state it is applied to. -/
  safe : ο → σ → Prop
  /-- What may be assumed when an operation is due. -/
  allowed : ο → σ → Prop
  /-- A wait begun in the first state may end with this answer in the second. -/
  rely : (t : τ) → σ → Ans t → σ → Prop

variable (c : Contract σ ο τ Ans) (exec : (o : ο) → σ → Res o × σ)

/-- Started in `s`, the program is safe and each result it comes to meets `Q`. -/
def Meets : Prog ο Res τ Ans ε α → σ → (Except ε α → σ → Prop) → Prop
  | .done a, s, Q => Q (.ok a) s
  | .throw e, s, Q => Q (.error e) s
  | .op o k, s, Q =>
    c.allowed o s → c.safe o s ∧ Meets (k (exec o s).1) (exec o s).2 Q
  | .await t k, s, Q => ∀ a s', c.rely t s a s' → Meets (k a) s' Q

section Rules

variable {c exec} {p : Prog ο Res τ Ans ε α} {s : σ} {Q Q' : Except ε α → σ → Prop}

theorem Meets.mono (h : Meets c exec p s Q) (hQ : ∀ r s, Q r s → Q' r s) :
    Meets c exec p s Q' := by
  induction p generalizing s with
  | done a => exact hQ _ _ h
  | throw e => exact hQ _ _ h
  | op o k ih => exact fun hAllowed => ⟨(h hAllowed).1, ih _ (h hAllowed).2⟩
  | await t k ih => exact fun a s' hRely => ih a (h a s' hRely)

theorem Meets.bind {f : α → Prog ο Res τ Ans ε β} {Q : Except ε β → σ → Prop}
    (h : Meets c exec p s fun r s => match r with
      | .ok a => Meets c exec (f a) s Q
      | .error e => Q (.error e) s) : Meets c exec (p >>= f) s Q := by
  induction p generalizing s with
  | done a => exact h
  | throw e => exact h
  | op o k ih => exact fun hAllowed => ⟨(h hAllowed).1, ih _ (h hAllowed).2⟩
  | await t k ih => exact fun a s' hRely => ih a (h a s' hRely)

theorem Meets.tryCatch {g : ε → Prog ο Res τ Ans ε α}
    (h : Meets c exec p s fun r s => match r with
      | .ok a => Q (.ok a) s
      | .error e => Meets c exec (g e) s Q) : Meets c exec (p.tryCatch g) s Q := by
  induction p generalizing s with
  | done a => exact h
  | throw e => exact h
  | op o k ih => exact fun hAllowed => ⟨(h hAllowed).1, ih _ (h hAllowed).2⟩
  | await t k ih => exact fun a s' hRely => ih a (h a s' hRely)

/-- A program whose operations and waits all keep `I` comes to its results in `I`. -/
theorem Meets.of_all {P : ο → Prop} {R : τ → Prop} {I : σ → Prop} (h : p.All P R) (hI : I s)
    (hOp : ∀ o s, P o → I s → c.allowed o s → c.safe o s ∧ I (exec o s).2)
    (hAwait : ∀ t s a s', R t → I s → c.rely t s a s' → I s')
    (hQ : ∀ r s, I s → Q r s) : Meets c exec p s Q := by
  induction p generalizing s with
  | done a => exact hQ _ _ hI
  | throw e => exact hQ _ _ hI
  | op o k ih =>
    exact fun hAllowed =>
      ⟨(hOp o s h.1 hI hAllowed).1, ih _ (h.2 _) (hOp o s h.1 hI hAllowed).2⟩
  | await t k ih =>
    exact fun a s' hRely => ih a (h.2 a) (hAwait t s a s' h.1 hI hRely)

end Rules

structure Etiquette (σ τ : Type u) (Ans : τ → Type u) where
  /-- What a wait is begun in. -/
  begun : τ → σ → Prop
  /-- A wait begun in the first state may end with this answer in the second. -/
  rely : (t : τ) → σ → Ans t → σ → Prop

variable (w : Etiquette σ τ Ans)

/-- Started in `s`, the program begins its waits by the rules and each result it comes to meets
`Q`. -/
def Heeds : Prog ο Res τ Ans ε α → σ → (Except ε α → σ → Prop) → Prop
  | .done a, s, Q => Q (.ok a) s
  | .throw e, s, Q => Q (.error e) s
  | .op o k, s, Q => Heeds (k (exec o s).1) (exec o s).2 Q
  | .await t k, s, Q => w.begun t s ∧ ∀ a s', w.rely t s a s' → Heeds (k a) s' Q

section HeedsRules

variable {w exec} {p : Prog ο Res τ Ans ε α} {s : σ} {Q Q' : Except ε α → σ → Prop}

theorem Heeds.mono (h : Heeds exec w p s Q) (hQ : ∀ r s, Q r s → Q' r s) :
    Heeds exec w p s Q' := by
  induction p generalizing s with
  | done a => exact hQ _ _ h
  | throw e => exact hQ _ _ h
  | op o k ih => exact ih _ h
  | await t k ih => exact ⟨h.1, fun a s' hRely => ih a (h.2 a s' hRely)⟩

theorem Heeds.bind {f : α → Prog ο Res τ Ans ε β} {Q : Except ε β → σ → Prop}
    (h : Heeds exec w p s fun r s => match r with
      | .ok a => Heeds exec w (f a) s Q
      | .error e => Q (.error e) s) : Heeds exec w (p >>= f) s Q := by
  induction p generalizing s with
  | done a => exact h
  | throw e => exact h
  | op o k ih => exact ih _ h
  | await t k ih => exact ⟨h.1, fun a s' hRely => ih a (h.2 a s' hRely)⟩

theorem Heeds.tryCatch {g : ε → Prog ο Res τ Ans ε α}
    (h : Heeds exec w p s fun r s => match r with
      | .ok a => Q (.ok a) s
      | .error e => Heeds exec w (g e) s Q) : Heeds exec w (p.tryCatch g) s Q := by
  induction p generalizing s with
  | done a => exact h
  | throw e => exact h
  | op o k ih => exact ih _ h
  | await t k ih => exact ⟨h.1, fun a s' hRely => ih a (h.2 a s' hRely)⟩

/-- A program whose operations and waits all keep `I`, and whose waits may be begun in `I`. -/
theorem Heeds.of_all {P : ο → Prop} {R : τ → Prop} {I : σ → Prop} (h : p.All P R) (hI : I s)
    (hOp : ∀ o s, P o → I s → I (exec o s).2) (hBegun : ∀ t s, R t → I s → w.begun t s)
    (hAwait : ∀ t s a s', I s → w.rely t s a s' → I s') (hQ : ∀ r s, I s → Q r s) :
    Heeds exec w p s Q := by
  induction p generalizing s with
  | done a => exact hQ _ _ hI
  | throw e => exact hQ _ _ hI
  | op o k ih => exact ih _ (h.2 _) (hOp o s h.1 hI)
  | await t k ih =>
    exact ⟨hBegun t s h.1 hI, fun a s' hRely => ih a (h.2 a) (hAwait t s a s' hI hRely)⟩

end HeedsRules

structure System (σ ο : Type u) (Res : ο → Type u) (τ : Type u) (Ans : τ → Type u) (ε α : Type u)
    where
  shared : σ
  prog : Prog ο Res τ Ans ε α

inductive Label (τ : Type u) (Ans : τ → Type u) (ι : Type u)
  /-- The operation that is due is applied. -/
  | tick
  /-- The wait of the program ends. -/
  | resume (answers : (t : τ) → Ans t)
  /-- The environment acts while no operation is due. -/
  | env (i : ι)

variable (ends : (t : τ) → Ans t → σ → Bool) (envStep : ι → Option τ → σ → Option σ)

def step (x : System σ ο Res τ Ans ε α) : Label τ Ans ι → Option (System σ ο Res τ Ans ε α)
  | .tick =>
    match x.prog with
    | .op o k => some ⟨(exec o x.shared).2, k (exec o x.shared).1⟩
    | _ => none
  | .resume answers =>
    match x.prog with
    | .await t k => if ends t (answers t) x.shared then some ⟨x.shared, k (answers t)⟩ else none
    | _ => none
  | .env i =>
    match x.prog.stand with
    | some stands => (envStep i stands x.shared).map fun s => ⟨s, x.prog⟩
    | none => none

section Steps

variable {c exec ends envStep} {x y : System σ ο Res τ Ans ε α} {l : Label τ Ans ι}
  {Q : Except ε α → σ → Prop}

/-- What a step does: it applies the operation that is due, or ends the wait, or the environment
acts where the program stands. -/
theorem step_cases (h : step exec ends envStep x l = some y) :
    (∃ o k, l = .tick ∧ x.prog = .op o k ∧
      y = ⟨(exec o x.shared).2, k (exec o x.shared).1⟩) ∨
    (∃ answers t k, l = .resume answers ∧ x.prog = .await t k ∧
      ends t (answers t) x.shared = true ∧ y = ⟨x.shared, k (answers t)⟩) ∨
    (∃ i stands s, l = .env i ∧ x.prog.stand = some stands ∧
      envStep i stands x.shared = some s ∧ y = ⟨s, x.prog⟩) := by
  obtain ⟨s, p⟩ := x
  cases l with
  | tick =>
    cases p with
    | op o k => exact .inl ⟨o, k, rfl, rfl, (Option.some.inj h).symm⟩
    | _ => cases h
  | resume answers =>
    cases p with
    | await t k =>
      simp only [step] at h
      split at h
      · rename_i hEnds
        exact .inr (.inl ⟨answers, t, k, rfl, rfl, hEnds, (Option.some.inj h).symm⟩)
      · cases h
    | _ => cases h
  | env i =>
    simp only [step] at h
    split at h
    · rename_i stands hStand
      obtain ⟨s', hs', rfl⟩ := Option.map_eq_some_iff.mp h
      exact .inr (.inr ⟨i, stands, s', rfl, hStand, hs', rfl⟩)
    · cases h

/-- The contract is kept by a step whose operation is allowed, whose answer the contract
provides for, and whose environment action it survives. -/
theorem Meets.step (h : Meets c exec x.prog x.shared Q)
    (hs : step exec ends envStep x l = some y)
    (hAllowed : ∀ o, l = .tick → x.prog.due = some o → c.allowed o x.shared)
    (hResume : ∀ answers t, l = .resume answers → x.prog.stand = some (some t) →
      ends t (answers t) x.shared = true → c.rely t x.shared (answers t) x.shared)
    (hEnv : ∀ i stands s, l = .env i → x.prog.stand = some stands →
      envStep i stands x.shared = some s →
      (∀ t, stands = some t → ∀ a s', c.rely t s a s' → c.rely t x.shared a s') ∧
        (stands = none → ∀ r, Q r x.shared → Q r s)) :
    Meets c exec y.prog y.shared Q := by
  obtain ⟨s, p⟩ := x
  rcases step_cases hs with ⟨o, k, rfl, rfl, rfl⟩ | ⟨answers, t, k, rfl, rfl, hEnds, rfl⟩ |
    ⟨i, stands, s', rfl, hStand, hEnvStep, rfl⟩
  · exact (h (hAllowed o rfl rfl)).2
  · exact h _ s (hResume answers t rfl rfl hEnds)
  · obtain ⟨hWait, hDone⟩ := hEnv i stands s' rfl hStand hEnvStep
    cases p with
    | done a => exact hDone (Option.some.inj hStand).symm _ h
    | throw e => exact hDone (Option.some.inj hStand).symm _ h
    | op o k => cases hStand
    | await t k =>
      exact fun a s'' hRely => h a s'' (hWait t (Option.some.inj hStand).symm a s'' hRely)

/-- The rules are kept by a step whose answer they provide for, and whose environment action the
wait survives. -/
theorem Heeds.step {w : Etiquette σ τ Ans} (h : Heeds exec w x.prog x.shared Q)
    (hs : step exec ends envStep x l = some y)
    (hResume : ∀ answers t, l = .resume answers → x.prog.stand = some (some t) →
      ends t (answers t) x.shared = true → w.rely t x.shared (answers t) x.shared)
    (hEnv : ∀ i stands s, l = .env i → x.prog.stand = some stands →
      envStep i stands x.shared = some s →
      (∀ t, stands = some t → (w.begun t x.shared → w.begun t s) ∧
        ∀ a s', w.rely t s a s' → w.rely t x.shared a s') ∧
        (stands = none → ∀ r, Q r x.shared → Q r s)) :
    Heeds exec w y.prog y.shared Q := by
  obtain ⟨s, p⟩ := x
  rcases step_cases hs with ⟨o, k, rfl, rfl, rfl⟩ | ⟨answers, t, k, rfl, rfl, hEnds, rfl⟩ |
    ⟨i, stands, s', rfl, hStand, hEnvStep, rfl⟩
  · exact h
  · exact h.2 _ s (hResume answers t rfl rfl hEnds)
  · obtain ⟨hWait, hDone⟩ := hEnv i stands s' rfl hStand hEnvStep
    cases p with
    | done a => exact hDone (Option.some.inj hStand).symm _ h
    | throw e => exact hDone (Option.some.inj hStand).symm _ h
    | op o k => cases hStand
    | await t k =>
      obtain ⟨hBegun, hRely⟩ := hWait t (Option.some.inj hStand).symm
      exact ⟨hBegun h.1, fun a s'' hAnswer => h.2 a s'' (hRely a s'' hAnswer)⟩

theorem Heeds.begun {w : Etiquette σ τ Ans} {t : τ} (h : Heeds exec w x.prog x.shared Q)
    (hStand : x.prog.stand = some (some t)) : w.begun t x.shared := by
  obtain ⟨s, p⟩ := x
  cases p with
  | await t' k =>
    cases hStand
    exact h.1
  | _ => cases hStand

theorem Heeds.ended {w : Etiquette σ τ Ans} (h : Heeds exec w x.prog x.shared Q)
    (hEnd : x.prog.stand = some none) : ∃ r, Q r x.shared := by
  obtain ⟨s, p⟩ := x
  cases p with
  | done a => exact ⟨_, h⟩
  | throw e => exact ⟨_, h⟩
  | _ => cases hEnd

theorem Meets.safe {o : ο} (h : Meets c exec x.prog x.shared Q) (hDue : x.prog.due = some o)
    (hAllowed : c.allowed o x.shared) : c.safe o x.shared := by
  obtain ⟨s, p⟩ := x
  cases p with
  | op o' k =>
    cases hDue
    exact (h hAllowed).1
  | _ => cases hDue

/-- At its end a program that meets its contract has a result that meets `Q`. -/
theorem Meets.ended (h : Meets c exec x.prog x.shared Q) (hEnd : x.prog.stand = some none) :
    ∃ r, Q r x.shared := by
  obtain ⟨s, p⟩ := x
  cases p with
  | done a => exact ⟨_, h⟩
  | throw e => exact ⟨_, h⟩
  | _ => cases hEnd

end Steps

end AsyncProgram

/-- What a program is made of: its operations with the results they may give, its waits, and the
errors that the answers of a wait bring. -/
structure Manner (ο : Type u) (Res : ο → Type u) (τ : Type u) (Ans : τ → Type u) (ε : Type u) where
  applies : ο → Prop
  gives : (o : ο) → Res o → Prop
  awaits : τ → Prop
  fails : (t : τ) → Ans t → Option ε

namespace Prog

variable {ο τ ε α β : Type u} {Res : ο → Type u} {Ans : τ → Type u}

/-- The program is made so, and throws errors of `E` and errors that were answered. -/
def Bears (m : Manner ο Res τ Ans ε) : Prog ο Res τ Ans ε α → (ε → Prop) → Prop
  | done _, _ => True
  | throw e, E => E e
  | op o k, E => m.applies o ∧ ∀ r, m.gives o r → (k r).Bears m E
  | await t k, E => m.awaits t ∧ ∀ a, (k a).Bears m fun e => E e ∨ m.fails t a = some e

variable {m : Manner ο Res τ Ans ε} {p : Prog ο Res τ Ans ε α} {E E' : ε → Prop}

theorem Bears.mono (h : p.Bears m E) (hE : ∀ e, E e → E' e) : p.Bears m E' := by
  induction p generalizing E E' with
  | done a => trivial
  | throw e => exact hE e h
  | op o k ih => exact ⟨h.1, fun r hr => ih r (h.2 r hr) hE⟩
  | await t k ih => exact ⟨h.1, fun a => ih a (h.2 a) fun e => Or.imp_left (hE e)⟩

theorem Bears.bind {f : α → Prog ο Res τ Ans ε β} (h : p.Bears m E)
    (hf : ∀ a, (f a).Bears m E) : (p >>= f).Bears m E := by
  induction p generalizing E with
  | done a => exact hf a
  | throw e => exact h
  | op o k ih => exact ⟨h.1, fun r hr => ih r (h.2 r hr) hf⟩
  | await t k ih => exact ⟨h.1, fun a => ih a (h.2 a) fun b => (hf b).mono fun _ => .inl⟩

theorem Bears.tryCatch {g : ε → Prog ο Res τ Ans ε α} (h : p.Bears m E)
    (hg : ∀ e, (g e).Bears m E) : (p.tryCatch g).Bears m E := by
  induction p generalizing E with
  | done a => trivial
  | throw e => exact hg e
  | op o k ih => exact ⟨h.1, fun r hr => ih r (h.2 r hr) hg⟩
  | await t k ih => exact ⟨h.1, fun a => ih a (h.2 a) fun e => (hg e).mono fun _ => .inl⟩

end Prog

namespace AsyncProgram

open Prog

variable {σ ο τ ε α : Type u} {Res : ο → Type u} {Ans : τ → Type u}
  {c : Contract σ ο τ Ans} {exec : (o : ο) → σ → Res o × σ} {m : Manner ο Res τ Ans ε}
  {p : Prog ο Res τ Ans ε α} {s : σ} {E : ε → Prop} {Q : Except ε α → σ → Prop}

/-- A program comes to its results in `I`, and what `F` says of an error when it comes is true of
it when it is thrown. -/
theorem Meets.of_bears {I : σ → Prop} {F : ε → σ → Prop} (h : p.Bears m E) (hI : I s)
    (hE : ∀ e, E e → F e s)
    (hOp : ∀ o s, m.applies o → I s → c.allowed o s →
      c.safe o s ∧ I (exec o s).2 ∧ m.gives o (exec o s).1 ∧ ∀ e, F e s → F e (exec o s).2)
    (hAwait : ∀ t s a s', m.awaits t → I s → c.rely t s a s' →
      I s' ∧ (∀ e, F e s → F e s') ∧ ∀ e, m.fails t a = some e → F e s')
    (hDone : ∀ a s, I s → Q (.ok a) s) (hThrown : ∀ e s, I s → F e s → Q (.error e) s) :
    Meets c exec p s Q := by
  induction p generalizing s E with
  | done a => exact hDone a s hI
  | throw e => exact hThrown e s hI (hE e h)
  | op o k ih =>
    intro hAllowed
    obtain ⟨hSafe, hKept, hGives, hFailing⟩ := hOp o s h.1 hI hAllowed
    exact ⟨hSafe, ih _ (h.2 _ hGives) hKept fun e he => hFailing e (hE e he)⟩
  | await t k ih =>
    intro a s' hRely
    obtain ⟨hKept, hOld, hNew⟩ := hAwait t s a s' h.1 hI hRely
    exact ih a (h.2 a) hKept fun e he => he.elim (fun he => hOld e (hE e he)) (hNew e)

end AsyncProgram
