import OrchestraAI.Core.FailoverRules

/-! # The calls of a step and the models that failed

A call goes to the current model, or to the one that was current before another was chosen; it
comes to the model's answer or to its failure. In the tools of a step a failure ends the run.
-/

namespace OrchestraAI.Core

open AsyncProgram

variable {c : Settings} {x y z : Scene × Failures} {b : Bool}

namespace Loop

open Prog

variable {α β : Type} {id : ModelId} {Q : Except LoopError β → Scene × Failures → Prop}
  {J K : Scene × Failures → Prop}

/-- The model to be called is the current one, or was it before another one was chosen. -/
structure Aimed (c : Settings) (b : Bool) (m : Option ModelId) (x : Scene × Failures) : Prop
    extends Firm c b x where
  target : Callable x.2 m
  current : x.1.data.currentModel = m ∨ ∃ id, x.1.data.currentModel = some id ∧ id ∉ x.2.failed

structure Called (c : Settings) (b : Bool) (m : Option ModelId) (x : Scene × Failures) : Prop
    extends Sober c b x where
  noted : Noted x
  request : x.2.request = m
  settled : x.2.pending = false
  idle : x.2.retrying = false
  allowed : ∀ id ∈ m, id ∉ x.2.refused
  current : ∀ id ∈ x.1.data.currentModel, id ∈ x.2.failed →
    id ∉ x.2.refused ∧ (id ∈ x.2.recovered ∨ some id = m)

/-- The provider has failed for the current model, and another one is to be tried. The model that
has failed is not noted as tried yet. -/
structure Struck (c : Settings) (b : Bool) (e : LoopError) (x : Scene × Failures) : Prop
    extends Sober c b x where
  noted : ∀ id ∈ x.2.failed, id ∈ x.1.data.triedModels ∨ id ∈ x.1.data.currentModel
  eligible : e.failoverEligible = true
  pending : x.2.pending = true
  failed : ∀ id ∈ x.1.data.currentModel, id ∈ x.2.failed
  named : ∀ id ∈ x.1.data.currentModel, id ∈ x.2.refused →
    e.code = some "model_unavailable" ∨ e.unresolved
  first : b = true → x.1.untried c x.2.failed = []
  fits : e.code ≠ some "context_exhausted"
  resolved : e.unresolved → x.1.untried c x.2.failed ≠ [] ∨ c.maxRetries ≤ x.1.data.retries

def Failing (c : Settings) (b : Bool) (e : LoopError) (x : Scene × Failures) : Prop :=
  Loose c b x ∧ Tolerable c e x ∨ Struck c b e x

theorem lasting_called {m : Option ModelId} : Lasting c (Called c b m) := by
  intro x y h hNear
  have hNotes := hNear.notes
  refine ⟨h.toSober.near hNear, h.noted.near hNear, ?_, ?_, ?_, ?_, ?_⟩
  · rw [hNotes]
    exact h.request
  · rw [hNotes]
    exact h.settled
  · rw [hNotes]
    exact h.idle
  · rw [hNotes]
    exact h.allowed
  · rw [hNotes]
    intro id hId hFailed
    obtain hSame | ⟨-, id', hOther, hNot⟩ := hNear.current
    · rw [hSame] at hId
      exact h.current id hId hFailed
    · rw [hOther] at hId
      cases hId
      exact absurd hFailed hNot

theorem Aimed.permitted {m : Option ModelId} (h : Aimed c b m x) {step : Nat}
    (hFair : FairOp (.call (.model step m)) x) : Permitted c (.call (.model step m)) x := by
  refine ⟨fun id hId => ⟨fun hRefused => ?_, fun hFailed => ?_⟩, h.pending⟩
  · exact (h.target id hId (h.refused hRefused)).1 hRefused
  · have hRetrying : x.2.retrying = true :=
      (h.target id hId hFailed).2.resolve_left (hFair id hId hFailed)
    exact ⟨hRetrying, h.retrying hRetrying⟩

theorem Aimed.called {m : Option ModelId} (h : Aimed c b m x) (step : Nat) :
    Called c b m ((failures c).apply Scene.exec (.call (.model step m)) x).2 := by
  refine ⟨⟨h.continued, h.few, h.refused, fun hRetrying => by cases hRetrying⟩, h.noted, rfl, rfl, rfl,
    fun id hId hRefused => (h.target id hId (h.refused hRefused)).1 hRefused,
    fun id hId hFailed => ⟨(h.callable id hId hFailed).1, .inr ?_⟩⟩
  have hId : id ∈ x.1.data.currentModel := hId
  obtain hSame | ⟨id', hOther, hNot⟩ := h.current
  · rw [← hSame]
    exact hId.symm
  · rw [hOther] at hId
    cases hId
    exact absurd hFailed hNot

theorem Called.loose {m : Option ModelId} (h : Called c b m x) : Loose c b x :=
  ⟨h.toSober, h.noted, fun hPending => by rw [h.settled] at hPending; cases hPending⟩

theorem Called.failing {m : Option ModelId} {t : Wait} {a : t.Ans} {e : LoopError}
    (h : Called c b m x) (hPasses : Passes c t x a y) (hFails : t.failure a = some e)
    (hNotes : y.2 = if e.failoverEligible = true then x.2.struck e else x.2) : Failing c b e y := by
  have hCalled : Called c b m (y.1, x.2) := lasting_called _ _ h hPasses.near
  by_cases hEligible : e.failoverEligible = true
  · have hFair := (hPasses.fair.strikes e hFails hEligible).2
    rw [if_pos hEligible] at hNotes
    have hCurrent : y.1.data.currentModel = x.2.request := hFair.same.symm
    have hFailed : ∀ id ∈ y.1.data.currentModel, id ∈ x.2.request.toList := fun id hId => by
      rw [hCurrent] at hId
      exact Option.mem_toList.mpr hId
    refine .inr ⟨⟨?_, ?_, ?_, ?_⟩, ?_, hEligible, by rw [hNotes]; rfl, ?_, ?_, ?_, hFair.fits, ?_⟩
    · rw [hNotes]
      exact hCalled.continued
    · rw [hNotes]
      exact hCalled.few
    · rw [hNotes]
      intro id hId
      change id ∈ x.2.failed ++ x.2.request.toList
      change id ∈ (if _ then _ else _) at hId
      split at hId
      · exact List.mem_append.mpr ((List.mem_append.mp hId).imp_left (h.refused ·))
      · exact List.mem_append_left _ (h.refused hId)
    · rw [hNotes]
      intro hRetrying
      cases hRetrying
    · rw [hNotes, hCurrent]
      intro id hId
      exact (List.mem_append.mp hId).imp (hCalled.noted id) Option.mem_toList.mp
    · rw [hNotes]
      exact fun id hId => List.mem_append_right _ (hFailed id hId)
    · rw [hNotes]
      intro id hId hRefused
      by_cases hCode : e.code = some "model_unavailable" ∨ e.code = some "model_resolution"
      · exact hCode
      · change id ∈ (if _ then _ else _) at hRefused
        rw [if_neg hCode] at hRefused
        have hCalledId : id ∈ m := by
          rw [← h.request]
          exact Option.mem_toList.mp (hFailed id hId)
        exact absurd hRefused (h.allowed id hCalledId)
    · rw [hNotes]
      exact fun hFirst => hFair.first (hCalled.continued.trans hFirst)
    · rw [hNotes]
      exact hFair.resolved
  · have hSettled := Bool.eq_false_iff.mpr hEligible
    have hExcusable := hPasses.fails hFails hSettled
    rw [if_neg hEligible] at hNotes
    have hSame : y = (y.1, x.2) := by rw [← hNotes]
    refine .inl ⟨?_, hSettled, fun hCode => hExcusable (.inr hCode)⟩
    rw [hSame]
    exact hCalled.loose

/-- What the provider leaves: an answer of the model that was called, or its failure. -/
def Answered (c : Settings) (b : Bool) (m : Option ModelId) :
    Except LoopError α → Scene × Failures → Prop
  | .ok _, y => Called c b m y
  | .error e, y => Failing c b e y

theorem Called.accounted {m : Option ModelId} (h : Called c b m x) (ms : ℚ) :
    Firm c b ((failures c).apply Scene.exec (.addLatency ms) x).2 := by
  refine ⟨⟨⟨h.continued, h.few, h.refused, h.retrying⟩, h.noted, h.loose.pending⟩,
    fun id hId hFailed => ?_⟩
  obtain ⟨hAllowed, hAnswered⟩ := h.current id hId hFailed
  refine ⟨hAllowed, .inl ?_⟩
  change id ∈ x.2.recovered ++ x.2.request.toList
  obtain hOld | hNow := hAnswered
  · exact List.mem_append_left _ hOld
  · rw [h.request]
    exact List.mem_append_right _ (Option.mem_toList.mpr hNow.symm)

def Concludes (c : Settings) (e : LoopError) (x : Scene × Failures) : Prop :=
  x.1.abort = true ∨ Excusable c e.toRunError x

def Rests (c : Settings) : Except LoopError α → Scene × Failures → Prop
  | .ok _, y => Fit c y
  | .error e, y => Concludes c e y

end Loop

end OrchestraAI.Core
