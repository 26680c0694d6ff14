import OrchestraAI.Core.LoopShape
import OrchestraAI.Library.AsyncProgram

/-! # The errors of the loop

Which errors the waits of the loop bring, and which parts of it throw no error of their own that
says a model cannot be resolved or asks for another one. These parts call no provider, choose no
model, and count neither a retry nor an answer.
-/

namespace OrchestraAI.Core

def errorOf {α : Type} : Except LoopError α → Option LoopError
  | .error e => some e
  | .ok _ => none

def Wait.failure : (t : Wait) → t.Ans → Option LoopError
  | .contextBuilt, a | .contextAdded, a | .cacheWritten, a | .memoryWritten, a
  | .durableWritten, a => errorOf a
  | .memorySearched, a => errorOf a
  | .promptCompiled _, a => errorOf a
  | .models, a => errorOf a
  | .model _, a => errorOf a
  | .routed _, a => errorOf a
  | .compressed _, a => errorOf a
  | .prefixInvalidated, a => errorOf a
  | .cacheRead, a => errorOf a
  | .streamed _ _ _, a => errorOf a
  | .completed _ _, a => errorOf a
  | _, _ => none

def RunError.unresolved (e : RunError) : Prop := e.code = some "model_resolution"

/-- The operations that leave the choice of the model, the retries and the calls alone. -/
def Op.tame : Op → Prop
  | .update f => ∀ d, (f d).currentModel = d.currentModel ∧ (f d).triedModels = d.triedModels ∧
      (f d).retries = d.retries
  | .call (.model ..) | .addLatency _ | .failRun _ | .startStep => False
  | .transition next => next ≠ .waitingForTool
  | _ => True

/-- An error of the loop itself that has nothing to do with its models. -/
structure LoopError.Own (e : LoopError) : Prop where
  resolved : ¬ e.unresolved
  settled : e.failoverEligible = false

theorem own_loopError {code message : String} (h : code ≠ "model_resolution") :
    (loopError code message).Own :=
  ⟨fun hSame => h (Option.some.inj hSame), rfl⟩

def Op.gives : (o : Op) → o.Res → Prop
  | .transition _, r | .toObserving, r | .completeRun _, r => ∀ e : LoopError, r = .error e → e.Own
  | _, _ => True

def Wait.quiet : Wait → Prop
  | .routed _ | .streamed .. | .completed .. => False
  | _ => True

def tame : Manner Op Op.Res Wait Wait.Ans LoopError where
  applies := Op.tame
  gives := Op.gives
  awaits := Wait.quiet
  fails := Wait.failure

theorem own_of_transition (s : Episode) (next : TaskStatus) (e : LoopError)
    (h : (s.transition next).1 = .error e) : e.Own := by
  rw [Episode.transition] at h
  split at h
  · cases h
  · cases h
    exact own_loopError (by decide)

theorem gives_exec (o : Op) (s : Episode) : o.gives (exec o s).1 := by
  cases o with
  | transition next => exact own_of_transition s next
  | toObserving =>
    intro e h
    change s.toObserving.1 = _ at h
    rw [Episode.toObserving] at h
    split at h
    · split at h
      · exact own_of_transition _ _ e h
      · exact own_of_transition s _ e h
    · exact own_of_transition s _ e h
  | completeRun summary =>
    intro e h
    change (s.completeRun summary).1 = _ at h
    rw [Episode.completeRun] at h
    split at h
    · cases h
    · split at h
      · cases h
      · cases h
        exact own_loopError (by decide)
  | _ => trivial

namespace Loop

open Prog

variable {α β : Type} {c : Settings}

/-- A part that is tame, and whose own errors have nothing to do with the models. -/
abbrev Tame (p : Loop α) : Prop := p.Bears tame LoopError.Own

end Loop

end OrchestraAI.Core
