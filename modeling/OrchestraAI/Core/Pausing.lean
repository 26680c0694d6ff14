import OrchestraAI.Core.Registry
import OrchestraAI.Library.LabelledSystem

/-! # Pausing and resuming

`PauseController` of `execution/plans-episodes.js`, the operations of
`execution/controller.js` that use it, and the job `run.execute` of `server.js`. The
state of a pause and the state of the machine of a run are kept apart, and a transition
that the machine rejects is swallowed here.
-/

namespace OrchestraAI.Core

inductive PauseState
  | running
  | pausing
  | paused
  | resuming
  deriving DecidableEq, Repr

namespace PauseState

def requestPause : PauseState → PauseState
  | running => pausing
  | cur => cur

def settlePause : PauseState → PauseState
  | pausing => paused
  | cur => cur

def requestResume : PauseState → PauseState
  | paused | pausing => resuming
  | cur => cur

def settleResume : PauseState → PauseState
  | resuming => running
  | cur => cur

end PauseState

/-- The registry, and the states of the pauses; a run without one is running. -/
structure ExecutionController where
  orch : Registry
  pause : RunId → PauseState

namespace ExecutionController

variable (c : Config)

def setPause (s : ExecutionController) (id : RunId) (state : PauseState) : ExecutionController :=
  { s with pause := Function.update s.pause id state }

def onOrch (s : ExecutionController) (f : Registry → Registry) : ExecutionController :=
  { s with orch := f s.orch }

/-- `orch._emit`. -/
def emit (id : RunId) (type : EventType) (s : Registry) : Registry :=
  s.write id ((s.runs id).emit (.other type))

def pauseRun (s : ExecutionController) (id : RunId) : ExecutionController :=
  let state := (s.pause id).requestPause
  let asked := s.setPause id state
  if s.orch.activeRuns.has id ∧ state = .pausing then
    asked.onOrch fun o => emit id .executionPaused (o.transition id .pausing)
  else asked

/-- The first transition of `resumeRun`. -/
def leavePause (o : Registry) (id : RunId) : Registry :=
  match (o.runs id).machine with
  | .paused => o.transition id .resuming
  | .pausing => o.transition id .paused
  | _ => o

def goOn (o : Registry) (id : RunId) : Registry :=
  match (o.runs id).machine with
  | .resuming | .paused => o.transition id .executing
  | _ => o

def resumeRun (s : ExecutionController) (id : RunId) : ExecutionController :=
  let state := (s.pause id).requestResume
  let asked := s.setPause id state
  if s.orch.activeRuns.has id ∧ state = .resuming then
    (asked.setPause id state.settleResume).onOrch fun o =>
      emit id .executionResumed (goOn (leavePause o id) id)
  else asked

/-- `_holdForPause` before its wait. -/
def holdForPause (s : ExecutionController) (id : RunId) : ExecutionController :=
  let settled := (s.pause id).settlePause
  let held := s.setPause id settled
  if settled = .paused ∧ s.orch.activeRuns.has id then
    held.onOrch fun o => emit id .executionPaused (o.transition id .paused)
  else held

/-- `startRun` throws `terminal`. -/
def startsTerminal (o : Registry) (id : RunId) : Bool :=
  o.terminalRuns.has id ||
    (o.activeRuns.has id && o.runControl.has id && (o.runs id).status.terminal)

/-- `executeRunJob` before it waits for the run. -/
def executeRunJob (o : Registry) (id : RunId) (continuing : Bool) : Registry :=
  if continuing || startsTerminal o id then o.continueRun id else o.startRun id

/-- What moves a run: the operations of the registry and the steps of the loop among them. -/
inductive Operation
  | orch (label : Registry.Label)
  | pauseRun (id : RunId)
  | resumeRun (id : RunId)
  | holdForPause (id : RunId)
  | executeRunJob (id : RunId) (continuing : Bool)

def step (s : ExecutionController) : Operation → Option ExecutionController
  | .orch label => (s.orch.step c label).map fun o => { s with orch := o }
  | .pauseRun id => some (s.pauseRun id)
  | .resumeRun id => some (s.resumeRun id)
  | .holdForPause id => some (s.holdForPause id)
  | .executeRunJob id continuing => some (s.onOrch fun o => executeRunJob o id continuing)

def Start (s : ExecutionController) : Prop :=
  s.orch.Start ∧ ∀ id, s.pause id = .running

end ExecutionController

end OrchestraAI.Core
