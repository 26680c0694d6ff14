import Mathlib.Data.Rat.Floor
import OrchestraAI.Core.Run
import OrchestraAI.Library.LabelledSystem
import OrchestraAI.Library.RoundedGrid
import OrchestraAI.Privacy.Ledger

/-! # What the events of a run say of its state

The status, the model and the spend of a run in `buildSnapshot` of `api/snapshot.js` and in
`applyEventToSnapshot` of `state/store.tsx`, and the operations of `core/orchestrator.js`,
`execution/controller.js` and `server.js` that change them. An operation goes from one wait of the
program to the next one. Of the events that change none of the three only the type is kept, and
not every one of them.
-/

namespace OrchestraAI.Console

open OrchestraAI.Core OrchestraAI.Privacy

inductive StreamEvent
  | taskCreated
  | taskStarted
  | planning
  | contextBuilt
  | executionStarted
  | modelSelected (modelId model : Option String)
  | modelSwitched (toModel toId : Option String)
  | costUpdated (spentUsd : Option ℚ)
  | runCompleted
  | runFailed
  | runCancelled
  | other (type : String)

structure Panels where
  status : String
  activeModelId : Option String
  spentUsd : ℚ
  deriving DecidableEq

/-- `a || b` of names. -/
def nameOr (a b : Option String) : Option String := (a.filter (· ≠ "")).or b

def applyEventToSnapshot (snap : Panels) : StreamEvent → Panels
  | .taskCreated | .taskStarted | .planning => { snap with status := "planning" }
  | .contextBuilt | .executionStarted => { snap with status := "running" }
  | .modelSelected modelId model =>
    let mid := nameOr modelId (nameOr model snap.activeModelId)
    { snap with activeModelId := nameOr mid snap.activeModelId }
  | .modelSwitched toModel toId =>
    let target := nameOr toModel (nameOr toId snap.activeModelId)
    { snap with activeModelId := nameOr target snap.activeModelId }
  | .costUpdated spentUsd => { snap with spentUsd := spentUsd.getD snap.spentUsd }
  | .runCompleted => { snap with status := "completed" }
  | .runFailed => { snap with status := "failed" }
  | .runCancelled => { snap with status := "cancelled" }
  | .other _ => snap

structure RunState where
  machine : TaskStatus
  status : TaskStatus
  currentModel : Option String
  budget : Budget
  log : List StreamEvent

def usd (amount : ℚ) : ℚ := RoundedGrid.toGrid 1000000 amount

def buildSnapshot (s : RunState) : Panels :=
  ⟨frontendStatus s.status, s.currentModel, usd s.budget.currentSpend⟩

/-- What `applySnapshotToRuntime` takes over from a checkpoint. -/
structure SavedRun where
  status : TaskStatus
  currentModel : Option String
  budget : Budget

namespace RunState

variable (s : RunState)

def emit (events : List StreamEvent) : RunState := { s with log := s.log ++ events }

/-- `none` is the error `invalid_transition`. -/
def transition (next : TaskStatus) : Option RunState :=
  if s.machine = next then some s
  else if s.machine.canTransition next then some { s with machine := next, status := next }
  else none

def attempt (next : TaskStatus) : RunState := (s.transition next).getD s

def hasModel : Bool := (s.currentModel.filter (· ≠ "")).isSome

def addCosts (amounts : List ℚ) : RunState :=
  { s with budget := amounts.foldl Budget.addCost s.budget }

/-- `_emitCost`. -/
def emitCost : RunState := s.emit [.costUpdated (some s.budget.currentSpend)]

def plan : RunState :=
  if s.budget.isBudgetExceeded then s.emit [.taskStarted, .planning]
  else ((s.emit [.taskStarted, .planning]).attempt .contextBuild).emit [.contextBuilt]

/-- `_executeRun` of a fresh run. -/
def executeFresh : RunState := ((s.transition .planning).map plan).getD s

/-- `_executeRun` with `resume`. -/
def executeResumed : RunState := (s.emit [.planning]).attempt .executing

def toObserving : Option RunState :=
  (if s.machine = .waitingForTool then s.transition .executing else some s).bind fun s =>
    s.transition .observing

def startRun : RunState := if s.status.terminal then s else s.executeFresh

/-- The transition of `continueRun` that reopens a run. -/
def reopen : RunState :=
  (s.transition .retrying).getD { s with machine := .retrying, status := .retrying }

def continueRun : RunState :=
  let s := s.emit [.other "episode.started"]
  if s.status.terminal then s.reopen.startRun else s.startRun

/-- The transition of `_retryRunInner`. -/
def retrying : RunState := (s.transition .retrying).getD { s with status := .retrying }

def retryRun : RunState :=
  let retried := s.retrying.emit [.other "execution.recovered", .other "execution.retry"]
  if s.hasModel then retried.executeResumed else retried.executeFresh

/-- The two transitions of `resumeRun`. -/
def goOn : RunState :=
  match s.machine with
  | .paused => (s.attempt .resuming).attempt .executing
  | .pausing => (s.attempt .paused).attempt .executing
  | .resuming => s.attempt .executing
  | _ => s

def routeBack : Option RunState :=
  if s.status = .observing ∨ s.status = .waitingForTool then s.transition .executing else some s

def complete : RunState :=
  if s.status.terminal then s
  else
    match s.routeBack.bind fun r => r.transition .completed with
    | none => s
    | some done => done.emit [.runCompleted]

/-- `_failRun` and `_cancelledRun`. -/
def ended (status : TaskStatus) (event : StreamEvent) : RunState :=
  if s.status.terminal then s
  else ((s.transition status).getD { s with machine := status, status := status }).emit [event]

end RunState

inductive RunOp
  /-- `createRun` announces the run. -/
  | created
  | started
  | continued
  | contextReady
  /-- `_selectModel`. -/
  | modelSelected (id : String)
  | executing
  | toolsRequested
  /-- `toolExecutor.execute`. -/
  | toolCharged (cost : ℚ)
  | toolsObserved
  | stepObserved
  /-- The answer of a provider, or of a cache for nothing. -/
  | charged (amounts : List ℚ)
  /-- `_applyModelSwitch`. -/
  | switched (cost : ℚ) (id : String)
  | pauseRequested
  /-- `_holdForPause`. -/
  | held
  | resumed
  | completed
  | failed
  | cancelled
  | retryRefused
  /-- `recover` goes back to a checkpoint. -/
  | restored (saved : SavedRun)
  | retried
  /-- The server shuts down. -/
  | interrupted
  | noted (type : String)

def RunState.after (s : RunState) : RunOp → RunState
  | .created => s.emit [.taskCreated]
  | .started => s.startRun
  | .continued => s.continueRun
  | .contextReady => (s.emit [.contextBuilt]).attempt .modelSelect
  | .modelSelected id =>
    { s with currentModel := some id }.emit
      [.modelSelected (some id) none, .other "routing.evaluated"]
  | .executing => s.attempt .executing
  | .toolsRequested =>
    match s.transition .waitingForTool with
    | none => s
    | some t => t.emit [.other "tool.selected"]
  | .toolCharged cost => (s.emit [.other "tool.completed"]).addCosts [cost]
  | .toolsObserved =>
    match s.toObserving with
    | none => s
    | some t => (t.emit [.other "execution.step_completed"]).attempt .executing
  | .stepObserved =>
    match s.toObserving with
    | none => s
    | some t => t.emit [.other "response.done"]
  | .charged amounts => ((s.addCosts amounts).emit [.other "model.call_completed"]).emitCost
  | .switched cost id =>
    ({ s.addCosts [cost] with currentModel := some id }.emit
      [.modelSwitched (some id) (some id)]).emitCost
  | .pauseRequested => (s.attempt .pausing).emit [.other "execution.paused"]
  | .held => (s.attempt .paused).emit [.other "execution.paused"]
  | .resumed => s.goOn.emit [.other "execution.resumed"]
  | .completed => s.complete
  | .failed => s.ended .failed .runFailed
  | .cancelled => s.ended .cancelled .runCancelled
  | .retryRefused =>
    if s.status = .failed ∧ s.budget.isBudgetExceeded then s.emit [.runFailed] else s
  | .restored saved =>
    { s with status := saved.status, currentModel := saved.currentModel, budget := saved.budget }
  | .retried => s.retryRun
  | .interrupted => if s.status.terminal then s else { s with status := .failed }
  | .noted type => s.emit [.other type]

def runStep (s : RunState) (op : RunOp) : Option RunState := some (s.after op)

/-- The events between two states, applied to the snapshot of the first, give that of the second. -/
def Describes (s t : RunState) : Prop :=
  (t.log.drop s.log.length).foldl applyEventToSnapshot (buildSnapshot s) = buildSnapshot t

instance (s t : RunState) : Decidable (Describes s t) := inferInstanceAs (Decidable (_ = _))

def Moves (s : RunState) (next : TaskStatus) : Prop :=
  s.machine ≠ next ∧ s.machine.canTransition next = true

def Running (s : RunState) : Prop := frontendStatus s.status = "running"

/-- A fresh run that stands in the planning already and cannot pay for a step is shown so. -/
def StartShown (s : RunState) : Prop :=
  s.machine = .planning → s.budget.isBudgetExceeded = true →
    frontendStatus s.status = "planning"

def Named (s : RunState) (id : String) : Prop := id ≠ "" ∨ s.currentModel = some ""

def OnGrid (amount : ℚ) : Prop := usd amount = amount

def Announced (s : RunState) : RunOp → Prop
  | .created => frontendStatus s.status = "planning"
  | .started => s.status.terminal = true ∨ StartShown s
  | .continued => s.status.terminal = true ∨ StartShown s
  | .contextReady => Moves s .modelSelect ∨ Running s
  | .modelSelected id => Named s id
  | .executing => Moves s .executing → Running s
  | .toolsRequested => Moves s .waitingForTool → frontendStatus s.status = "waiting"
  | .toolCharged cost => usd (s.budget.currentSpend + cost) = usd s.budget.currentSpend
  | .toolsObserved =>
    s.machine = .waitingForTool ∨ s.machine = .executing ∨ s.machine = .observing → Running s
  | .stepObserved => s.machine = .waitingForTool ∨ s.machine = .executing → Running s
  | .charged amounts => OnGrid (s.budget.currentSpend + amounts.sum)
  | .switched cost id => OnGrid (s.budget.currentSpend + cost) ∧ Named s id
  | .pauseRequested => Moves s .pausing → Running s
  | .held => Moves s .paused → Running s
  | .resumed =>
    s.machine = .paused ∨ s.machine = .pausing ∨ s.machine = .resuming → Running s
  | .restored saved =>
    frontendStatus saved.status = frontendStatus s.status ∧ saved.currentModel = s.currentModel ∧
      usd saved.budget.currentSpend = usd s.budget.currentSpend
  | .retried => s.hasModel = false ∧
      (s.machine = .retrying ∨ s.machine.canTransition .retrying = true ∨
        if s.machine = .planning then s.budget.isBudgetExceeded = false
        else s.machine = .created ∨ Running s)
  | .interrupted => s.status.terminal = true
  | .completed => s.status.terminal = true ∨ s.machine ≠ .completed ∨ s.status = .observing ∨
      s.status = .waitingForTool
  | .failed => s.status.terminal = true ∨ s.machine ≠ .failed
  | .cancelled => s.status.terminal = true ∨ s.machine ≠ .cancelled
  | .retryRefused | .noted _ => True

end OrchestraAI.Console
