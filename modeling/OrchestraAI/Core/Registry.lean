import Mathlib.Logic.Function.Basic
import OrchestraAI.Core.Run
import OrchestraAI.Library.OrderedMap
import OrchestraAI.Library.WorkBag

/-! # The run registry

`core/orchestrator.js`: live runs, their control records, the bounded terminal
history, and the operations that move runs between them. Runs are objects that
the maps and the pending operations share, so the maps hold ids and the objects
stand beside them. Every operation runs up to its next `await` in one step; what
waits there is a task. What the agent loop does between these points is open: it
may charge the run, mark tool effects, and move it along legal edges.
-/

namespace OrchestraAI.Core

open OrchestraAI.Recovery

abbrev RunId := Nat

structure Config where
  maxConcurrentRuns : Nat
  maxTerminalRetained : Nat

def Config.maxConcurrent (c : Config) : Nat :=
  if c.maxConcurrentRuns = 0 then 20 else c.maxConcurrentRuns

def Config.retained (c : Config) : Nat :=
  if c.maxTerminalRetained = 0 then 200 else c.maxTerminalRetained

/-- What applying a checkpoint writes of the fields modelled here. -/
structure Restored where
  status : TaskStatus
  budget : Budget
  deriving DecidableEq, Repr

/-- What `recover` finds outside the run. -/
structure RecoveryQuery where
  toolRecord : Option ToolEffect
  validation : Validation
  store : Option IdempotencyStore
  restore : Except String Restored

inductive Task
  /-- `createRun` before its tool catalogue is there. -/
  | creating (timeoutMs : Nat) (maximumCost maximumLatency : ℚ)
  | episode (id : RunId)
  /-- The loop has thrown and its `catch` is due. -/
  | failing (id : RunId) (error : RunError)
  /-- The `finally` of an episode is due. -/
  | settling (id : RunId)
  /-- `cancelRun` in its 25 ms of grace. -/
  | cancelling (id : RunId) (reason : String)
  /-- `_retryRunInner` before the answer of `recover` is there. -/
  | recovering (id : RunId) (recovery : Except String RecoveryResult)

def Task.recovers (id : RunId) : Task → Bool
  | .recovering j _ => j = id
  | _ => false

structure RunMaps where
  created : List RunId
  activeRuns : OrderedMap RunId Unit
  runControl : OrderedMap RunId Unit
  /-- The status at retirement. -/
  terminalRuns : OrderedMap RunId TaskStatus
  terminalOrder : List RunId
  /-- The ids dropped from the terminal history so far. -/
  evicted : List RunId

namespace RunMaps

def register (m : RunMaps) (id : RunId) : RunMaps :=
  { m with
    created := m.created ++ [id]
    activeRuns := m.activeRuns.set id ()
    runControl := m.runControl.set id () }

/-- The eviction loop of `_retireRun`, on the order, the history and the ids dropped so far. -/
def evict (retained : Nat) (id : RunId) :
    List RunId → OrderedMap RunId TaskStatus → List RunId →
      List RunId × OrderedMap RunId TaskStatus × List RunId
  | [], history, evicted => ([], history, evicted)
  | oldest :: order, history, evicted =>
    if retained < (oldest :: order).length then
      if history.has oldest = true ∧ oldest ≠ id then
        evict retained id order (history.delete oldest) (oldest :: evicted)
      else evict retained id order history evicted
    else (oldest :: order, history, evicted)

def retire (retained : Nat) (m : RunMaps) (id : RunId) (status : TaskStatus) : RunMaps :=
  let kept := evict retained id (m.terminalOrder ++ [id]) (m.terminalRuns.set id status) m.evicted
  { m with
    activeRuns := m.activeRuns.delete id
    runControl := m.runControl.delete id
    terminalOrder := kept.1
    terminalRuns := kept.2.1
    evicted := kept.2.2 }

def resurrect (m : RunMaps) (id : RunId) : RunMaps :=
  { m with
    terminalRuns := m.terminalRuns.delete id
    terminalOrder := m.terminalOrder.filter fun j => j ≠ id
    activeRuns := m.activeRuns.set id ()
    runControl := m.runControl.set id () }

/-- `control(runId)` finds a record. -/
def hasControl (m : RunMaps) (id : RunId) : Bool := m.runControl.has id || m.terminalRuns.has id

end RunMaps

structure Registry extends RunMaps where
  runs : RunId → Run
  tasks : List Task

namespace Registry

variable (c : Config)

def write (s : Registry) (id : RunId) (r : Run) : Registry :=
  { s with runs := Function.update s.runs id r }

def spawn (s : Registry) (task : Task) : Registry := { s with tasks := s.tasks ++ [task] }

/-- The task at `k` goes on as `ts`. -/
def serve (s : Registry) (k : Nat) (ts : List Task) : Registry :=
  { s with tasks := WorkBag.serve s.tasks k ts }

def transition (s : Registry) (id : RunId) (next : TaskStatus) : Registry :=
  if s.hasControl id then
    match (s.runs id).transition next with
    | some r => s.write id r
    | none => s
  else s

def retireRun (s : Registry) (id : RunId) : Registry :=
  if s.activeRuns.has id && s.runControl.has id then
    { s.write id (s.runs id).retire with
      toRunMaps := s.toRunMaps.retire c.retained id (s.runs id).status }
  else s

/-- A terminal run, or one that has left `activeRuns`, is not ended again. -/
def endsNothing (s : Registry) (id : RunId) : Bool :=
  (s.runs id).status.terminal || !s.activeRuns.has id

/-- `_completeRun`; `none` when a transition throws. -/
def completeRun (s : Registry) (id : RunId) (summary : Option String) : Option Registry :=
  if s.endsNothing id then some s
  else ((s.runs id).complete summary).map fun r => (s.write id r).retireRun c id

def cancelledRun (s : Registry) (id : RunId) (reason : String) : Registry :=
  if s.endsNothing id then s
  else (s.write id ((s.runs id).cancelled reason)).retireRun c id

def failRun (s : Registry) (id : RunId) (error : RunError) : Registry :=
  if s.endsNothing id then s
  else (s.write id ((s.runs id).fail error)).retireRun c id

/-- A process that is at its limit throws `busy`. -/
def createRun (s : Registry) (timeoutMs : Nat) (maximumCost maximumLatency : ℚ) : Registry :=
  if c.maxConcurrent ≤ s.activeRuns.size then s
  else s.spawn (.creating timeoutMs maximumCost maximumLatency)

/-- `createRun` once it has its catalogue, under an id that was never given before. -/
def register (s : Registry) (id : RunId) (run : Run) : Registry :=
  { s.write id run with toRunMaps := s.toRunMaps.register id }

def startRun (s : Registry) (id : RunId) : Registry :=
  let r := s.runs id
  if s.terminalRuns.has id || !s.activeRuns.has id || !s.runControl.has id || r.status.terminal ||
      r.running then s
  else (s.write id { r with running := true, abort := false }.armDeadline).spawn (.episode id)

def timeoutError (timeoutMs : Nat) : RunError :=
  ⟨some "timeout", s!"Run timed out after {timeoutMs}ms", false⟩

/-- The callback of `_armDeadline`. -/
def deadline (s : Registry) (id : RunId) : Registry :=
  let r := s.runs id
  (s.write id { r with deadlineTimer := false, abort := true }).failRun c id
    (timeoutError r.timeoutMs)

def cancelRun (s : Registry) (id : RunId) (reason : String) : Registry :=
  let r := s.runs id
  if s.terminalRuns.has id || !s.activeRuns.has id || !s.runControl.has id ||
      r.status.terminal then s
  else (s.write id { r with abort := true }.disarmDeadline).spawn (.cancelling id reason)

/-- `cancelRun` after its grace. -/
def graceElapses (s : Registry) (id : RunId) (reason : String) : Registry :=
  let s := s.cancelledRun c id reason
  s.write id { s.runs id with running := false }

/-- The `finally` of an episode. -/
def settle (s : Registry) (id : RunId) : Registry :=
  s.write id { s.runs id with running := false }.disarmDeadline

def resurrect (s : Registry) (id : RunId) : Registry :=
  { s with toRunMaps := s.toRunMaps.resurrect id }

/-- `recover`, up to the restore included, on a run that is about to be retried. -/
def evaluate (r : Run) : Except String RecoveryQuery → Except String RecoveryResult × Run
  | .error text => (.error text, r)
  | .ok query =>
    let recovery := recover query.validation query.toolRecord r.lastToolEffect query.store none
      none (query.restore.map fun _ => ())
    match query.restore with
    | .ok snapshot =>
      (.ok recovery,
        if recovery.restored then
          { r with status := snapshot.status, budget := snapshot.budget
                   currentStep := recovery.cursor.getD 0 }
        else r)
    | .error _ => (.ok recovery, r)

/-- The first part of `_retryRunInner`: a failed run leaves the history; `none` is a refusal. -/
def reviveFailed (s : Registry) (id : RunId) : Option Registry :=
  match s.terminalRuns.get id with
  | none => some s
  | some status =>
    if status ≠ .failed || (s.runs id).budget.isBudgetExceeded then none else some (s.resurrect id)

/-- `_retryRunInner` from there to the `await` of `recover`. -/
def evaluateRetry (s : Registry) (id : RunId) (query : Except String RecoveryQuery) : Registry :=
  let r := s.runs id
  if !s.activeRuns.has id || !s.runControl.has id || r.status ≠ .failed || r.running then s
  else if r.budget.isBudgetExceeded then
    s.write id (r.emit (.retryFailed "Cannot retry: budget exhausted" "budget_exceeded"))
  else
    let (recovery, restored) := evaluate (r.emit (.other .executionRecoveryStarted)) query
    (s.write id { restored with recoveryInProgress := true }).spawn (.recovering id recovery)

/-- The flag is cleared with the decision of the retry, which no `await` separates from it. -/
def retryRun (s : Registry) (id : RunId) (query : Except String RecoveryQuery) : Registry :=
  if s.hasControl id && (s.runs id).recoveryInProgress then s
  else
    match s.reviveFailed id with
    | none => s
    | some revived => revived.evaluateRetry id query

/-- `recover` threw or its plan blocks. -/
def refusedBy : Except String RecoveryResult → Bool
  | .error _ => true
  | .ok recovery => recovery.refused

/-- The `finally` of `retryRun`, for a run whose control record is still found. -/
def clearFlag (s : Registry) (id : RunId) (r : Run) : Run :=
  if s.hasControl id then { r with recoveryInProgress := false } else r

def retried (s : Registry) (id : RunId) : Run :=
  let r := s.runs id
  let moved :=
    if s.hasControl id then (r.transition .retrying).getD (r.updateStatus .retrying)
    else r.updateStatus .retrying
  ({ moved with
      abort := false
      lastToolEffect := r.lastToolEffect.map ToolEffect.supersede
      running := true }.emit (.other .executionRecovered)).emit (.other .executionRetry)

/-- `_retryRunInner` after `recover`. Without a control record arming the deadline throws, and
no episode begins. -/
def finishRetry (s : Registry) (k : Nat) (id : RunId) (recovery : Except String RecoveryResult) :
    Registry :=
  if refusedBy recovery then
    (s.serve k []).write id
      (s.clearFlag id ((s.runs id).emit (.other .executionRecoveryBlocked)))
  else if s.hasControl id then
    (s.serve k [.episode id]).write id (s.clearFlag id (s.retried id).armDeadline)
  else (s.serve k []).write id (s.retried id)

/-- `continueRun` once the run is live again, if it was in the history. -/
def openEpisode (s : Registry) (id : RunId) : Registry :=
  let r := s.runs id
  if !s.activeRuns.has id || !s.hasControl id || r.running then s
  else if r.status.terminal then
    (s.write id ((r.transition .retrying).getD (r.force .retrying))).startRun id
  else s.startRun id

/-- `continueRun` of `execution/controller.js`. -/
def continueRun (s : Registry) (id : RunId) : Registry :=
  if !s.activeRuns.has id && s.terminalRuns.has id then
    if (s.runs id).running then s
    else
      ((s.resurrect id).write id
        { s.runs id with abort := false, running := false }).openEpisode id
  else s.openEpisode id

inductive Label
  | createRun (timeoutMs : Nat) (maximumCost maximumLatency : ℚ)
  /-- The catalogue arrives (the new id), or its lookup throws. -/
  | createSettles (k : Nat) (id : Option RunId)
  | startRun (id : RunId)
  /-- The loop, or a pause, moves the run to a status that is not terminal. -/
  | moves (id : RunId) (next : TaskStatus)
  | charges (id : RunId) (amount : ℚ)
  | marks (id : RunId) (effect : Option ToolEffect)
  | completes (k : Nat) (summary : Option String)
  /-- The loop sees the abort flag. -/
  | observesAbort (k : Nat) (reason : String)
  | throws (k : Nat) (error : RunError)
  | returns (k : Nat)
  | catches (k : Nat)
  | settles (k : Nat)
  | deadline (id : RunId)
  | cancelRun (id : RunId) (reason : String)
  | graceElapses (k : Nat)
  | retryRun (id : RunId) (query : Except String RecoveryQuery)
  | recovers (k : Nat)
  | continueRun (id : RunId)

def step (s : Registry) : Label → Option Registry
  | .createRun timeoutMs maximumCost maximumLatency =>
    some (s.createRun c timeoutMs maximumCost maximumLatency)
  | .createSettles k id? =>
    match s.tasks[k]?, id? with
    | some (.creating timeoutMs maximumCost maximumLatency), some id =>
      if id ∈ s.created then none
      else some ((s.serve k []).register id (.new timeoutMs maximumCost maximumLatency))
    | some (.creating ..), none => some (s.serve k [])
    | _, _ => none
  | .startRun id => some (s.startRun id)
  | .moves id next => if next.terminal then none else some (s.transition id next)
  | .charges id amount =>
    some (s.write id { s.runs id with budget := (s.runs id).budget.addCost amount })
  | .marks id effect => some (s.write id { s.runs id with lastToolEffect := effect })
  | .completes k summary =>
    match s.tasks[k]? with
    | some (.episode id) => s.completeRun c id summary
    | _ => none
  | .observesAbort k reason =>
    match s.tasks[k]? with
    | some (.episode id) =>
      if (s.runs id).abort then some (s.cancelledRun c id reason) else none
    | _ => none
  | .throws k error =>
    match s.tasks[k]? with
    | some (.episode id) => some (s.serve k [.failing id error])
    | _ => none
  | .returns k =>
    match s.tasks[k]? with
    | some (.episode id) => some (s.serve k [.settling id])
    | _ => none
  | .catches k =>
    match s.tasks[k]? with
    | some (.failing id error) => some ((s.serve k [.settling id]).failRun c id error)
    | _ => none
  | .settles k =>
    match s.tasks[k]? with
    | some (.settling id) => some ((s.serve k []).settle id)
    | _ => none
  | .deadline id => if (s.runs id).deadlineTimer then some (s.deadline c id) else none
  | .cancelRun id reason => some (s.cancelRun id reason)
  | .graceElapses k =>
    match s.tasks[k]? with
    | some (.cancelling id reason) => some ((s.serve k []).graceElapses c id reason)
    | _ => none
  | .retryRun id query => some (s.retryRun id query)
  | .recovers k =>
    match s.tasks[k]? with
    | some (.recovering id recovery) => some (s.finishRetry k id recovery)
    | _ => none
  | .continueRun id => some (s.continueRun id)

def Start (s : Registry) : Prop :=
  s.created = [] ∧ s.activeRuns = .empty ∧ s.runControl = .empty ∧ s.terminalRuns = .empty ∧
    s.terminalOrder = [] ∧ s.evicted = [] ∧ s.tasks = []

end Registry

end OrchestraAI.Core
