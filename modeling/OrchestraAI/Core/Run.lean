import Mathlib.Algebra.Order.Ring.Rat
import OrchestraAI.Core.StateMachine
import OrchestraAI.Library.CodeUnits
import OrchestraAI.Library.TextUnits
import OrchestraAI.Recovery.Plan

/-! # One run: its status, its state machine and its three ends

What `core/orchestrator.js` reads and writes of a run's runtime state and control
record when it moves the run from status to status. The status and the state of
the machine are two fields, as in the source: they are written together except
where a restore or a retry writes the status alone.
-/

namespace OrchestraAI.Core

open OrchestraAI.Recovery (ToolEffect)

/-- The part of `BudgetState` that the checks read. -/
structure Budget where
  currentSpend : ℚ
  maximumCost : ℚ
  elapsedLatency : ℚ
  maximumLatency : ℚ
  deriving DecidableEq, Repr

namespace Budget

def isBudgetExceeded (b : Budget) : Bool := b.maximumCost ≤ b.currentSpend

def isLatencyExceeded (b : Budget) : Bool := b.maximumLatency ≤ b.elapsedLatency

def addCost (b : Budget) (amount : ℚ) : Budget :=
  { b with currentSpend := b.currentSpend + amount }

end Budget

inductive EventType
  | taskStarted
  | planning
  | contextBuilt
  | contextAdded
  | contextCompressed
  | contextLimitWarning
  | modelUnavailable
  | modelSelected
  | modelSwitched
  | modelRetained
  | modelSwitchRejected
  | cacheHit
  | cacheMiss
  | cacheInvalidated
  | memoryRead
  | memoryWritten
  | memoryEvicted
  | toolSelected
  | toolStarted
  | toolCompleted
  | toolFailed
  | executionStepStarted
  | executionStepCompleted
  | executionRetry
  | routingEvaluated
  | costUpdated
  | budgetWarning
  | optimizationTriggered
  | optimizationCompleted
  | responseDelta
  | responseDone
  | modelCallCompleted
  | executionRecoveryStarted
  | executionRecovered
  | executionRecoveryBlocked
  | executionPaused
  | executionResumed
  | toolApprovalRequired
  | approvalRequested
  | verificationStarted
  | verificationPassed
  | verificationFailed
  deriving DecidableEq, Repr

inductive Event
  | runCompleted (summary : CodeUnits.Units) (steps : Nat) (cost latency : ℚ)
  | runFailed (error code : String) (steps : Nat) (cost : ℚ)
  | runCancelled (reason : String)
  | budgetExceeded (spent budget : ℚ)
  /-- A retry that is refused for its budget reports a failure without totals. -/
  | retryFailed (error code : String)
  | other (type : EventType)
  deriving DecidableEq, Repr

def Event.ends : Event → Bool
  | .runCompleted .. | .runFailed .. | .runCancelled .. => true
  | .budgetExceeded .. | .retryFailed .. | .other _ => false

structure RunError where
  code : Option String
  message : String
  isProviderError : Bool
  deriving DecidableEq, Repr

/-- `text.slice(0, n)`; half of a pair becomes a replacement character. -/
def cut (n : Nat) (text : String) : String := String.ofList (Text.sliceUnits n text.toList)

theorem cut_of_codeUnitCount_le {n : Nat} {text : String} (h : Text.codeUnitCount text.toList ≤ n) :
    cut n text = text := by
  rw [cut, Text.sliceUnits_of_codeUnitCount_le h, String.ofList_toList]

def RunError.safe (error : RunError) : String :=
  if error.isProviderError then error.message else cut 500 error.message

structure Run where
  status : TaskStatus
  machine : TaskStatus
  abort : Bool
  running : Bool
  recoveryInProgress : Bool
  /-- A timer is armed and has neither fired nor been cleared. -/
  deadlineTimer : Bool
  timeoutMs : Nat
  budget : Budget
  currentStep : Nat
  lastToolEffect : Option ToolEffect
  log : List Event

namespace Run

/-- The record that `createRun` stores. -/
def new (timeoutMs : Nat) (maximumCost maximumLatency : ℚ) : Run where
  status := .created
  machine := .created
  abort := false
  running := false
  recoveryInProgress := false
  deadlineTimer := false
  timeoutMs := timeoutMs
  budget := ⟨0, maximumCost, 0, maximumLatency⟩
  currentStep := 0
  lastToolEffect := none
  log := []

def emit (r : Run) (event : Event) : Run := { r with log := r.log ++ [event] }

def updateStatus (r : Run) (status : TaskStatus) : Run := { r with status := status }

/-- `transition` of a run with a control record; `none` is the error `invalid_transition`. -/
def transition (r : Run) (next : TaskStatus) : Option Run :=
  if r.machine = next then some r
  else if r.machine.canTransition next then some { r with machine := next, status := next }
  else none

def force (r : Run) (next : TaskStatus) : Run := { r with machine := next, status := next }

def armDeadline (r : Run) : Run := { r with deadlineTimer := decide (0 < r.timeoutMs) }

def disarmDeadline (r : Run) : Run := { r with deadlineTimer := false }

/-- What `_retireRun` writes on the run itself. -/
def retire (r : Run) : Run := { r with deadlineTimer := false, running := false }

def completionSummary (summary : Option String) : CodeUnits.Units :=
  match summary with
  | some text => (CodeUnits.ofText text.toList).take 500
  | none => CodeUnits.ofText "Task completed successfully".toList

def routeBack (r : Run) : Option Run :=
  if r.status = .observing ∨ r.status = .waitingForTool then r.transition .executing else some r

def reportCompleted (r : Run) (summary : Option String) : Run :=
  r.emit
    (.runCompleted (completionSummary summary) r.currentStep r.budget.currentSpend
      r.budget.elapsedLatency)

/-- `_completeRun` past its two guards and up to `_retireRun`. -/
def complete (r : Run) (summary : Option String) : Option Run :=
  r.routeBack.bind fun routed =>
    (routed.transition .completed).map fun done => done.reportCompleted summary

/-- `_cancelledRun` past its two guards and up to `_retireRun`. -/
def cancelled (r : Run) (reason : String) : Run :=
  ((r.transition .cancelled).getD (r.force .cancelled)).emit (.runCancelled reason)

/-- `_failRun` past its two guards and up to `_retireRun`. The orchestrator has no `eventBus`
field, so the search for an earlier `budget.exceeded` finds nothing and the event goes out. -/
def fail (r : Run) (error : RunError) : Run :=
  if r.abort then r.cancelled "cancel requested"
  else
    let code := (Recovery.truthy error.code).getD "unknown"
    let warned :=
      if code = "budget_exceeded" ∨ code = "budget_constraint" then
        r.emit (.budgetExceeded r.budget.currentSpend r.budget.maximumCost)
      else r
    ((warned.transition .failed).getD (warned.force .failed)).emit
      (.runFailed error.safe code r.currentStep r.budget.currentSpend)

def Coherent (r : Run) : Prop := r.status.terminal = true → r.machine.terminal = true

variable {r t : Run} {next : TaskStatus}

theorem transition_spec (h : r.transition next = some t) :
    t = r ∧ r.machine = next ∨ t = { r with machine := next, status := next } := by
  unfold transition at h
  split at h
  · rename_i hSame
    exact .inl ⟨(Option.some.inj h).symm, hSame⟩
  · split at h
    · exact .inr (Option.some.inj h).symm
    · cases h

theorem transition_frame (h : r.transition next = some t) :
    t = { r with machine := t.machine, status := t.status } := by
  rcases transition_spec h with ⟨rfl, -⟩ | rfl <;> rfl

theorem Coherent.transition (hr : r.Coherent) (h : r.transition next = some t) : t.Coherent := by
  rcases transition_spec h with ⟨rfl, -⟩ | rfl
  · exact hr
  · exact id

theorem Coherent.routeBack (hr : r.Coherent) (h : r.routeBack = some t) : t.Coherent := by
  unfold Run.routeBack at h
  split at h
  · exact hr.transition h
  · exact Option.some.inj h ▸ hr

theorem Coherent.complete {summary : Option String} (hr : r.Coherent)
    (h : r.complete summary = some t) : t.Coherent := by
  obtain ⟨routed, hRouted, h⟩ := Option.bind_eq_some_iff.mp h
  obtain ⟨done, hDone, rfl⟩ := Option.map_eq_some_iff.mp h
  have hCoherent : done.Coherent := (hr.routeBack hRouted).transition hDone
  exact hCoherent

theorem Coherent.getD_transition (hr : r.Coherent) (next : TaskStatus) :
    ((r.transition next).getD (r.force next)).Coherent := by
  cases h : r.transition next with
  | none => exact id
  | some t => exact hr.transition h

theorem Coherent.cancelled (hr : r.Coherent) (reason : String) : (r.cancelled reason).Coherent :=
  hr.getD_transition .cancelled

theorem Coherent.fail (hr : r.Coherent) (error : RunError) : (r.fail error).Coherent := by
  unfold Run.fail
  split
  · exact hr.cancelled _
  · simp only
    split
    · exact Coherent.getD_transition (r := r.emit _) hr .failed
    · exact hr.getD_transition .failed

end Run

end OrchestraAI.Core
