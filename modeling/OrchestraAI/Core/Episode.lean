import OrchestraAI.Core.Pausing
import OrchestraAI.Economics.ProviderCharge
import OrchestraAI.Library.JsonText
import OrchestraAI.State.RuntimeState

/-! # The state of one episode

What the agent loop of `core/orchestrator.js` reads and writes of a run between the start,
the retry or the continuation that opens an episode and its end: the run itself, the
control record, the state of its pause, and the `cancelRun` calls in their grace. The log
is that of the episode.
-/

namespace OrchestraAI.Core

open OrchestraAI.State (ModelStatus)

abbrev ModelId := String

/-- What the registry knows of a model, as far as the loop reads it. -/
structure ModelDef where
  id : ModelId
  provider : String
  nativeId : Option String
  status : ModelStatus
  contextWindow : Nat
  outputPer1k : Option ℚ

/-- `a < b` of two prices, of which a missing one is infinite. -/
def cheaper : Option ℚ → Option ℚ → Bool
  | some a, some b => a < b
  | some _, none => true
  | none, _ => false

structure LoopError extends RunError where
  retryable : Bool

def loopError (code message : String) : LoopError := ⟨⟨some code, message, false⟩, false⟩

def LoopError.failoverEligible (e : LoopError) : Bool :=
  e.isProviderError &&
    (e.retryable || e.code = some "model_unavailable" || e.code = some "model_resolution")

structure ToolRequest where
  id : String
  name : String
  arguments : Json

/-- An entry of the conversation that the provider is shown. -/
inductive Turn
  | user (content : String)
  | assistant (content : String) (toolCalls : List ToolRequest)
  | tool (toolCallId name content : String)

structure ModelResult where
  text : String
  toolCalls : List ToolRequest

structure ToolResult where
  success : Bool
  code : Option String
  /-- The summary of the result, or the text of the error. -/
  text : String

def ToolResult.evidence (res : ToolResult) : String :=
  if res.success then cut 600 res.text
  else "ERROR: " ++ cut 400 (if res.text = "" then "tool failed" else res.text)

/-- An entry of `runtimeState.modelCalls`. -/
structure CallRecord where
  step : Nat
  provider : String
  model : ModelId
  record : Economics.ModelCallRecord

/-- The runtime state and the control record of a run, as far as the loop reads them and `Run`
does not hold them. -/
structure LoopData where
  currentModel : Option ModelId
  modelHealth : ModelStatus
  /-- `ctrl.providerModel`. -/
  providerModel : Option ModelDef
  modelCalls : List CallRecord
  toolCalls : Nat
  retries : Nat
  triedModels : List ModelId
  heuristicToolUsed : Bool
  /-- Which of the recent tool calls succeeded. -/
  recentToolCalls : List Bool
  /-- The assistant's messages of `ctrl.messages`. -/
  assistantMessages : List String
  history : List Turn
  currentTokens : Nat
  maximumTokens : Nat
  totalSteps : Nat

namespace LoopData

/-- `push`, and `shift` past the limit. -/
def pushed {α : Type} (limit : Nat) (list : List α) (a : α) : List α :=
  if limit < (list ++ [a]).length then (list ++ [a]).tail else list ++ [a]

def addModelCall (d : LoopData) (record : CallRecord) : LoopData :=
  { d with modelCalls := pushed 200 d.modelCalls record }

def recordCall (d : LoopData) (success : Bool) : LoopData :=
  { d with recentToolCalls := pushed 100 d.recentToolCalls success }

def say (d : LoopData) (turn : Turn) : LoopData := { d with history := d.history ++ [turn] }

/-- `setCurrentModel`, with the definition that drives execution from here on. -/
def setCurrentModel (d : LoopData) (model : ModelId) (definition : Option ModelDef) : LoopData :=
  { d with currentModel := some model, providerModel := definition.or d.providerModel }

def utilization (d : LoopData) : ℚ :=
  if 0 < d.maximumTokens then d.currentTokens / d.maximumTokens else 0

end LoopData

inductive Call
  | model (step : Nat) (model : Option ModelId)
  | tool (call : ToolRequest)

/-- What is seen of an episode from outside; the code keeps none of it. -/
structure Observed where
  /-- The calls of the provider and of tool handlers so far. -/
  calls : List Call
  /-- A handler has been started while the pause was settled. -/
  ranPaused : Bool
  /-- The targets of the transitions that were rejected. -/
  refused : List TaskStatus
  /-- A `cancelRun` has been let in. -/
  cancelAsked : Bool
  /-- The deadline has fired. -/
  timedOut : Bool
  /-- The answers that `cancelRun` has given. -/
  cancelAnswers : List Bool

def Observed.nothing : Observed := ⟨[], false, [], false, false, []⟩

structure Episode extends Run where
  /-- `activeRuns.has(runId)`. -/
  live : Bool
  data : LoopData
  pause : PauseState
  /-- The reasons of the `cancelRun` calls in their 25 ms of grace. -/
  cancelling : List String
  seen : Observed

structure View where
  data : LoopData
  budget : Budget
  abort : Bool
  terminal : Bool

namespace Episode

variable (s : Episode)

def view : View := ⟨s.data, s.budget, s.abort, s.status.terminal⟩

def refuse (next : TaskStatus) : Episode :=
  { s with seen := { s.seen with refused := s.seen.refused ++ [next] } }

def invalidTransition (now next : TaskStatus) : LoopError :=
  loopError "invalid_transition" s!"Invalid state transition: {now.text} -> {next.text}"

def transition (next : TaskStatus) : Except LoopError Unit × Episode :=
  match s.toRun.transition next with
  | some r => (.ok (), { s with toRun := r })
  | none => (.error (invalidTransition s.machine next), s.refuse next)

def toObserving : Except LoopError Unit × Episode :=
  if s.machine = .waitingForTool then
    match s.transition .executing with
    | (.ok _, routed) => routed.transition .observing
    | rejected => rejected
  else s.transition .observing

/-- A terminal run, or one that has left `activeRuns`, is not ended again. -/
def endsNothing : Bool := s.status.terminal || !s.live

def retired (r : Run) : Episode := { s with toRun := r.retire, live := false }

/-- The transition that `_completeRun` begins with. -/
def completesVia : TaskStatus :=
  if s.status = .observing ∨ s.status = .waitingForTool then .executing else .completed

def completeRun (summary : Option String) : Except LoopError Unit × Episode :=
  if s.endsNothing then (.ok (), s)
  else
    match s.toRun.complete summary with
    | some r => (.ok (), s.retired r)
    | none => (.error (invalidTransition s.machine s.completesVia), s.refuse s.completesVia)

def noteRefused (next : TaskStatus) : Episode :=
  if (s.toRun.transition next).isSome then s else s.refuse next

def cancelledRun (reason : String) : Episode :=
  if s.endsNothing then s else (s.noteRefused .cancelled).retired (s.toRun.cancelled reason)

def failRun (error : RunError) : Episode :=
  if s.endsNothing then s
  else
    (s.noteRefused (if s.abort then .cancelled else .failed)).retired (s.toRun.fail error)

/-- The `finally` of an episode. -/
def settle : Episode := { s with running := false, deadlineTimer := false }

def report (event : Event) : Episode := { s with toRun := s.toRun.emit event }

/-- `_holdForPause` before its wait. -/
def holdForPause : Episode :=
  let settled := s.pause.settlePause
  let held : Episode := { s with pause := settled }
  if settled = .paused ∧ s.live then
    let moved : Episode := { held with toRun := (held.toRun.transition .paused).getD held.toRun }
    moved.report (.other .executionPaused)
  else held

/-- The callback of `_armDeadline`. -/
def deadline : Episode :=
  let fired : Episode :=
    { s with abort := true, deadlineTimer := false, seen := { s.seen with timedOut := true } }
  fired.failRun (Registry.timeoutError s.timeoutMs)

def answer (given : Bool) : Episode :=
  { s with seen := { s.seen with cancelAnswers := s.seen.cancelAnswers ++ [given] } }

def cancelRun (reason : String) : Episode :=
  if !s.live || s.status.terminal then s.answer false
  else
    { s with
      abort := true
      deadlineTimer := false
      cancelling := s.cancelling ++ [reason]
      seen := { s.seen with cancelAsked := true } }

/-- `cancelRun` after its grace. -/
def graceElapses (reason : String) : Episode :=
  { s.cancelledRun reason with running := false }.answer true

def moved (next : TaskStatus) : Episode :=
  { s with toRun := (s.toRun.transition next).getD s.toRun }

def pauseRun : Episode :=
  let state := s.pause.requestPause
  let asked : Episode := { s with pause := state }
  if s.live ∧ state = .pausing then (asked.moved .pausing).report (.other .executionPaused) else asked

/-- The first transition of `resumeRun`. -/
def leavePause : Episode :=
  match s.machine with
  | .paused => s.moved .resuming
  | .pausing => s.moved .paused
  | _ => s

def goOn : Episode :=
  match s.machine with
  | .resuming | .paused => s.moved .executing
  | _ => s

def resumeRun : Episode :=
  let state := s.pause.requestResume
  if s.live ∧ state = .resuming then
    ({ s with pause := state.settleResume }.leavePause.goOn).report (.other .executionResumed)
  else { s with pause := state }

end Episode

end OrchestraAI.Core
