import OrchestraAI.Core.Episode
import OrchestraAI.Library.AsyncProgram

/-! # Operations and waits of the agent loop

What the agent loop of `core/orchestrator.js` does to the state of its episode, and what it
waits for. A call of the provider, of a tool or of a manager is a wait with an open answer.
The managers of this process answer in a microtask, in which no timer fires.
-/

namespace OrchestraAI.Core

inductive Op
  | look
  /-- The policy engine evaluates the run. -/
  | evaluate
  | emit (type : EventType)
  | reportBudgetExceeded
  | addCost (amount : ℚ)
  | addLatency (ms : ℚ)
  | startStep
  | update (f : LoopData → LoopData)
  | call (what : Call)
  | holdForPause
  | transition (next : TaskStatus)
  | toObserving
  | completeRun (summary : Option String)
  | cancelledRun (reason : String)
  | failRun (error : RunError)
  | settle

def Op.Res : Op → Type
  | .look | .evaluate => View
  | .transition _ | .toObserving | .completeRun _ => Except LoopError Unit
  | _ => Unit

def Episode.started (s : Episode) (what : Call) : Episode :=
  { s with
    seen :=
      { s.seen with
        calls := s.seen.calls ++ [what]
        ranPaused := s.seen.ranPaused || match what with
          | .tool _ => s.pause = .paused
          | .model .. => false } }

def exec : (o : Op) → Episode → o.Res × Episode
  | .look, s => (s.view, s)
  | .evaluate, s => (s.view, s)
  | .emit type, s => ((), s.report (.other type))
  | .reportBudgetExceeded, s =>
    ((), s.report (.budgetExceeded s.budget.currentSpend s.budget.maximumCost))
  | .addCost amount, s => ((), { s with budget := s.budget.addCost amount })
  | .addLatency ms, s =>
    ((), { s with budget := { s.budget with elapsedLatency := s.budget.elapsedLatency + ms } })
  | .startStep, s => ((), { s with currentStep := s.currentStep + 1 })
  | .update f, s => ((), { s with data := f s.data })
  | .call what, s => ((), s.started what)
  | .holdForPause, s => ((), s.holdForPause)
  | .transition next, s => s.transition next
  | .toObserving, s => s.toObserving
  | .completeRun summary, s => s.completeRun summary
  | .cancelledRun reason, s => ((), s.cancelledRun reason)
  | .failRun error, s => ((), s.failRun error)
  | .settle, s => ((), s.settle)

structure Routing where
  selectedModel : ModelId
  /-- The decision is a fallback. -/
  fallback : Bool
  /-- What `canSwitch` says of the switch. -/
  allowed : Bool
  switchingCost : ℚ

structure SemanticAnswer extends ModelResult where
  modelUsed : Option ModelId
  /-- It is an entry of this run. -/
  ownEntry : Bool

structure Completion where
  text : String
  toolCalls : List ToolRequest
  provider : Option String
  model : Option ModelId
  response : Economics.ModelResponse

/-- What the registry and the clock say once the answer is there. -/
structure Quote where
  pricing : Option Economics.Pricing
  latencyMs : ℚ

structure StreamPart where
  delta : Bool
  final : Option Completion

inductive Admission
  /-- Unknown, disabled, invalid or denied. -/
  | refused (result : ToolResult)
  | needsApproval (result : ToolResult)
  /-- The stored result of an earlier execution under the key. -/
  | stored (result : ToolResult)
  | cleared (hasHandler : Bool)

inductive HoldEnd
  | released
  | aborted
  /-- After 15 minutes. -/
  | capped

inductive Wait
  | contextBuilt
  | contextAdded
  | memoryRead
  | memorySearched
  | models
  | model (id : Option ModelId)
  | promptCompiled (history : List Turn)
  | routed (candidates : List ModelDef)
  | compressed (target : Nat)
  | prefixInvalidated
  | cacheRead
  | semanticLookedUp
  | cacheWritten
  | semanticStored
  | admitted (call : ToolRequest)
  | memoryWritten
  | durableWritten
  | unavailableMarked
  /-- The catch of the loop is due. -/
  | rejected
  /-- The finally is due. -/
  | closing
  /-- The number of parts that the answer is going to have, and the quote at its end. -/
  | streamOpened
  /-- The next part; so many are left after it. -/
  | streamed (model : Option ModelId) (history : List Turn) (left : Nat)
  | completed (model : Option ModelId) (history : List Turn)
  | held
  | handled (call : ToolRequest)
  | verified
  | persisted
  | backoff (ms : Nat)

def Wait.Ans : Wait → Type
  | .contextBuilt | .contextAdded | .cacheWritten | .memoryWritten | .durableWritten =>
    Except LoopError Unit
  | .memorySearched => Except LoopError (List String)
  | .promptCompiled _ => Except LoopError Nat
  | .models => Except LoopError (List ModelDef)
  | .model _ => Except LoopError (Option ModelDef)
  | .routed _ => Except LoopError Routing
  | .compressed _ => Except LoopError (List Nat)
  | .prefixInvalidated => Except LoopError Bool
  | .cacheRead => Except LoopError (Option ModelResult)
  | .semanticLookedUp => Option SemanticAnswer
  | .admitted _ => Admission
  | .streamOpened => Nat × Quote
  | .streamed .. => Except LoopError StreamPart
  | .completed .. => Except LoopError (Completion × Quote)
  | .held => HoldEnd
  | .handled _ => Except ToolResult (ToolResult × ℚ)
  | .verified => List EventType
  | .memoryRead | .semanticStored | .unavailableMarked | .rejected | .closing | .persisted
  | .backoff _ => Unit

def Wait.io : Wait → Bool
  | .streamed .. | .completed .. | .held | .handled _ | .verified | .persisted | .backoff _ => true
  | _ => false

abbrev Loop := Prog Op Op.Res Wait Wait.Ans LoopError

namespace Loop

def look : Loop View := .op .look .done

def addCost (amount : ℚ) : Loop Unit := .op (.addCost amount) .done

def call (what : Call) : Loop Unit := .op (.call what) .done

def emit (type : EventType) : Loop Unit := .op (.emit type) .done

def update (f : LoopData → LoopData) : Loop Unit := .op (.update f) .done

def ofExcept {α : Type} : Except LoopError α → Loop α
  | .ok a => .done a
  | .error e => .throw e

def transition (next : TaskStatus) : Loop Unit := .op (.transition next) ofExcept

def toObserving : Loop Unit := .op .toObserving ofExcept

def completeRun (summary : Option String) : Loop Unit := .op (.completeRun summary) ofExcept

def cancelledRun (reason : String) : Loop Unit := .op (.cancelledRun reason) .done

def wait (t : Wait) : Loop t.Ans := .await t .done

def attempt {α : Type} (p : Loop α) : Loop (Except LoopError α) :=
  (p >>= fun a => .done (.ok a)).tryCatch fun e => .done (.error e)

/-- `if (b) p`. -/
def when (b : Bool) (p : Loop Unit) : Loop Unit := if b then p else pure ()

def emitAll : List EventType → Loop Unit
  | [] => pure ()
  | type :: types => do
    emit type
    emitAll types

end Loop

end OrchestraAI.Core
