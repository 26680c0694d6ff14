import OrchestraAI.Execution.ApprovalSafety
import OrchestraAI.Execution.StepKeys
import OrchestraAI.Idempotency.LocalStore

/-! # Concurrent tool calls

`execute` of `impl/tool-executor.js` behind `_preGate` of `execution/controller.js`, cut where it
awaits: the gate, what comes between the gate and the handler, and the handler's result. What the
gate asks for, when a call is aborted and what handlers answer comes from outside.
-/

namespace OrchestraAI.Execution

open OrchestraAI.Idempotency (Key IdempotencyStore LocalStep OperationRecord)

variable {η ρ : Type}

abbrev CallId := Nat

/-- The arguments of `execute`. -/
structure ExecuteCall where
  runId : RunId
  toolName : String
  /-- `params || {}`. -/
  params : Json
  approvalId : Option ApprovalId
  idempotencyKey : Option Key

theorem nonempty_keyFor (sha : Text → Text) (runId toolName : String) (params : Option Json)
    (step : Nat) : String.ofList (idempotencyKeyFor sha runId toolName params step) ≠ "" := by
  intro h
  have hNil := congrArg String.toList h
  rw [String.toList_ofList] at hNil
  exact List.append_ne_nil_of_right_ne_nil _ (List.cons_ne_nil _ _) hNil

def ExecuteCall.key (sha : Text → Text) (c : ExecuteCall) (step : Nat) : Key :=
  c.idempotencyKey.getD
    ⟨String.ofList (idempotencyKeyFor sha c.runId c.toolName (some c.params) step),
      nonempty_keyFor sha _ _ _ _⟩

def ExecuteCall.action (c : ExecuteCall) : GatedAction := ⟨c.runId, c.toolName, some c.params, none⟩

inductive GateNeed
  | denied
  | free
  | approval
  deriving DecidableEq

/-- What the gate says to a call: it is refused, or it may go on, with the approval it has consumed. -/
inductive GateAnswer
  | refused
  | allowed (approvalId : Option ApprovalId)

def GateAnswer.approval : GateAnswer → Option ApprovalId
  | .refused => none
  | .allowed approvalId => approvalId

section Gate

variable [DecidableEq η] (sha : Text → η) (clock : Nat → Int)

def consume (a : ApprovalRun η) (c : ExecuteCall) (id : ApprovalId) :
    ApprovalRun η × Except String (Approval η) :=
  let out := a.store.checkAndConsume sha clock c.action id
  (a.after out fun _ => .consumed id, out.2)

/-- The request of an approval that blocks the call; texts for the reader are left out. -/
def requestApproval (a : ApprovalRun η) (c : ExecuteCall) (id : ApprovalId) : ApprovalRun η :=
  a.after (a.store.request sha clock
    { runId := c.runId, actionType := c.toolName, title := none, description := none,
      riskLevel := none, params := some c.params, proposedAction := none, affectedResources := none,
      estimatedChanges := none, estimatedCost := none, expiresInMs := none } id) fun r =>
    .requested id r.runId r.actionType (some c.params) r.expiresAt

/-- The end of `_preGate`: an explicit approval, one that is found, or a request for a new one. -/
def preGate (a : ApprovalRun η) (c : ExecuteCall) (need : GateNeed) (newId : ApprovalId) :
    ApprovalRun η × GateAnswer :=
  match need with
  | .denied => (a, .refused)
  | .free => (a, .allowed none)
  | .approval =>
    match c.approvalId.filter fun id => id ≠ "" with
    | some explicitId =>
      match consume sha clock a c explicitId with
      | (consumed, .ok _) => (consumed, .allowed (some explicitId))
      | (refused, .error _) => (refused, .refused)
    | none =>
      let peeked := a.store.peek sha clock c.action
      let a := { a with store := peeked.1 }
      match peeked.2 with
      | some r =>
        match consume sha clock a c r.id with
        | (consumed, .ok _) => (consumed, .allowed (some r.id))
        | (stale, .error _) => (requestApproval sha clock stale c newId, .refused)
      | none => (requestApproval sha clock a c newId, .refused)

end Gate

inductive CallPhase
  | entered
  /-- The gate has let it pass, with the approval it has consumed. -/
  | gated (need : GateNeed) (approval : Option ApprovalId)

/-- A call that has reached its handler. While it has not ended it is in `inFlight`. -/
structure StartedCall where
  id : CallId
  key : Key
  need : GateNeed
  approval : Option ApprovalId
  /-- Whether it ended with success. -/
  ended : Option Bool

/-- A call that has ended without reaching a handler, with the approval it has consumed. -/
structure LeftCall where
  id : CallId
  approval : Option ApprovalId

structure ExecutorRun (η ρ : Type) where
  approvals : ApprovalRun η
  completedKeys : OrderedMap Key ρ
  idempotencyStore : IdempotencyStore ρ
  calls : OrderedMap CallId (ExecuteCall × CallPhase)
  started : List StartedCall
  left : List LeftCall

inductive ExecutorStep (ρ : Type)
  /-- A call begins; `getTool` is awaited. -/
  | enter (id : CallId) (call : ExecuteCall)
  /-- There is no such tool, or it is disabled, or the parameters are not valid. -/
  | reject (id : CallId)
  | gate (id : CallId) (need : GateNeed) (newId : ApprovalId)
  /-- The call goes on behind the gate, with the step of its run. -/
  | resume (id : CallId) (step : Nat) (aborted : Bool)
  /-- The handler has answered, failed or run out of time. -/
  | settle (id : CallId) (result : Option ρ) (now : Nat) (works : Bool)
  /-- Others use the approvals and the store. -/
  | approvals (l : ApprovalLabel)
  | store (l : LocalStep ρ)

namespace ExecutorRun

def remember (completedKeys : OrderedMap Key ρ) (key : Key) (result : ρ) : OrderedMap Key ρ :=
  let kept := completedKeys.set key result
  if 500 < kept.size then kept.dropOldest else kept

def durable (store : IdempotencyStore ρ) (key : Key) : Option ρ :=
  (store.records.get key).bind fun r => if r.state = .completed then r.result else none

/-- A call is answered with a stored result, or it cannot run. -/
inductive Stop (ρ : Type)
  | cached
  | stored (result : ρ)
  | cancelled
  | noHandler

def stop (s : ExecutorRun η ρ) (handlers : String → Bool) (call : ExecuteCall) (key : Key)
    (aborted : Bool) : Option (Stop ρ) :=
  if s.completedKeys.has key then some .cached
  else
    match durable s.idempotencyStore key with
    | some result => some (.stored result)
    | none =>
      if aborted then some .cancelled
      else if handlers call.toolName then none
      else some .noHandler

variable [DecidableEq η] (sha : Text → η) (keySha : Text → Text) (clock : Nat → Int)
  (handlers : String → Bool)

def step (s : ExecutorRun η ρ) : ExecutorStep ρ → Option (ExecutorRun η ρ)
  | .enter id call =>
    if s.calls.has id then none else some { s with calls := s.calls.set id (call, .entered) }
  | .reject id =>
    match s.calls.get id with
    | some (_, .entered) =>
      some { s with calls := s.calls.delete id, left := ⟨id, none⟩ :: s.left }
    | _ => none
  | .gate id need newId =>
    match s.calls.get id with
    | some (call, .entered) =>
      match preGate sha clock s.approvals call need newId with
      | (approvals, .refused) =>
        some { s with approvals, calls := s.calls.delete id, left := ⟨id, none⟩ :: s.left }
      | (approvals, .allowed approval) =>
        some { s with approvals, calls := s.calls.set id (call, .gated need approval) }
    | _ => none
  | .resume id step aborted =>
    match s.calls.get id with
    | some (call, .gated need approval) =>
      let key := call.key keySha step
      let calls := s.calls.delete id
      match s.stop handlers call key aborted with
      | some reason =>
        let completedKeys :=
          match reason with
          | .stored result => remember s.completedKeys key result
          | _ => s.completedKeys
        some { s with completedKeys, calls, left := ⟨id, approval⟩ :: s.left }
      | none => some { s with calls, started := ⟨id, key, need, approval, none⟩ :: s.started }
    | _ => none
  | .settle id result now works =>
    (s.started.find? fun c => c.id = id ∧ c.ended = none).map fun c =>
      let started := s.started.map fun c' =>
        if c'.id = id ∧ c'.ended = none then { c' with ended := some result.isSome } else c'
      match result with
      | some value =>
        { s with
          started
          completedKeys := remember s.completedKeys c.key value
          idempotencyStore := s.idempotencyStore.finish c.key (.complete (some value)) now works }
      | none => { s with started }
  | .approvals l => (s.approvals.step sha clock l).map fun approvals => { s with approvals }
  | .store l => some { s with idempotencyStore := (s.idempotencyStore.step l).1 }

end ExecutorRun

end OrchestraAI.Execution
