import OrchestraAI.Recovery.ToolEffects

/-! # Recovery decisions

`decideRecovery` of `execution/recovery.js`, `planRecovery` of
`checkpoint/checkpoint-manager.js` and `recover` of `core/recovery-service.js`,
with the texts of their reasons. The validation of the checkpoint and the
outcome of restoring it are inputs here.
-/

namespace OrchestraAI.Recovery

inductive RecoveryDecision
  | resume
  | retry
  | skip
  | rollback
  | askUser
  | markUnknown
  deriving DecidableEq, Repr

structure Decision where
  decision : RecoveryDecision
  reason : String
  deriving DecidableEq, Repr

def truthy (word : Option String) : Option String := word.filter (· ≠ "")

def workspaceChanged (workspaceHash workspaceHashAtCheckpoint : Option String) : Bool :=
  match truthy workspaceHash, truthy workspaceHashAtCheckpoint with
  | some now, some before => now ≠ before
  | _, _ => false

def decideRecovery (toolRecord : ToolEffect) (idempotencyKnownCompleted : Bool)
    (workspaceHash workspaceHashAtCheckpoint : Option String) : Decision :=
  if idempotencyKnownCompleted then
    ⟨.skip, "idempotency proof: side effect already completed"⟩
  else
    match toolRecord.state with
    | .notStarted => ⟨.resume, "no in-flight side effect; resume from checkpoint"⟩
    | .completed => ⟨.resume, "last action completed before crash"⟩
    | .failed =>
      if toolRecord.retryable then ⟨.retry, "last action failed retryably"⟩
      else ⟨.askUser, "last action failed non-retryably"⟩
    | .inFlight | .unknown =>
      if toolRecord.destructive then
        ⟨.markUnknown, "in-flight destructive action: state UNKNOWN, needs user"⟩
      else if workspaceChanged workspaceHash workspaceHashAtCheckpoint then
        ⟨.markUnknown, "workspace changed during outage; side effect UNKNOWN"⟩
      else if toolRecord.idempotent then
        ⟨.retry, "in-flight but idempotent: safe to retry"⟩
      else
        ⟨.markUnknown, "in-flight non-idempotent action: state UNKNOWN"⟩
    | .other _ => ⟨.askUser, "ambiguous recovery state"⟩

inductive RecoveryAction
  | resume
  | retryStep
  | skipCompleted
  | askUser
  | markUnknown
  | unrecoverable
  deriving DecidableEq, Repr

/-- The test made by `recover` and again by `_retryRunInner`: such a plan is not carried out. -/
def RecoveryAction.blocks : RecoveryAction → Bool
  | .askUser | .markUnknown | .unrecoverable => true
  | .resume | .retryStep | .skipCompleted => false

structure Plan where
  action : RecoveryAction
  reason : String
  cursor : Option Nat
  deriving DecidableEq, Repr

def toPlan (decision : Decision) (cursor : Option Nat) : Plan :=
  match decision.decision with
  | .skip => ⟨.skipCompleted, decision.reason, cursor⟩
  | .resume => ⟨.resume, decision.reason, cursor⟩
  | .retry => ⟨.retryStep, decision.reason, cursor⟩
  | .rollback =>
    ⟨.askUser, s!"rollback suggested ({decision.reason}); requires operator approval", cursor⟩
  | .markUnknown => ⟨.markUnknown, decision.reason, cursor⟩
  | .askUser =>
    ⟨.askUser, if decision.reason = "" then "ambiguous recovery state" else decision.reason,
      cursor⟩

inductive ValidationCode
  | missing
  | badShape
  | runMismatch
  | badVersion
  | incomplete
  | stale
  | corrupt
  deriving DecidableEq, Repr

structure CheckpointRef where
  checkpointId : String
  stepNumber : Nat
  deriving DecidableEq, Repr

inductive Validation
  | ok (checkpoint : CheckpointRef)
  | refused (code : ValidationCode) (error : String)
  deriving DecidableEq, Repr

inductive IdempotencyState
  | pending
  | running
  | completed
  | failed
  | unknown
  deriving DecidableEq, Repr

abbrev IdempotencyStore := String → Option IdempotencyState

def knownCompleted (store : Option IdempotencyStore) (idempotencyKey : Option String) : Bool :=
  match store, truthy idempotencyKey with
  | some get, some key => get key = some .completed
  | _, _ => false

def defaultToolRecord : ToolEffect :=
  { state := .notStarted, tool := none, idempotencyKey := none, step := none
    destructive := false, idempotent := true, retryable := true, startedAt := none
    settledAt := none, code := none, note := none, definition := none }

def planRecovery (validation : Option Validation) (record : ToolEffect)
    (store : Option IdempotencyStore)
    (workspaceHash workspaceHashAtCheckpoint : Option String) : Plan :=
  let decision := decideRecovery record (knownCompleted store record.idempotencyKey)
    workspaceHash workspaceHashAtCheckpoint
  let withoutCheckpoint : Plan :=
    if record.state = .notStarted then
      ⟨.retryStep,
        "no completed checkpoint; nothing in flight — restarting failed run from preserved state",
        some 0⟩
    else toPlan decision none
  match validation with
  | none => withoutCheckpoint
  | some (.ok checkpoint) => toPlan decision (some checkpoint.stepNumber)
  | some (.refused code error) =>
    match code with
    | .stale => ⟨.askUser, "checkpoint is stale; automatic resume refused", none⟩
    | .missing | .incomplete => withoutCheckpoint
    | .badShape | .runMismatch | .badVersion | .corrupt =>
      ⟨.unrecoverable, if error = "" then "no usable checkpoint" else error, none⟩

/-- What `recover` returns. -/
structure RecoveryResult where
  plan : Plan
  checkpoint : Option CheckpointRef
  restored : Bool
  record : ToolEffect
  cursor : Option Nat
  deriving DecidableEq, Repr

/-- `recover`: `restore` is the outcome of `recoverFromCheckpoint` on the validated checkpoint. -/
def recover (validation : Validation) (toolRecord lastToolEffect : Option ToolEffect)
    (store : Option IdempotencyStore) (workspaceHash workspaceHashAtCheckpoint : Option String)
    (restore : Except String Unit) : RecoveryResult :=
  let record := (toolRecord.or lastToolEffect).getD defaultToolRecord
  let plan := planRecovery (some validation) record store workspaceHash workspaceHashAtCheckpoint
  let checkpoint := match validation with
    | .ok checkpoint => some checkpoint
    | .refused _ _ => none
  if plan.action.blocks then ⟨plan, checkpoint, false, record, none⟩
  else
    match checkpoint, restore with
    | none, _ => ⟨plan, none, false, record, plan.cursor⟩
    | some _, .error error => ⟨⟨.unrecoverable, error, none⟩, none, false, record, none⟩
    | some checkpoint, .ok () =>
      ⟨plan, some checkpoint, true, record, some (plan.cursor.getD 0)⟩

/-- `_retryRunInner` carries a recovery out unless its plan blocks. -/
def RecoveryResult.refused (recovery : RecoveryResult) : Bool := recovery.plan.action.blocks

theorem blocks_iff (action : RecoveryAction) :
    action.blocks = true ↔
      action ≠ .resume ∧ action ≠ .retryStep ∧ action ≠ .skipCompleted := by
  cases action <;> decide

theorem toPlan_blocks (decision : Decision) (cursor : Option Nat) :
    (toPlan decision cursor).action.blocks = true ↔
      decision.decision = .markUnknown ∨ decision.decision = .askUser ∨
        decision.decision = .rollback := by
  obtain ⟨verdict, reason⟩ := decision
  cases verdict <;> simp [toPlan, RecoveryAction.blocks]

/-- The recovery of a blocked plan is refused, whatever restoring the checkpoint gives. -/
theorem recover_refused {validation : Validation} {toolRecord lastToolEffect : Option ToolEffect}
    {store : Option IdempotencyStore} {workspaceHash workspaceHashAtCheckpoint : Option String}
    (h : (planRecovery (some validation) ((toolRecord.or lastToolEffect).getD defaultToolRecord)
      store workspaceHash workspaceHashAtCheckpoint).action.blocks = true)
    (restore : Except String Unit) :
    (recover validation toolRecord lastToolEffect store workspaceHash workspaceHashAtCheckpoint
      restore).refused = true := by
  simp only [recover, h, if_true, RecoveryResult.refused]

end OrchestraAI.Recovery
