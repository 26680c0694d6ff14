import Mathlib.Data.Int.ConditionallyCompleteOrder
import Mathlib.Data.Rat.Floor
import Mathlib.Order.Monotone.Defs
import OrchestraAI.Library.LabelledSystem
import OrchestraAI.Library.OrderedMap
import OrchestraAI.Library.TextUnits

/-! # Approvals

`execution/approvals.js`. The truncated SHA-256 and the clock are parameters; the
clock is read several times in one call, so the store counts its readings. Ids are
chosen by the caller of the model, where the source draws them.
-/

namespace OrchestraAI.Execution

abbrev ApprovalId := String
abbrev RunId := String

inductive ApprovalStatus
  | pending
  | approved
  | denied
  | expired
  | cancelled
  deriving DecidableEq, Repr

def ApprovalStatus.text : ApprovalStatus → String
  | .pending => "PENDING"
  | .approved => "APPROVED"
  | .denied => "DENIED"
  | .expired => "EXPIRED"
  | .cancelled => "CANCELLED"

/-- `value || fallback` for a text. -/
def orElse (value : Option String) (fallback : String) : String :=
  match value with
  | none => fallback
  | some s => if s = "" then fallback else s

/-- `value || {}`. -/
def orEmpty : Option Json → Json
  | none => .obj []
  | some v => if v.truthy then v else .obj []

structure Approval (η : Type) where
  id : ApprovalId
  runId : RunId
  actionType : String
  title : String
  description : String
  riskLevel : String
  requestedAt : Int
  expiresAt : Int
  affectedResources : List Json
  proposedAction : Option Json
  paramsFingerprint : η
  estimatedCost : Json
  estimatedChanges : Json
  status : ApprovalStatus
  decidedAt : Option Int
  decidedBy : Option String
  consumed : Bool

structure ApprovalStore (η : Type) where
  approvals : OrderedMap ApprovalId (Approval η)
  defaultTtlMs : ℚ
  maxPending : ℚ
  ticks : Nat

/-- The arguments of `request`; `expiresInMs` is there when it is a finite number. -/
structure ApprovalRequest where
  runId : RunId
  actionType : String
  title : Option String
  description : Option String
  riskLevel : Option String
  params : Option Json
  proposedAction : Option Json
  affectedResources : Option (List Json)
  estimatedChanges : Option Json
  estimatedCost : Option Json
  expiresInMs : Option ℚ

/-- The arguments of `checkAndConsume`, and without the id those of `peek`. -/
structure GatedAction where
  runId : RunId
  actionType : String
  params : Option Json
  proposedAction : Option Json

section Fingerprints

variable {η : Type} (sha : Text → η)

def fingerprintParams (actionType : String) (params : Option Json) : η :=
  sha (actionType.toList ++ '|' :: stableStringify (orEmpty params))

def fingerprintAction (actionType : String) (params : Option Json) (extra : Text) : η :=
  if extra ≠ [] ∧ extra ≠ "\x7b\x7d".toList then
    sha (stringify (.obj [("actionType", .str actionType), ("params", orEmpty params),
      ("extra", .str (String.ofList extra))]))
  else sha (actionType.toList ++ '|' :: stableStringify (orEmpty params))

end Fingerprints

namespace ApprovalStore

variable {η : Type} [DecidableEq η] (sha : Text → η) (clock : Nat → Int) (s : ApprovalStore η)

def create (defaultTtlMs : Option ℚ) (maxPending : Option ℚ) : ApprovalStore η where
  approvals := .empty
  defaultTtlMs := match defaultTtlMs with
    | none | some 0 => 10 * 60 * 1000
    | some ms => ms
  maxPending := match maxPending with
    | none | some 0 => 50
    | some n => n
  ticks := 0

/-- `Date.now()`. -/
def now : Int := clock s.ticks

def tick : ApprovalStore η := { s with ticks := s.ticks + 1 }

def toDate (ms : ℚ) : Option Int :=
  if |ms| ≤ 8640000000000000 then some (ms.num.tdiv ms.den) else none

/-- A store left by the call and its new record, or the message thrown; `none` where the
expiry is no date. -/
def request (req : ApprovalRequest) (id : ApprovalId) :
    ApprovalStore η × Except String (Approval η) :=
  if req.runId = "" ∨ req.actionType = "" then
    (s, .error "runId and actionType are required")
  else if s.maxPending ≤
      (s.approvals.values.filter fun a => a.runId = req.runId ∧ a.status = .pending).length then
    (s, .error "too many pending approvals for run")
  else
    let nowMs := s.tick.now clock
    match toDate (nowMs + req.expiresInMs.getD s.defaultTtlMs) with
    | none => (s.tick.tick, .error "Invalid time value")
    | some expiresAt =>
      let record : Approval η :=
        { id := id
          runId := req.runId
          actionType := req.actionType
          title := String.ofList (Text.sliceUnits 200 (orElse req.title req.actionType).toList)
          description := String.ofList (Text.sliceUnits 2000 (orElse req.description "").toList)
          riskLevel := orElse req.riskLevel "MEDIUM"
          requestedAt := nowMs
          expiresAt := expiresAt
          affectedResources := (req.affectedResources.getD []).take 20
          proposedAction := req.proposedAction.filter Json.truthy
          paramsFingerprint := fingerprintParams sha req.actionType req.params
          estimatedCost := req.estimatedCost.getD .null
          estimatedChanges := req.estimatedChanges.getD .null
          status := .pending
          decidedAt := none
          decidedBy := none
          consumed := false }
      ({ s.tick.tick with approvals := s.approvals.set id record }, .ok record)

/-- One record in `_sweepExpired`. -/
def sweep (t : Int) (r : Approval η) : Approval η :=
  if (r.status = .pending ∨ r.status = .approved) ∧ r.expiresAt ≤ t then
    { r with status := .expired, decidedAt := some (r.decidedAt.getD t) }
  else r

def sweepExpired : ApprovalStore η :=
  { s.tick with approvals := s.approvals.mapValues (sweep (s.now clock)) }

/-- `_settle`. -/
def settle (id : ApprovalId) (status : ApprovalStatus) (decidedBy : Option String) :
    ApprovalStore η × Except String (Approval η) :=
  let swept := s.sweepExpired clock
  match swept.approvals.get id with
  | none => (swept, .error "approval not found")
  | some r =>
    if r.status ≠ .pending then (swept, .error ("approval is " ++ r.status.text))
    else
      let settled : Approval η :=
        { r with
          status := status
          decidedAt := some (swept.now clock)
          decidedBy := some (orElse decidedBy "user") }
      ({ swept.tick with approvals := swept.approvals.set id settled }, .ok settled)

def approve (id : ApprovalId) (decidedBy : Option String) := s.settle clock id .approved decidedBy

def deny (id : ApprovalId) (decidedBy : Option String) := s.settle clock id .denied decidedBy

def cancel (id : ApprovalId) (decidedBy : Option String) := s.settle clock id .cancelled decidedBy

/-- The second fingerprint that `checkAndConsume` accepts for a record. -/
def legacyFp (a : GatedAction) (r : Approval η) : Option η :=
  match a.proposedAction, r.proposedAction with
  | some p, _ =>
    some (fingerprintAction sha a.actionType a.params (stringify (orEmpty (some p))))
  | none, some p =>
    some (fingerprintAction sha a.actionType a.params (stringify (orEmpty (some p))))
  | none, none => none

def checkAndConsume (a : GatedAction) (approvalId : ApprovalId) :
    ApprovalStore η × Except String (Approval η) :=
  let swept := s.sweepExpired clock
  match swept.approvals.get approvalId with
  | none => (swept, .error "approval not found")
  | some r =>
    if r.runId ≠ a.runId then (swept, .error "approval belongs to a different run")
    else if r.actionType ≠ a.actionType then (swept, .error "approval is for a different action")
    else if r.expiresAt ≤ swept.now clock then
      if r.status ≠ .expired then
        let decidedAt := r.decidedAt.getD (swept.tick.now clock)
        let gone : Approval η := { r with status := .expired, decidedAt := some decidedAt }
        let read := if r.decidedAt.isSome then swept.tick else swept.tick.tick
        ({ read with approvals := swept.approvals.set approvalId gone }, .error "approval expired")
      else (swept.tick, .error "approval expired")
    else if r.status ≠ .approved then
      (swept.tick, .error ("approval is " ++ r.status.text))
    else if r.consumed then
      (swept.tick, .error "approval already consumed (replay rejected)")
    else if fingerprintParams sha a.actionType a.params ≠ r.paramsFingerprint ∧
        legacyFp sha a r ≠ some r.paramsFingerprint then
      (swept.tick, .error "approval does not match this action (fingerprint mismatch)")
    else
      let used : Approval η := { r with consumed := true }
      ({ swept.tick with approvals := swept.approvals.set approvalId used }, .ok used)

/-- Whether `peek` takes a record whose expiry it has found to be ahead. -/
def peekFingerprint (a : GatedAction) (r : Approval η) : Bool :=
  r.paramsFingerprint = fingerprintParams sha a.actionType a.params ||
    (match a.proposedAction with
      | none => false
      | some p => r.paramsFingerprint =
          fingerprintAction sha a.actionType a.params (stringify (orEmpty (some p)))) ||
    (match r.proposedAction with
      | none => false
      | some p => !(a.proposedAction.any Json.truthy) && r.paramsFingerprint =
          fingerprintAction sha a.actionType a.params (stringify (orEmpty (some p))))

/-- The search of `peek`: the first record that passes, and the readings of the clock made. -/
def find (a : GatedAction) : Nat → List (Approval η) → Option (Approval η) × Nat
  | n, [] => (none, n)
  | n, r :: rs =>
    if r.runId ≠ a.runId ∨ r.actionType ≠ a.actionType then find a n rs
    else if r.status ≠ .approved ∨ r.consumed then find a n rs
    else if r.expiresAt ≤ clock n then find a (n + 1) rs
    else if peekFingerprint sha a r then (some r, n + 1)
    else find a (n + 1) rs

def peek (a : GatedAction) : ApprovalStore η × Option (Approval η) :=
  let swept := s.sweepExpired clock
  let found := find sha clock a swept.ticks swept.approvals.values
  ({ swept with ticks := found.2 }, found.1)

def clearRun (runId : RunId) : ApprovalStore η :=
  { s with approvals := s.approvals.keepIf fun r => r.runId ≠ runId }

end ApprovalStore

end OrchestraAI.Execution
