import OrchestraAI.Execution.ApprovalSafety
import OrchestraAI.Execution.ChangesetFootprint
import OrchestraAI.Execution.RunDecisions

/-! # Isolation of decisions

What a call for one run leaves of the approvals, changesets and files of the others.
Every settling and consuming call first expires what has run out, whoever owns it, and
`decideApproval` compares the runs only after it has settled.
-/

namespace OrchestraAI.Execution

section Approvals

variable {η : Type} {clock : Nat → Int} {ticks : Nat}

/-- A record stays, or it expires, its time having come at one of the two readings of the clock
that follow. -/
def Lapses (clock : Nat → Int) (ticks : Nat) (r r' : Approval η) : Prop :=
  r' = r ∨ ((r.expiresAt ≤ clock ticks ∨ r.expiresAt ≤ clock (ticks + 1)) ∧
    ∃ decidedAt, r' = { r with status := .expired, decidedAt := decidedAt })

theorem Lapses.runId {r r' : Approval η} (h : Lapses clock ticks r r') : r'.runId = r.runId := by
  obtain rfl | ⟨-, decidedAt, rfl⟩ := h
  · rfl
  · rfl

def approvalsOf (m : OrderedMap ApprovalId (Approval η)) (runId : RunId) :
    OrderedMap ApprovalId (Approval η) := m.keepIf fun r => r.runId = runId

end Approvals

namespace Controller

variable {η : Type} (clock : Nat → Int) (c c' : Controller η) (runId : RunId)

def changesetsOf (s : ChangesetStore η) (runId : RunId) : ChangesetStore η :=
  s.keepIf fun cs => cs.runId = runId

/-- Isolation in the strict sense: what a call leaves to the other runs, and what it leaves when it
returns `ok: false`. -/
structure Isolated (reply : Reply η) : Prop where
  approvals : ∀ other ≠ runId,
    approvalsOf c'.approvals.approvals other = approvalsOf c.approvals.approvals other
  changesets : ∀ other ≠ runId, changesetsOf c'.changesets other = changesetsOf c.changesets other
  files : ∀ other ≠ runId, ∀ q, inside (c.workspaceFor other) q.path = true → c'.disk q = c.disk q
  refusal : reply.isRefusal = true → c'.approvals.approvals = c.approvals.approvals ∧
    c'.changesets = c.changesets

def Fresh : DecisionCall → Prop
  | .requestApproval _ id | .applyChangeset _ _ id _ => c.approvals.approvals.get id = none
  | .decideApproval _ _ | .rollbackChangeset _ _ => True

structure Confined : Prop where
  approvals : ∀ other ≠ runId, (approvalsOf c.approvals.approvals other).Rel
    (Lapses clock c.approvals.ticks) (approvalsOf c'.approvals.approvals other)
  changesets : ∀ other ≠ runId, changesetsOf c'.changesets other = changesetsOf c.changesets other
  files : Outside (c.workspaceFor runId) c.disk c'.disk

def Consumes (approvalId : ApprovalId) : Prop :=
  ∃ r, (c.approvals.sweepExpired clock).approvals.get approvalId = some r ∧ r.runId = runId ∧
    c'.approvals.approvals = (c.approvals.sweepExpired clock).approvals.set approvalId
      { r with consumed := true }

/-- What a call that returns `ok: false` leaves behind: nothing but what has expired, the approval
that it asks for, or the mark of a changeset that could not be applied. -/
inductive LeavesBehind : DecisionCall → Reply η → Prop
  | nothing {call reply}
      (hApprovals : c.approvals.approvals.Rel (Lapses clock c.approvals.ticks)
        c'.approvals.approvals)
      (hChangesets : c'.changesets = c.changesets) : LeavesBehind call reply
  | asked {changesetId approvalId newId around r} (hMissing : approvalId.filter (· ≠ "") = none)
      (hRun : r.runId = runId) (hPending : r.status = .pending)
      (hApprovals : c'.approvals.approvals = c.approvals.approvals.set newId r)
      (hChangesets : c'.changesets = c.changesets) :
      LeavesBehind (.applyChangeset changesetId approvalId newId around) (.needsApproval newId)
  | failed {changesetId approvalId newId around result}
      (hApprovals : c'.approvals = c.approvals ∨ ∃ given, approvalId = some given ∧
        Consumes clock c c' runId given)
      (hChangesets : c'.changesets = c.changesets ∨ ∃ cs, c.changesets.get changesetId = some cs ∧
        cs.runId = runId ∧ ∃ status, ChangesetStore.Spoiled status ∧
          c'.changesets = c.changesets.set changesetId { cs with status := status }) :
      LeavesBehind (.applyChangeset changesetId approvalId newId around) (.applied result)

structure Apart (call : DecisionCall) (reply : Reply η) : Prop where
  confined : Confined clock c c' runId
  files : c.productionSafeToolsOnly = true → ∀ other, c.workspaceFor other ≠ c.workspaceFor runId →
    ∀ q, inside (c.workspaceFor other) q.path = true → c'.disk q = c.disk q
  refusal : reply.isRefusal = true → LeavesBehind clock c c' runId call reply

variable {clock c c' runId}

variable [DecidableEq η]

def commitRequest (runId : RunId) : ApprovalRequest :=
  ApprovalBody.spread ⟨none, "git_commit", none, none, none, none, none, none, none, none, none⟩
    runId

def home : Controller Text where
  workspace := ["work".toList]
  productionSafeToolsOnly := true
  getRun _ := none
  approvalMode _ := none
  approvals := (ApprovalStore.request id (fun _ => 0)
    (ApprovalStore.request id (fun _ => 0) (.create none none) (commitRequest "run-2") "apr-1").1
    (commitRequest "run-1") "apr-3").1
  changesets := .empty
  disk _ := none

end Controller

end OrchestraAI.Execution
