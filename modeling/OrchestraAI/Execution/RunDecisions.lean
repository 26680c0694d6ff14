import OrchestraAI.Execution.Approvals
import OrchestraAI.Execution.Changesets

/-! # Decisions for a run

The operations of `execution/controller.js` on the approvals and the changesets that all
runs share. Events, and what git reports about the workspace, are left out; the policies
of the runs enter by their approval modes.
-/

namespace OrchestraAI.Execution

open Text (codeUnitCount)

structure ToolDefinition where
  name : String
  requiresApproval : Bool
  riskLevel : Option String

/-- `RISK_ORDER[_] ?? 0`. -/
def riskOrder : String → Nat
  | "MEDIUM" => 1
  | "HIGH" => 2
  | "CRITICAL" => 3
  | _ => 0

structure ApprovalNeed where
  needsApproval : Bool
  reason : String

def needsApproval (approvalMode : Option String) (definition : ToolDefinition)
    (riskLevel : Option String) : ApprovalNeed :=
  let mode := orElse approvalMode "APPROVE_WRITES"
  let risk := orElse riskLevel (orElse definition.riskLevel "LOW")
  if mode = "APPROVE_ALL" then ⟨true, "APPROVE_ALL"⟩
  else if definition.requiresApproval then
    if mode = "AUTO_APPROVE_LOW" ∧ risk = "LOW" then
      ⟨false, "AUTO_APPROVE_LOW: low-risk auto-approved"⟩
    else ⟨true, "tool requires approval: " ++ definition.name⟩
  else if mode = "APPROVE_WRITES" then
    if riskOrder "MEDIUM" ≤ riskOrder risk then ⟨true, "APPROVE_WRITES: " ++ risk ++ " action"⟩
    else ⟨false, "low-risk read/test auto-approved"⟩
  else if mode = "APPROVE_DANGEROUS" then
    if riskOrder "HIGH" ≤ riskOrder risk then ⟨true, "APPROVE_DANGEROUS: " ++ risk ++ " action"⟩
    else ⟨false, "MEDIUM and below auto-approved"⟩
  else if mode = "AUTO_APPROVE_LOW" then
    if risk = "LOW" then ⟨false, "AUTO_APPROVE_LOW"⟩
    else ⟨true, risk ++ " action needs approval"⟩
  else ⟨true, "default-deny"⟩

def applyPatch : ToolDefinition := ⟨"apply_patch", true, none⟩

/-- What `getRun` knows of a run. -/
structure RunScope where
  orgId : Option String
  projectId : Option String

structure Controller (η : Type) where
  workspace : Path
  productionSafeToolsOnly : Bool
  getRun : RunId → Option RunScope
  approvalMode : RunId → Option String
  approvals : ApprovalStore η
  changesets : ChangesetStore η
  disk : Disk

def safe (value : Option String) (fallback : String) : Text :=
  ((orElse value fallback).toList.flatMap fun c =>
    if c.isAlphanum ∨ c = '_' ∨ c = '-' then [c]
    else List.replicate (codeUnitCount [c]) '_').take 100

structure ApprovalBody where
  runId : Option RunId
  actionType : String
  title : Option String
  description : Option String
  riskLevel : Option String
  params : Option Json
  proposedAction : Option Json
  affectedResources : Option (List Json)
  estimatedChanges : Option Json
  estimatedCost : Option Json
  expiresInMs : Option ℚ

/-- `{ runId, ...body }`. -/
def ApprovalBody.spread (body : ApprovalBody) (runId : RunId) : ApprovalRequest where
  runId := body.runId.getD runId
  actionType := body.actionType
  title := body.title
  description := body.description
  riskLevel := body.riskLevel
  params := body.params
  proposedAction := body.proposedAction
  affectedResources := body.affectedResources
  estimatedChanges := body.estimatedChanges
  estimatedCost := body.estimatedCost
  expiresInMs := body.expiresInMs

inductive Reply (η : Type)
  | requested (approval : Approval η)
  | decided (approval : Approval η)
  | refused (error : String)
  | needsApproval (approvalId : ApprovalId)
  | applied (result : ChangesetStore.ApplyResult η)
  | rolledBack (result : ChangesetStore.RollbackResult η)
  | thrown (message : String)

/-- The reply has `ok: false`. -/
def Reply.isRefusal {η : Type} : Reply η → Bool
  | .refused _ | .needsApproval _ => true
  | .applied result => !result.isOk
  | .rolledBack (.refused _) | .rolledBack (.blocked _ _) => true
  | .rolledBack (.ok _ _) | .rolledBack (.thrown _) => false
  | .requested _ | .decided _ | .thrown _ => false

namespace Controller

variable {η : Type} [DecidableEq η] (sha : Text → η) (hex : η → String) (clock : Nat → Int)
variable (c : Controller η)

def workspaceFor (runId : RunId) : Path :=
  if c.productionSafeToolsOnly then
    let scope := (c.getRun runId).getD ⟨none, none⟩
    c.workspace ++ [safe scope.orgId "unassigned-org", safe scope.projectId "unassigned-project",
      safe (some runId) "run"]
  else c.workspace

def requestApproval (runId : RunId) (body : ApprovalBody) (id : ApprovalId) :
    Controller η × Reply η :=
  match c.approvals.request sha clock (body.spread runId) id with
  | (approvals, .error e) => ({ c with approvals := approvals }, .thrown e)
  | (approvals, .ok req) => ({ c with approvals := approvals }, .requested req)

def decideApproval (runId : RunId) (approvalId : ApprovalId) (decision : String) :
    Controller η × Reply η :=
  let settled :=
    if decision = "approve" then c.approvals.approve clock approvalId none
    else if decision = "deny" then c.approvals.deny clock approvalId none
    else c.approvals.cancel clock approvalId none
  match settled with
  | (approvals, .error e) => ({ c with approvals := approvals }, .refused e)
  | (approvals, .ok r) =>
    if r.runId ≠ runId then
      ({ c with approvals := approvals }, .refused "approval belongs to a different run")
    else ({ c with approvals := approvals }, .decided r)

/-- `files` of a changeset. -/
def filesJson (cs : Changeset η) : List Json :=
  cs.entries.map fun e => .obj [("path", .str (String.ofList e.path)),
    ("beforeHash", .str (hex e.beforeHash)), ("afterHash", .str (hex e.afterHash)),
    ("edits", .num (.ofNat e.edits.length))]

def changesetParams (changesetId : ChangesetId) : Json := .obj [("changesetId", .str changesetId)]

/-- The request that `applyChangeset` makes. -/
def applyRequest (runId : RunId) (changesetId : ChangesetId) (cs : Changeset η) :
    ApprovalRequest where
  runId := runId
  actionType := "apply_patch"
  title := some ("Apply changeset " ++ changesetId)
  description := some ("Files: " ++ ", ".intercalate (cs.entries.map fun e => String.ofList e.path) ++
    " (+" ++ toString cs.additions ++ "/-" ++ toString cs.deletions ++ ")")
  riskLevel := some cs.riskLevel
  params := some (changesetParams changesetId)
  proposedAction := some (.obj [("changesetId", .str changesetId),
    ("files", .arr (filesJson hex cs))])
  affectedResources := some (cs.entries.map fun e => .str (String.ofList e.path))
  estimatedChanges := some (.obj [("additions", .num (.ofNat cs.additions)),
    ("deletions", .num (.ofNat cs.deletions))])
  estimatedCost := none
  expiresInMs := none

/-- What the environment adds to the application of a changeset. -/
structure Circumstances where
  faults : ChangesetStore.Faults
  stamp : Nat → Nat
  now : Int

/-- The writing part of `applyChangeset`. -/
def write (runId : RunId) (changesetId : ChangesetId) (around : Circumstances) :
    Controller η × Reply η :=
  match c.changesets.apply sha (c.workspaceFor runId) c.disk around.faults around.stamp changesetId
      around.now with
  | (result, changesets, disk) =>
    ({ c with changesets := changesets, disk := disk }, .applied result)

def applyChangeset (runId : RunId) (changesetId : ChangesetId) (approvalId : Option ApprovalId)
    (newId : ApprovalId) (around : Circumstances) : Controller η × Reply η :=
  match c.changesets.get changesetId with
  | none => (c, .refused "changeset not found for run")
  | some cs =>
    if cs.runId ≠ runId then (c, .refused "changeset not found for run")
    else if (Execution.needsApproval (c.approvalMode runId) applyPatch
        (some (orElse (some cs.riskLevel) "MEDIUM"))).needsApproval then
      match approvalId.filter (· ≠ "") with
      | none =>
        match c.approvals.request sha clock (applyRequest hex runId changesetId cs) newId with
        | (approvals, .error e) => ({ c with approvals := approvals }, .thrown e)
        | (approvals, .ok req) => ({ c with approvals := approvals }, .needsApproval req.id)
      | some approvalId =>
        match c.approvals.checkAndConsume sha clock
            ⟨runId, "apply_patch", some (changesetParams changesetId), none⟩ approvalId with
        | (approvals, .error e) => ({ c with approvals := approvals }, .refused e)
        | (approvals, .ok _) =>
          write sha { c with approvals := approvals } runId changesetId around
    else write sha c runId changesetId around

def rollbackChangeset (runId : RunId) (changesetId : ChangesetId) (faults : ChangesetStore.Faults) :
    Controller η × Reply η :=
  match c.changesets.rollback sha (c.workspaceFor runId) c.disk faults changesetId with
  | (result, changesets, disk) =>
    ({ c with changesets := changesets, disk := disk }, .rolledBack result)

end Controller

inductive DecisionCall
  | requestApproval (body : ApprovalBody) (id : ApprovalId)
  | decideApproval (approvalId : ApprovalId) (decision : String)
  | applyChangeset (changesetId : ChangesetId) (approvalId : Option ApprovalId)
      (newId : ApprovalId) (around : Controller.Circumstances)
  | rollbackChangeset (changesetId : ChangesetId) (faults : ChangesetStore.Faults)

def Controller.call {η : Type} [DecidableEq η] (sha : Text → η) (hex : η → String)
    (clock : Nat → Int) (c : Controller η) (runId : RunId) :
    DecisionCall → Controller η × Reply η
  | .requestApproval body id => c.requestApproval sha clock runId body id
  | .decideApproval approvalId decision => c.decideApproval clock runId approvalId decision
  | .applyChangeset changesetId approvalId newId around =>
    c.applyChangeset sha hex clock runId changesetId approvalId newId around
  | .rollbackChangeset changesetId faults => c.rollbackChangeset sha runId changesetId faults

end OrchestraAI.Execution
