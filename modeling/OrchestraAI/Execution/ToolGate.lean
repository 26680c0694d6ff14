import OrchestraAI.Execution.ConcurrentCalls
import OrchestraAI.Execution.Constraints
import OrchestraAI.Execution.RunDecisions

/-! # What the gate asks of a call

`_preGate` of `execution/controller.js` up to the approval: the canonical definitions of
`execution/tool-system.js` over a registry record, `execution/execution-policy.js`, the user's
constraints and `classifyRisk` of `execution/approvals.js`. A gate that throws lets nothing pass.
-/

namespace OrchestraAI.Execution.ToolGate

open Text (codeUnitCount sliceUnits)
open TextReplace (includes)

mutual

/-- `String(v)`; it throws on an object that has a `toString` of its own. -/
def display : Json → Option Text
  | .null => some "null".toList
  | .bool b => some (if b then "true".toList else "false".toList)
  | .num n => some n.text
  | .str s => some s.toList
  | .arr elems => (displayElems elems).map commaSeparated
  | .obj fields => if fields.any (·.1 = "toString") then none else some "[object Object]".toList

def displayElems : List Json → Option (List Text)
  | [] => some []
  | .null :: vs => (displayElems vs).map ([] :: ·)
  | v :: vs => (display v).bind fun t => (displayElems vs).map (t :: ·)

end

def property (v : Json) (key : String) : Option Json :=
  match v with
  | .obj fields => OrderedMap.lookup key fields
  | _ => none

/-- `v.key`, where it is truthy. -/
def truthyProperty (v : Json) (key : String) : Option Json := (property v key).filter Json.truthy

def prototypeNames : List String :=
  ["constructor", "__defineGetter__", "__defineSetter__", "hasOwnProperty", "__lookupGetter__",
    "__lookupSetter__", "isPrototypeOf", "propertyIsEnumerable", "toString", "valueOf", "__proto__",
    "toLocaleString"]

/-- `RISK_ORDER[risk] ?? 0`; what comes from the prototype is no number. -/
def rank (risk : String) : Option Nat := if risk ∈ prototypeNames then none else some (riskOrder risk)

/-- `compareRisk(a, b) > 0`. -/
def exceeds (a b : String) : Bool :=
  match rank a, rank b with
  | some m, some n => n < m
  | _, _ => false

structure ToolDefinition where
  name : String
  category : String
  riskLevel : String
  requiresApproval : Bool
  disabled : Bool
  deriving DecidableEq

/-- `TOOL_DEFINITIONS`. -/
def toolDefinitions : List ToolDefinition :=
  [⟨"read_file", "filesystem", "LOW", false, false⟩,
    ⟨"search_code", "search", "LOW", false, false⟩,
    ⟨"run_tests", "testing", "LOW", false, false⟩,
    ⟨"apply_patch", "code", "MEDIUM", true, false⟩,
    ⟨"git_status", "git", "LOW", false, false⟩,
    ⟨"git_diff", "git", "LOW", false, false⟩,
    ⟨"git_log", "git", "LOW", false, false⟩,
    ⟨"git_branch", "git", "LOW", false, false⟩,
    ⟨"git_create_branch", "git", "MEDIUM", true, false⟩,
    ⟨"git_add", "git", "MEDIUM", true, false⟩,
    ⟨"git_commit", "git", "MEDIUM", true, false⟩,
    ⟨"git_push", "git", "HIGH", true, true⟩,
    ⟨"env_inspect", "environment", "LOW", false, false⟩,
    ⟨"install_package", "environment", "HIGH", true, true⟩,
    ⟨"web_search", "network", "MEDIUM", false, true⟩,
    ⟨"fetch_url", "network", "MEDIUM", false, true⟩,
    ⟨"build_project", "testing", "LOW", false, false⟩,
    ⟨"deploy_preview", "deployment", "CRITICAL", true, true⟩,
    ⟨"browser_navigate", "browser", "HIGH", true, true⟩,
    ⟨"browser_snapshot", "browser", "MEDIUM", false, true⟩]

def canonical (toolName : String) : Option ToolDefinition :=
  toolDefinitions.find? fun d => d.name = toolName

/-- A record of the registry, which keeps it under the name of the tool. -/
structure RegistryRecord where
  category : Option String
  riskLevel : Option String
  permissions : List String
  requiresApproval : Bool
  disabled : Bool
  status : Option String

def given (value : Option String) : Option String := value.filter fun s => s ≠ ""

/-- What `seedTools` makes of a tool. -/
def RegistryRecord.seeded (tool : RegistryRecord) : RegistryRecord :=
  { tool with
    status := some (orElse tool.status "enabled")
    category := some (orElse tool.category "code")
    riskLevel := some (orElse tool.riskLevel "LOW") }

/-- What `_seedCatalog` makes of a tool that the registry has. -/
def RegistryRecord.seedCatalog (existing : RegistryRecord) (d : ToolDefinition) : RegistryRecord :=
  { existing with
    category := some (orElse existing.category d.category)
    riskLevel := some (orElse existing.riskLevel d.riskLevel)
    requiresApproval := existing.requiresApproval || d.requiresApproval }

/-- `seedOne`: what it makes of a tool that the registry does not have. -/
def ToolDefinition.seedOne (d : ToolDefinition) : RegistryRecord where
  category := some d.category
  riskLevel := some d.riskLevel
  permissions := []
  requiresApproval := d.requiresApproval
  disabled := d.disabled
  status := some (if d.disabled then "disabled" else "enabled")

def startsWith (s word : String) : Bool := word.toList.isPrefixOf s.toList

def inferCategory (name : String) : String :=
  if startsWith name "git_" then "git"
  else if name = "read_file" then "filesystem"
  else if name = "web_search" then "network"
  else if name = "search_code" then "search"
  else if name = "run_tests" ∨ name = "build_project" then "testing"
  else if name = "apply_patch" then "code"
  else if name = "env_inspect" ∨ name = "install_package" then "environment"
  else if name = "fetch_url" then "network"
  else if startsWith name "browser_" then "browser"
  else if startsWith name "deploy_" then "deployment"
  else "code"

def mentions (t : Text) (words : List String) : Bool := words.any fun word => includes t word.toList

def inferRisk (name : String) (permissions : List String) : String :=
  let perms := (" ".intercalate permissions).toList
  if mentions name.toList ["deploy", "push", "install"] || mentions perms ["deploy", "push", "install"]
  then "HIGH"
  else if mentions perms ["write"] || mentions name.toList ["patch", "commit", "branch", "add"] then
    "MEDIUM"
  else "LOW"

def normalizeDefinition (name : String) (r : RegistryRecord) : ToolDefinition where
  name := name
  category := orElse r.category (inferCategory name)
  riskLevel := orElse r.riskLevel (inferRisk name r.permissions)
  requiresApproval := r.requiresApproval
  disabled := r.disabled || r.status = some "disabled"

def overlay (r : RegistryRecord) (d canonical : ToolDefinition) : ToolDefinition :=
  { d with
    requiresApproval := d.requiresApproval || canonical.requiresApproval
    disabled := d.disabled || canonical.disabled
    riskLevel :=
      if (given r.riskLevel).isNone && exceeds canonical.riskLevel d.riskLevel then canonical.riskLevel
      else d.riskLevel
    category := if (given r.category).isNone then canonical.category else d.category }

def gatedDefinition (toolName : String) (r : RegistryRecord) : ToolDefinition :=
  match canonical toolName with
  | none => normalizeDefinition toolName r
  | some d => overlay r (normalizeDefinition toolName r) d

structure ExecutionPolicy where
  approvalMode : String
  allowedTools : List String
  deniedTools : List String
  allowDeploy : Bool
  allowPush : Bool
  allowInstall : Bool

/-- The approval mode of `AUTONOMY_PRESETS`. -/
def presetApprovalMode (autonomyMode : String) : String :=
  if autonomyMode = "read_only" then "APPROVE_ALL"
  else if autonomyMode = "autonomous" ∨ autonomyMode = "restricted_autonomous" then
    "APPROVE_DANGEROUS"
  else "APPROVE_WRITES"

def defaultPolicy (autonomyMode approvalMode : Option String)
    (allowedTools deniedTools : Option (List String)) : ExecutionPolicy where
  approvalMode := orElse approvalMode (presetApprovalMode (orElse autonomyMode "assisted"))
  allowedTools := allowedTools.getD []
  deniedTools := deniedTools.getD ["git_push", "deploy_preview", "install_package"]
  allowDeploy := false
  allowPush := false
  allowInstall := false

def isToolAllowedByPolicy (policy : ExecutionPolicy) (toolName : String) (d : ToolDefinition) :
    Option String :=
  if toolName ∈ policy.deniedTools then some ("tool denied by policy: " ++ toolName)
  else if policy.allowedTools ≠ [] ∧ toolName ∉ policy.allowedTools then
    some ("tool not in policy allowlist: " ++ toolName)
  else if d.disabled ∧ toolName ≠ "deploy_preview" ∧ toolName ∉ policy.allowedTools then
    some ("tool disabled by default: " ++ toolName)
  else if d.category = "deployment" ∧ ¬ policy.allowDeploy then some "deployment disabled by policy"
  else if toolName = "git_push" ∧ ¬ policy.allowPush then some "git push disabled by policy"
  else if toolName = "install_package" ∧ ¬ policy.allowInstall then
    some "package install disabled by policy"
  else none

/-- `policy.approvalMode || 'APPROVE_WRITES'`. -/
def ExecutionPolicy.mode (policy : ExecutionPolicy) : String :=
  orElse (some policy.approvalMode) "APPROVE_WRITES"

def asks (policy : ExecutionPolicy) (d : ToolDefinition) (risk : String) : Bool :=
  (needsApproval (some policy.approvalMode) ⟨d.name, d.requiresApproval, some d.riskLevel⟩
    (some risk)).needsApproval

/-- The length of `String((e && e.newText) || '')`. -/
def editChars (e : Json) : Option Nat :=
  match truthyProperty e "newText" with
  | none => some 0
  | some v => (display v).map codeUnitCount

def editsOf (p : Json) : List Json :=
  match property p "edits" with
  | some (.arr edits) => edits
  | _ => []

def totalChars (p : Json) : Option Nat := ((editsOf p).mapM editChars).map List.sum

/-- `/migrate|schema|auth|credential|secret|deploy/i` on the beginning of what is written. -/
def sensitiveArea (p : Json) : Bool :=
  mentions ((sliceUnits 2000 (stringify p)).map Char.toLower)
    ["migrate", "schema", "auth", "credential", "secret", "deploy"]

def smugglesCommand (p : Json) : Bool :=
  match property p "command" with
  | some (.str command) =>
    command ≠ "" && !(["npm test", "npm run test", "npm run build", "npm run lint", "pytest",
      "cargo test", "go test", "node "].any (startsWith command))
  | _ => false

/-- The raises of `classifyRisk`, in their order: when, and at least to what. -/
def raises (name : String) (p : Json) (totalChars : Nat) : List (Bool × String) :=
  [(name = "apply_patch" && (10 < (editsOf p).length || 20000 < totalChars), "HIGH"),
    (name = "apply_patch" && sensitiveArea p, "HIGH"),
    ((name = "git_commit" || name = "git_add") && (truthyProperty p "allowUnrelated").isSome, "HIGH"),
    (name = "git_create_branch", "MEDIUM"),
    (name = "git_push", "HIGH"),
    (name = "install_package", "HIGH"),
    (name = "fetch_url" || name = "web_search", "MEDIUM"),
    ((name = "run_tests" || name = "build_project") && smugglesCommand p, "CRITICAL"),
    (name = "deploy_preview", "CRITICAL")]

def raise (risk : String) (r : Bool × String) : String :=
  if r.1 && exceeds r.2 risk then r.2 else risk

def chars (name : String) (p : Json) : Option Nat :=
  if name = "apply_patch" then totalChars p else some 0

def classifyRisk (d : ToolDefinition) (params : Json) : Option String :=
  let p := orEmpty (some params)
  let base := orElse (some d.riskLevel) "LOW"
  (chars d.name p).map fun n => (raises d.name p n).foldl raise base

structure GateContext where
  policy : ExecutionPolicy
  constraints : Constraints
  /-- `isToolAllowed` of the run's own policy. -/
  isToolAllowed : String → Bool
  productionSafeToolsOnly : Bool
  isolatedExecutorUrl : Option String

def productionRefuses (g : GateContext) (toolName : String) : Bool :=
  g.productionSafeToolsOnly &&
    toolName ∉ ["read_file", "search_code", "git_status", "git_diff", "git_log", "git_branch"] &&
    !((toolName = "run_tests" || toolName = "build_project") && (given g.isolatedExecutorUrl).isSome)

def pathRefused (c : Constraints) (read : Text → Text) (path : Json) : Bool :=
  match display path with
  | none => true
  | some t => (c.checkWrite (read t)).isSome

def constraintsRefuse (c : Constraints) (toolName : String) (params : Json) : Bool :=
  if toolName = "apply_patch" then
    match truthyProperty params "path" with
    | none => false
    | some path => pathRefused c (fun t => t.dropWhile (· = '/')) path
  else if toolName = "git_add" ∧ c.onlyPaths ≠ [] then
    match truthyProperty params "paths" with
    | none => (params matches .null)
    | some (.arr paths) => paths.any (pathRefused c id)
    | some _ => true
  else false

def refuses (g : GateContext) (toolName : String) (d : ToolDefinition) (params : Json) : Bool :=
  productionRefuses g toolName || !g.isToolAllowed toolName ||
    (isToolAllowedByPolicy g.policy toolName d).isSome || constraintsRefuse g.constraints toolName params

def needOf (g : GateContext) (toolName : String) (d : ToolDefinition) (params : Json) : GateNeed :=
  if refuses g toolName d params then .denied
  else
    match classifyRisk d params with
    | none => .denied
    | some risk => if asks g.policy d risk then .approval else .free

/-- `_preGate`. -/
def gate {η : Type} [DecidableEq η] (sha : Text → η) (clock : Nat → Int) (g : GateContext)
    (a : ApprovalRun η) (c : ExecuteCall) (r : RegistryRecord) (newId : ApprovalId) :
    ApprovalRun η × GateAnswer :=
  preGate sha clock a c (needOf g c.toolName (gatedDefinition c.toolName r) c.params) newId

end OrchestraAI.Execution.ToolGate
