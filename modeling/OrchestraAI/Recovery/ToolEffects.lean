import OrchestraAI.Library.LabelledSystem
import OrchestraAI.Library.OrderedMap

/-! # Tool definitions and the last side effect of a run

The registry of `impl/tool-registry.js` as far as recovery reads it, the
classifier of `core/recovery-service.js` and the marks that the orchestrator
puts on the control record of a run around every tool execution. A cached class
and an effect also carry the definition they were computed from; the code keeps
no such field, the theorems speak about it.
-/

namespace OrchestraAI.Recovery

inductive RiskLevel
  | low
  | medium
  | high
  | critical
  deriving DecidableEq, Repr

/-- A registry record. `risk` is no field of `registerTool`; it is there only when a caller
of `seedTools` or `updateTool` passes one and the object spread copies it. -/
structure ToolRecord where
  name : String
  riskLevel : RiskLevel
  idempotent : Bool
  risk : Option String
  deriving DecidableEq, Repr

/-- What callers pass to `registerTool` and `seedTools`. -/
structure ToolInput where
  name : String
  riskLevel : Option RiskLevel := none
  idempotent : Bool := false
  risk : Option String := none
  deriving DecidableEq, Repr

/-- The fields present in the second argument of `updateTool`. -/
structure ToolUpdates where
  name : Option String := none
  riskLevel : Option RiskLevel := none
  idempotent : Option Bool := none
  risk : Option (Option String) := none
  deriving DecidableEq, Repr

abbrev InMemoryToolRegistry := OrderedMap String ToolRecord

namespace InMemoryToolRegistry

def bannedNames : List String :=
  ["shell", "exec", "run_any_command", "run_shell", "bash", "sh"]

def getTool (tools : InMemoryToolRegistry) (name : String) : Option ToolRecord := tools.get name

def registerTool (tools : InMemoryToolRegistry) (tool : ToolInput) :
    Except String InMemoryToolRegistry :=
  if tool.name ∈ bannedNames then
    .error s!"tool name not allowed: {tool.name} (raw shell execution is never exposed)"
  else
    .ok (tools.set tool.name
      { name := tool.name, riskLevel := tool.riskLevel.getD .low, idempotent := tool.idempotent,
        risk := none })

def unregisterTool (tools : InMemoryToolRegistry) (name : String) : InMemoryToolRegistry :=
  tools.delete name

def updateTool (tools : InMemoryToolRegistry) (name : String) (updates : ToolUpdates) :
    InMemoryToolRegistry :=
  match tools.get name with
  | none => tools
  | some tool =>
    tools.set name
      { name := updates.name.getD tool.name
        riskLevel := updates.riskLevel.getD tool.riskLevel
        idempotent := updates.idempotent.getD tool.idempotent
        risk := updates.risk.getD tool.risk }

def seedTools (tools : InMemoryToolRegistry) (seeds : List ToolInput) : InMemoryToolRegistry :=
  seeds.foldl (fun tools tool =>
    tools.set tool.name
      { name := tool.name, riskLevel := tool.riskLevel.getD .low, idempotent := tool.idempotent,
        risk := tool.risk }) tools

/-- The boot seeding of the execution controller: a canonical definition fills a gap. -/
def seedOne (tools : InMemoryToolRegistry) (tool : ToolInput) : InMemoryToolRegistry :=
  if tools.has tool.name then tools
  else
    tools.set tool.name
      { name := tool.name, riskLevel := tool.riskLevel.getD .low, idempotent := tool.idempotent,
        risk := none }

end InMemoryToolRegistry

structure SideEffectClass where
  destructive : Bool
  idempotent : Bool
  risk : String
  deriving DecidableEq, Repr

/-- `toLowerCase`; the words it is compared with are ASCII. -/
def toLowerCase (word : String) : String := String.ofList (word.toList.map Char.toLower)

/-- `String(risk || 'low').toLowerCase()`. -/
def riskWord : Option String → String
  | none => "low"
  | some word => if word = "" then "low" else toLowerCase word

def readOnlyTools : List String :=
  ["read_file", "search_code", "git_status", "git_diff", "git_log", "git_branch", "env_inspect",
    "web_search", "fetch_url"]

def classifySideEffect (name : String) (risk : Option String) : SideEffectClass :=
  let risk := riskWord risk
  { destructive := risk = "high" || risk = "critical"
    idempotent := name ∈ readOnlyTools || risk = "low"
    risk := risk }

def ToolRecord.classify (definition : ToolRecord) : SideEffectClass :=
  classifySideEffect definition.name definition.risk

inductive SideEffectState
  | notStarted
  | inFlight
  | completed
  | failed
  | unknown
  | other (word : String)
  deriving DecidableEq, Repr

/-- `ctrl.lastToolEffect`. -/
structure ToolEffect where
  state : SideEffectState
  tool : Option String
  idempotencyKey : Option String
  step : Option Nat
  destructive : Bool
  idempotent : Bool
  retryable : Bool
  startedAt : Option Nat
  settledAt : Option Nat
  code : Option String
  note : Option String
  definition : Option ToolRecord
  deriving DecidableEq, Repr

/-- The codes after which `_markToolSettled` forbids a retry. -/
def finalCodes : List String :=
  ["bad_params", "denied", "scope_violation", "path_escape", "not_found", "patch_conflict"]

def ToolEffect.settle (e : ToolEffect) (ok : Bool) (code : Option String) (now : Nat) :
    ToolEffect :=
  { e with
    state := if ok then .completed else .failed
    retryable := ok || code.getD "" ∉ finalCodes
    settledAt := some now
    code := (code.filter (· ≠ "")).or e.code }

def ToolEffect.supersede (e : ToolEffect) : ToolEffect :=
  if e.state = .inFlight then
    { e with state := .unknown, note := some "superseded by recovery plan" }
  else e

structure CachedClass where
  cls : SideEffectClass
  definition : Option ToolRecord
  deriving DecidableEq, Repr

/-- The registry and the fields of one run's control record that the marks use. -/
structure RunTools where
  tools : InMemoryToolRegistry
  toolRiskCache : OrderedMap String CachedClass
  lastToolEffect : Option ToolEffect

namespace RunTools

def classifyTool (s : RunTools) (toolName : String) : CachedClass :=
  match s.tools.getTool toolName with
  | some definition => ⟨definition.classify, some definition⟩
  | none => ⟨classifySideEffect toolName (some "medium"), none⟩

def markToolInFlight (s : RunTools) (toolName : String) (idempotencyKey : Option String)
    (stepNumber now : Nat) : RunTools :=
  let found := s.toolRiskCache.get toolName
  let cached := found.getD (s.classifyTool toolName)
  let cache := if s.toolRiskCache.size > 100 then .empty else s.toolRiskCache
  { s with
    toolRiskCache := if found.isSome then s.toolRiskCache else cache.set toolName cached
    lastToolEffect := some
      { state := .inFlight
        tool := some toolName
        idempotencyKey := idempotencyKey.filter (· ≠ "")
        step := some stepNumber
        destructive := cached.cls.destructive
        idempotent := cached.cls.idempotent
        retryable := true
        startedAt := some now
        settledAt := none
        code := none
        note := none
        definition := cached.definition } }

def markToolSettled (s : RunTools) (ok : Bool) (code : Option String) (now : Nat) : RunTools :=
  { s with lastToolEffect := s.lastToolEffect.map (·.settle ok code now) }

def supersede (s : RunTools) : RunTools :=
  { s with lastToolEffect := s.lastToolEffect.map (·.supersede) }

inductive Action
  | registerTool (tool : ToolInput)
  | unregisterTool (name : String)
  | updateTool (name : String) (updates : ToolUpdates)
  | seedTools (seeds : List ToolInput)
  | seedOne (tool : ToolInput)
  | markToolInFlight (toolName : String) (idempotencyKey : Option String) (stepNumber now : Nat)
  | markToolSettled (ok : Bool) (code : Option String) (now : Nat)
  | supersede
  deriving DecidableEq, Repr

def step (s : RunTools) : Action → Option RunTools
  | .registerTool tool =>
    match s.tools.registerTool tool with
    | .ok tools => some { s with tools }
    | .error _ => some s
  | .unregisterTool name => some { s with tools := s.tools.unregisterTool name }
  | .updateTool name updates => some { s with tools := s.tools.updateTool name updates }
  | .seedTools seeds => some { s with tools := s.tools.seedTools seeds }
  | .seedOne tool => some { s with tools := s.tools.seedOne tool }
  | .markToolInFlight toolName idempotencyKey stepNumber now =>
    some (s.markToolInFlight toolName idempotencyKey stepNumber now)
  | .markToolSettled ok code now => some (s.markToolSettled ok code now)
  | .supersede => some s.supersede

def create : RunTools := ⟨.empty, .empty, none⟩

def Start (s : RunTools) : Prop := s = create

end RunTools

end OrchestraAI.Recovery
