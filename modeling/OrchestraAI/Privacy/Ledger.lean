import Mathlib.Data.List.DropRight
import OrchestraAI.Core.StateMachine
import OrchestraAI.Privacy.Sanitizer

/-! # The ledger of a persisted snapshot

`buildSnapshot` of `api/snapshot.js` and the numbers of its result that `persistedSnapshot`
keeps, and that to persist what was persisted changes nothing.
-/

namespace OrchestraAI.Privacy

open Json
open OrchestraAI.Core (TaskStatus)

def COST_LABELS : List (String × String) :=
  [("input_tokens", "Model input"), ("output_tokens", "Model output"),
    ("cached_input_tokens", "Cached input"), ("uncached_input_tokens", "Uncached input"),
    ("tool_execution", "Tools"), ("retrieval", "Retrieval"), ("switching", "Switching"),
    ("retry", "Retries"), ("evaluation", "Evaluation"),
    ("orchestration_overhead", "Overhead"),
    ("provider_reconciliation", "Provider usage reconciliation")]

def frontendStatus : TaskStatus → String
  | .created => "idle"
  | .planning => "planning"
  | .waitingForTool => "waiting"
  | .completed => "completed"
  | .failed => "failed"
  | .cancelled => "cancelled"
  | _ => "running"

/-- What `buildSnapshot` has of a run before it lays the snapshot out: the state of the run and of
its managers, with numbers rounded and lists of views mapped. -/
structure RunView where
  runId : String
  lastSeq : Json
  updatedAt : Json
  status : TaskStatus
  privacyMode : String
  currentModel : Json
  usedTokens : Json
  windowTokens : Json
  segments : List Json
  contextItems : List Json
  hitRate : Json
  hits : Json
  misses : Json
  cachedTokens : Json
  uncachedTokens : Json
  savedUsd : Json
  cacheState : Json
  cacheRecent : List Json
  workingMemory : List Json
  longtermMemory : List Json
  tools : List Json
  spentUsd : Json
  budgetUsd : Json
  projectedUsd : Json
  budgetRemaining : Json
  /-- `costBreakdown` of the budget, and that of the tools. -/
  costBreakdown : List (String × Json)
  toolsBreakdown : List (String × Json)
  pricingUnknown : Bool
  currentStepMs : Option Json
  avgStepMs : Json
  modelMs : Option Json
  toolMs : Option Json
  totalMs : Option Json
  elapsedLatency : Option Json
  latencySamples : List Json
  routing : Fields
  trace : List Json
  decisions : List Json
  changes : List Json
  messages : List Json
  series : List Json
  modelCalls : List Json
  economics : Option Json
  execution : Json
  intelligence : Json
  controlMode : Option Json
  providerId : Option Json
  preset : Option Json
  policyPreset : Option Json
  tokens : Option Json
  ownerId : Option Json
  orgId : Option Json
  projectId : Option Json

namespace RunView

variable (run : RunView)

def breakdownEntry (entry : String × Json) : Json :=
  .obj
    [("key", .str entry.1), ("label", .str ((COST_LABELS.lookup entry.1).getD entry.1)),
      ("usd", entry.2)]

def breakdown : List Json :=
  (if run.costBreakdown.isEmpty then run.toolsBreakdown else run.costBreakdown).map breakdownEntry

def contextView : Json :=
  .obj
    [("usedTokens", run.usedTokens), ("windowTokens", run.windowTokens),
      ("segments", .arr run.segments), ("items", .arr run.contextItems)]

def cacheView : Json :=
  .obj
    [("hitRate", run.hitRate), ("hits", run.hits), ("misses", run.misses),
      ("cachedTokens", run.cachedTokens), ("uncachedTokens", run.uncachedTokens),
      ("savedUsd", run.savedUsd), ("state", run.cacheState),
      ("recent", .arr (run.cacheRecent.take 20))]

def costView : Json :=
  .obj
    [("spentUsd", run.spentUsd), ("budgetUsd", run.budgetUsd),
      ("projectedUsd", run.projectedUsd), ("breakdown", .arr run.breakdown),
      ("source",
        .str
          (if run.pricingUnknown then
            "estimated (provider pricing unknown for one or more models)"
          else "metered (usage × provider pricing)"))]

def latencyView : Json :=
  .obj
    [("currentStepMs", orElse run.currentStepMs zero), ("avgStepMs", run.avgStepMs),
      ("modelMs", orElse run.modelMs zero), ("toolMs", orElse run.toolMs zero),
      ("totalMs", orElse run.totalMs (orElse run.elapsedLatency zero)),
      ("samples", .arr (run.latencySamples.rtake 40))]

def metaView : Json :=
  .obj
    [("mode", orElse run.controlMode (.str "demo")),
      ("privacyMode", .str (if run.privacyMode = "" then "standard" else run.privacyMode)),
      ("provider", orElse run.providerId .null), ("model", run.currentModel),
      ("preset", orElse run.preset (orElse run.policyPreset (.str "balanced"))),
      ("tokens",
        orElse run.tokens (.obj [("input", zero), ("output", zero), ("cached", zero)])),
      ("budgetRemaining", run.budgetRemaining)]

def layout : Fields :=
  [("runId", .str run.runId), ("lastSeq", run.lastSeq), ("updatedAt", run.updatedAt),
    ("status", .str (frontendStatus run.status)), ("internalStatus", .str run.status.text),
    ("activeModelId", run.currentModel), ("context", run.contextView),
    ("cache", run.cacheView),
    ("memory",
      .obj [("working", .arr run.workingMemory), ("longterm", .arr run.longtermMemory)]),
    ("tools", .arr run.tools), ("cost", run.costView), ("latency", run.latencyView),
    ("routing", .obj run.routing), ("trace", .arr (run.trace.rtake 200)),
    ("decisions", .arr (run.decisions.rtake 50)), ("changes", .arr (run.changes.rtake 100)),
    ("messages", .arr (run.messages.rtake 200)), ("series", .arr (run.series.rtake 200)),
    ("modelCalls", .arr (run.modelCalls.rtake 200)), ("economics", orElse run.economics .null),
    ("execution", run.execution), ("intelligence", run.intelligence), ("meta", run.metaView),
    ("ownership",
      .obj
        [("ownerId", orElse run.ownerId .null), ("orgId", orElse run.orgId .null),
          ("projectId", orElse run.projectId .null)])]

end RunView

def buildSnapshot (run : RunView) : Fields := persistedSnapshot run.layout run.privacyMode

def ledger : List Path :=
  [[.key "cost"], [.key "latency"], [.key "cache"], [.key "tools"], [.key "series"],
    [.key "modelCalls"], [.key "economics"], [.key "meta"],
    [.key "context", .key "usedTokens"], [.key "context", .key "windowTokens"]]

def InLedger (path : Path) : Prop := ∃ field ∈ ledger, field <+: path

/-- Every number that the run has for the ledger is in its place when its snapshot is persisted. -/
def LedgerKept (run : RunView) (mode : String) : Prop :=
  ∀ path n, InLedger path → lookup path (.obj run.layout) = some (.num n) →
    lookup path (.obj (persistedSnapshot (buildSnapshot run) mode)) = some (.num n)

structure Idempotent (mode : String) : Prop where
  events : ∀ events, persistedEvents (persistedEvents events mode) mode =
    persistedEvents events mode
  snapshot : ∀ snapshot, persistedSnapshot (persistedSnapshot snapshot mode) mode =
    persistedSnapshot snapshot mode
  summary : ∀ summary, persistedRunSummary (persistedRunSummary summary mode) mode =
    persistedRunSummary summary mode

/-- No number that the run has for the ledger stands under a key that is taken for a secret. -/
def Plain (run : RunView) : Prop :=
  ∀ path n, InLedger path → lookup path (.obj run.layout) = some (.num n) →
    ∀ k, Step.key k ∈ path → isSecret k = false

def Unlabelled (run : RunView) : Prop :=
  ∀ path n, InLedger path → lookup path (.obj run.layout) = some (.num n) →
    ∀ k, Step.key k ∈ path → k ∉ CONTENT_KEYS

theorem orElse_cases (v : Option Json) (w : Json) :
    orElse v w = w ∨ ∃ u, v = some u ∧ u.truthy = true ∧ orElse v w = u := by
  unfold orElse
  cases hTruthy : v.filter Json.truthy with
  | none => exact .inl rfl
  | some u =>
    obtain ⟨hSome, hu⟩ := Option.filter_eq_some_iff.mp hTruthy
    exact .inr ⟨u, hSome, hu, rfl⟩

theorem orElse_orElse (v : Option Json) (w : Json) :
    orElse (some (orElse v w)) w = orElse v w := by
  obtain hDefault | ⟨u, -, hu, hSame⟩ := orElse_cases v w
  · rw [hDefault]
    obtain hw | ⟨u, hSome, -, hSame⟩ := orElse_cases (some w) w
    · exact hw
    · rw [hSame, Option.some.inj hSome]
  · rw [hSame, orElse, Option.filter_some_pos hu, Option.getD_some]

/-- `sanitize` leaves the fields as they are. -/
def Stable (mode : PrivacyMode) (fields : Fields) : Prop := sanitizeFields mode fields = fields

theorem Stable.field {mode : PrivacyMode} {fields : Fields} (h : Stable mode fields) {key : String}
    {v : Json} (hField : field key fields = some v) : sanitizeField mode key v = v := by
  have hSame := field_rewrite (sanitizeField mode) key fields
  rw [← sanitizeFields_eq, h, hField] at hSame
  exact (Option.some.inj hSame).symm

theorem stable_sanitizeFields (mode : PrivacyMode) (fields : Fields) :
    Stable mode (sanitizeFields mode fields) := sanitizeFields_sanitizeFields mode fields

theorem sanitizeField_of_keeps {mode : PrivacyMode} {key : String} (h : Keeps mode key) (v : Json) :
    sanitizeField mode key v = sanitize mode key v := by
  unfold sanitizeField
  rw [if_neg (by simp [h.1]), if_neg (by simp [h.2])]

/-- The fields of an object that `sanitize` leaves as it is. -/
theorem stable_fieldsOf {mode : PrivacyMode} {key : String} {v : Json}
    (h : sanitize mode key v = v) : Stable mode (fieldsOf v) := by
  cases v with
  | obj fields =>
    rw [sanitize_obj] at h
    exact Json.obj.inj h
  | _ => rfl

theorem sanitizeField_orElse {mode : PrivacyMode} {fields : Fields} (h : Stable mode fields)
    (key : String) {w : Json} (hw : sanitizeField mode key w = w) :
    sanitizeField mode key (orElse (field key fields) w) = orElse (field key fields) w := by
  obtain hDefault | ⟨u, hSome, -, hSame⟩ := orElse_cases (field key fields) w
  · rw [hDefault, hw]
  · rw [hSame]
    exact h.field hSome

theorem sanitizeFields_assign (mode : PrivacyMode) (key : String) (v : Json) (fields : Fields) :
    sanitizeFields mode (assign key v fields) =
      assign key (sanitizeField mode key v) (sanitizeFields mode fields) := by
  rw [sanitizeFields_eq, sanitizeFields_eq, rewrite_assign]

section Retained

variable {mode : PrivacyMode} {fields : Fields}

theorem keeps_context (mode : PrivacyMode) : Keeps mode "context" := by
  cases mode <;> decide +kernel

theorem keeps_execution (mode : PrivacyMode) : Keeps mode "execution" := by
  cases mode <;> decide +kernel

/-- What `sanitize` makes of literals of the persisted documents. -/
theorem sanitizeField_literals (mode : PrivacyMode) :
    sanitizeField mode "messages" (.arr []) = .arr [] ∧
      sanitizeField mode "trace" (.arr []) = .arr [] ∧
      sanitizeField mode "items" (.arr []) = .arr [] ∧
      sanitizeField mode "segments" (.arr []) = .arr [] ∧
      sanitizeField mode "usedTokens" zero = zero ∧
      sanitizeField mode "windowTokens" zero = zero ∧
      sanitizeField mode "status" .null = .null ∧
      sanitizeField mode "currentAction" .null = .null ∧
      sanitizeField mode "pause" .null = .null ∧
      sanitizeField mode "title" (.str "Private run") = .str "Private run" := by
  cases mode <;> exact ⟨rfl, rfl, rfl, rfl, rfl, rfl, rfl, rfl, rfl, rfl⟩

theorem sanitizeField_retainedContext (h : Stable mode fields) :
    sanitizeField mode "context" (retainedContext (field "context" fields)) =
      retainedContext (field "context" fields) := by
  obtain ⟨-, -, hItems, hSegments, hUsed, hWindow, -⟩ := sanitizeField_literals mode
  have hContext : Stable mode
      (((field "context" fields).filter isObject).map fieldsOf |>.getD []) := by
    cases hField : (field "context" fields).filter isObject with
    | none => rfl
    | some v =>
      have hv := h.field (Option.filter_eq_some_iff.mp hField).1
      rw [sanitizeField_of_keeps (keeps_context mode)] at hv
      exact stable_fieldsOf hv
  rw [sanitizeField_of_keeps (keeps_context mode), retainedContext, sanitize_obj,
    sanitizeFields_eq]
  simp only [rewrite, List.map_cons, List.map_nil, sanitizeField_orElse hContext _ hUsed,
    sanitizeField_orElse hContext _ hWindow, sanitizeField_orElse hContext _ hSegments, hItems]

theorem sanitizeField_retainedExecution (h : Stable mode fields) :
    sanitizeField mode "execution" (retainedExecution (field "execution" fields)) =
      retainedExecution (field "execution" fields) := by
  obtain ⟨-, -, -, -, -, -, hStatus, hAction, hPause, -⟩ := sanitizeField_literals mode
  rw [sanitizeField_of_keeps (keeps_execution mode)]
  unfold retainedExecution
  cases hField : (field "execution" fields).filter isObject with
  | none => rfl
  | some v =>
    have hv := h.field (Option.filter_eq_some_iff.mp hField).1
    rw [sanitizeField_of_keeps (keeps_execution mode)] at hv
    have hExecution := stable_fieldsOf hv
    rw [sanitize_obj, sanitizeFields_eq]
    simp only [rewrite, List.map_cons, List.map_nil, sanitizeField_orElse hExecution _ hStatus,
      sanitizeField_orElse hExecution _ hAction, sanitizeField_orElse hExecution _ hPause]

theorem retainedContext_obj (used window segments items : Json) :
    retainedContext (some (.obj [("usedTokens", used), ("windowTokens", window),
      ("segments", segments), ("items", items)])) =
      .obj
        [("usedTokens", orElse (some used) zero), ("windowTokens", orElse (some window) zero),
          ("segments", orElse (some segments) (.arr [])), ("items", .arr [])] := rfl

theorem retainedContext_retainedContext (context : Option Json) :
    retainedContext (some (retainedContext context)) = retainedContext context := by
  let fields := ((context.filter isObject).map fieldsOf).getD []
  have hFields : retainedContext context =
      .obj
        [("usedTokens", orElse (field "usedTokens" fields) zero),
          ("windowTokens", orElse (field "windowTokens" fields) zero),
          ("segments", orElse (field "segments" fields) (.arr [])), ("items", .arr [])] := rfl
  rw [hFields, retainedContext_obj, orElse_orElse, orElse_orElse, orElse_orElse]

theorem retainedExecution_obj (status action pause : Json) :
    retainedExecution (some (.obj [("status", status), ("currentAction", action),
      ("pause", pause)])) =
      .obj
        [("status", orElse (some status) .null), ("currentAction", orElse (some action) .null),
          ("pause", orElse (some pause) .null)] := rfl

theorem retainedExecution_retainedExecution (execution : Option Json) :
    retainedExecution (some (retainedExecution execution)) = retainedExecution execution := by
  cases hObject : execution.filter isObject with
  | none =>
    have hNull : retainedExecution execution = .null := by rw [retainedExecution, hObject]
    rw [hNull]
    rfl
  | some v =>
    have hFields : retainedExecution execution =
        .obj
          [("status", orElse (field "status" (fieldsOf v)) .null),
            ("currentAction", orElse (field "currentAction" (fieldsOf v)) .null),
            ("pause", orElse (field "pause" (fieldsOf v)) .null)] := by
      rw [retainedExecution, hObject]
    rw [hFields, retainedExecution_obj, orElse_orElse, orElse_orElse, orElse_orElse]

theorem withoutContent_of_messages (h : field "messages" fields = some (.arr [])) :
    withoutContent fields = assign "memory" noMemory fields := by
  rw [withoutContent, assign_of_field h]

theorem withoutPayloads_withoutContent (fields : Fields) :
    withoutPayloads (withoutContent fields) =
      assign "execution" (retainedExecution (field "execution" fields))
        (assign "context" (retainedContext (field "context" fields))
          (assign "trace" (.arr []) (withoutContent fields))) := by
  have hContext : field "context" (assign "trace" (.arr []) (withoutContent fields)) =
      field "context" fields := by
    rw [withoutContent, field_assign_other (by decide), field_assign_other (by decide),
      field_assign_other (by decide)]
  have hMemory (v : Json) : field "memory" (assign "context" v
      (assign "trace" (.arr []) (withoutContent fields))) = some noMemory := by
    rw [withoutContent, field_assign_other (by decide), field_assign_other (by decide),
      field_assign_same]
  have hExecution (v : Json) : field "execution" (assign "context" v
      (assign "trace" (.arr []) (withoutContent fields))) = field "execution" fields := by
    rw [withoutContent, field_assign_other (by decide), field_assign_other (by decide),
      field_assign_other (by decide), field_assign_other (by decide)]
  unfold withoutPayloads
  simp only [hContext, assign_of_field (hMemory _), hExecution]

/-- A snapshot without content stays so, but for the marker that takes the place of the memory. -/
theorem withoutContent_sanitized (h : Stable mode fields) :
    withoutContent (sanitizeFields mode (withoutContent fields)) = withoutContent fields := by
  obtain ⟨hMessages, -⟩ := sanitizeField_literals mode
  have hSanitized : sanitizeFields mode (withoutContent fields) =
      assign "memory" (sanitizeField mode "memory" noMemory)
        (assign "messages" (.arr []) fields) := by
    rw [withoutContent, sanitizeFields_assign, sanitizeFields_assign, hMessages, h]
  rw [hSanitized, withoutContent_of_messages, assign_assign]
  · rfl
  · rw [field_assign_other (by decide), field_assign_same]

theorem withoutPayloads_of_fields {context execution : Json}
    (hTrace : field "trace" fields = some (.arr []))
    (hContext : field "context" fields = some context)
    (hRetained : retainedContext (some context) = context)
    (hMemory : field "memory" fields = some noMemory)
    (hExecution : field "execution" fields = some execution)
    (hKept : retainedExecution (some execution) = execution) :
    withoutPayloads fields = fields := by
  unfold withoutPayloads
  simp only [assign_of_field hTrace, hContext, hRetained, assign_of_field hContext,
    assign_of_field hMemory, hExecution, hKept, assign_of_field hExecution]

theorem withoutPayloads_sanitized (h : Stable .zeroRetention fields) :
    withoutPayloads (withoutContent
        (sanitizeFields .zeroRetention (withoutPayloads (withoutContent fields)))) =
      withoutPayloads (withoutContent fields) := by
  obtain ⟨hMessages, hTrace, -⟩ := sanitizeField_literals .zeroRetention
  let context := retainedContext (field "context" fields)
  let execution := retainedExecution (field "execution" fields)
  let marked := sanitizeField .zeroRetention "memory" noMemory
  let around : Fields → Fields := fun out =>
    assign "execution" execution (assign "context" context (assign "trace" (.arr []) out))
  have hPersisted : withoutPayloads (withoutContent fields) = around (withoutContent fields) :=
    withoutPayloads_withoutContent fields
  have hSanitized : sanitizeFields .zeroRetention (around (withoutContent fields)) =
      around (assign "memory" marked (assign "messages" (.arr []) fields)) := by
    simp only [around, withoutContent, sanitizeFields_assign, hMessages, hTrace, context,
      execution, sanitizeField_retainedContext h, sanitizeField_retainedExecution h, marked]
    rw [show sanitizeFields .zeroRetention fields = fields from h]
  -- the memory is set again, below what is assigned after it
  have hContent : withoutContent (around (assign "memory" marked
      (assign "messages" (.arr []) fields))) = around (withoutContent fields) := by
    have hMemory (v : Json) (out : Fields) :
        (field "memory" (assign "memory" v out)).isSome := by
      rw [field_assign_same]
      rfl
    rw [withoutContent_of_messages]
    · simp only [around]
      rw [assign_comm (show "memory" ≠ "execution" by decide),
        assign_comm (show "memory" ≠ "context" by decide),
        assign_comm (show "memory" ≠ "trace" by decide), assign_assign]
      · rfl
      · exact hMemory _ _
      · rw [field_assign_other (by decide)]
        exact hMemory _ _
      · rw [field_assign_other (by decide), field_assign_other (by decide)]
        exact hMemory _ _
    · simp only [around]
      rw [field_assign_other (by decide), field_assign_other (by decide),
        field_assign_other (by decide), field_assign_other (by decide), field_assign_same]
  rw [hPersisted, hSanitized, hContent]
  have hContext : field "context" (around (withoutContent fields)) = some context := by
    simp only [around]
    rw [field_assign_other (by decide), field_assign_same]
  refine withoutPayloads_of_fields ?_ hContext
    (retainedContext_retainedContext (field "context" fields)) ?_ (field_assign_same _ _ _)
    (retainedExecution_retainedExecution (field "execution" fields))
  · simp only [around]
    rw [field_assign_other (by decide), field_assign_other (by decide), field_assign_same]
  · simp only [around, withoutContent]
    rw [field_assign_other (by decide), field_assign_other (by decide),
      field_assign_other (by decide), field_assign_same]

end Retained

theorem idempotent (mode : String) : Idempotent mode := by
  constructor
  · intro events
    unfold persistedEvents
    split
    · rfl
    · rw [List.map_map]
      exact List.map_congr_left fun v _ => sanitize_sanitize _ v ""
  · intro snapshot
    have hStable := stable_sanitizeFields (normalizePrivacyMode mode) snapshot
    unfold persistedSnapshot
    cases hMode : normalizePrivacyMode mode with
    | standard => exact sanitizeFields_sanitizeFields _ snapshot
    | metadataOnly =>
      rw [hMode] at hStable
      exact withoutContent_sanitized hStable
    | zeroRetention =>
      rw [hMode] at hStable
      exact withoutPayloads_sanitized hStable
  · intro summary
    obtain ⟨-, -, -, -, -, -, -, -, -, hTitle⟩ :=
      sanitizeField_literals (normalizePrivacyMode mode)
    unfold persistedRunSummary
    split
    · simp only
      rw [sanitizeFields_assign, hTitle, sanitizeFields_sanitizeFields, assign_assign]
    · exact sanitizeFields_sanitizeFields _ summary

/-- What `persistedSnapshot` may set. -/
def replacedKeys : List String := ["messages", "memory", "trace", "context", "execution"]

theorem inLedger_cases {path : Path} (h : InLedger path) :
    (∃ key rest, path = .key key :: rest ∧ key ∉ replacedKeys) ∨
      ∃ total rest, path = .key "context" :: .key total :: rest ∧
        (total = "usedTokens" ∨ total = "windowTokens") := by
  obtain ⟨field, hField, rest, rfl⟩ := h
  simp only [ledger, List.mem_cons, List.not_mem_nil, or_false] at hField
  obtain rfl | rfl | rfl | rfl | rfl | rfl | rfl | rfl | rfl | rfl := hField
  · exact .inl ⟨_, _, rfl, by decide⟩
  · exact .inl ⟨_, _, rfl, by decide⟩
  · exact .inl ⟨_, _, rfl, by decide⟩
  · exact .inl ⟨_, _, rfl, by decide⟩
  · exact .inl ⟨_, _, rfl, by decide⟩
  · exact .inl ⟨_, _, rfl, by decide⟩
  · exact .inl ⟨_, _, rfl, by decide⟩
  · exact .inl ⟨_, _, rfl, by decide⟩
  · exact .inr ⟨_, _, rfl, .inl rfl⟩
  · exact .inr ⟨_, _, rfl, .inr rfl⟩

section Numbers

variable {snapshot : Fields} {mode : String} {path rest : Path} {n : Numeral}

theorem lookup_persistedSnapshot {key : String} (h : key ∉ replacedKeys) :
    lookup (.key key :: rest) (.obj (persistedSnapshot snapshot mode)) =
      lookup (.key key :: rest)
        (.obj (sanitizeFields (normalizePrivacyMode mode) snapshot)) := by
  simp only [replacedKeys, List.mem_cons, List.not_mem_nil, or_false, not_or] at h
  obtain ⟨hMessages, hMemory, hTrace, hContext, hExecution⟩ := h
  unfold persistedSnapshot
  simp only
  split
  · rfl
  · rw [withoutContent, lookup_assign_other hMemory, lookup_assign_other hMessages]
  · rw [withoutPayloads_withoutContent, lookup_assign_other hExecution,
      lookup_assign_other hContext, lookup_assign_other hTrace, withoutContent,
      lookup_assign_other hMemory, lookup_assign_other hMessages]

theorem keeps_total {total : String} (mode : PrivacyMode)
    (h : total = "usedTokens" ∨ total = "windowTokens") : Keeps mode total := by
  obtain rfl | rfl := h
  · cases mode <;> decide +kernel
  · cases mode <;> decide +kernel

theorem lookup_falsy {v : Json} (h : v.truthy = false) (hNumber : lookup rest v = some (.num n)) :
    rest = [] ∧ Json.num n = zero := by
  cases rest with
  | nil =>
    cases hNumber
    refine ⟨rfl, ?_⟩
    have hText : n.text = ['0'] := by simpa [Json.truthy] using h
    obtain ⟨text, hNonempty, hNumeric⟩ := n
    cases hText
    rfl
  | cons step rest =>
    cases v with
    | arr elems => cases h
    | obj fields => cases h
    | _ =>
      cases step with
      | key key => cases hNumber
      | index i => cases hNumber

theorem lookup_total {total : String} (h : total = "usedTokens" ∨ total = "windowTokens") :
    lookup (.key "context" :: .key total :: rest) (.obj (persistedSnapshot snapshot mode)) =
        lookup (.key "context" :: .key total :: rest)
          (.obj (sanitizeFields (normalizePrivacyMode mode) snapshot)) ∨
      (lookup (.key "context" :: .key total :: rest)
          (.obj (persistedSnapshot snapshot mode)) = lookup rest zero ∧
        ∀ n, lookup (.key "context" :: .key total :: rest)
            (.obj (sanitizeFields (normalizePrivacyMode mode) snapshot)) = some (.num n) →
          rest = [] ∧ Json.num n = zero) := by
  unfold persistedSnapshot
  simp only
  split
  · exact .inl rfl
  · left
    rw [withoutContent, lookup_assign_other (by decide), lookup_assign_other (by decide)]
  · let out := sanitizeFields (normalizePrivacyMode mode) snapshot
    let context := (((field "context" out).filter isObject).map fieldsOf).getD []
    have hPersisted : lookup (.key "context" :: .key total :: rest)
        (.obj (withoutPayloads (withoutContent out))) =
          lookup rest (orElse (field total context) zero) := by
      rw [withoutPayloads_withoutContent, lookup_assign_other (by decide), lookup_assign_same]
      obtain rfl | rfl := h
      · rfl
      · rfl
    have hBefore : lookup (.key "context" :: .key total :: rest) (.obj out) =
        (field total context).bind (lookup rest) := by
      rw [lookup_key]
      cases hField : field "context" out with
      | none => simp only [context, hField, Option.filter_none, Option.map_none]; rfl
      | some v =>
        simp only [context, hField]
        cases v with
        | obj fields => rfl
        | _ => rfl
    rw [hPersisted, hBefore]
    cases hField : field total context with
    | none => exact .inr ⟨rfl, fun n hNumber => by cases hNumber⟩
    | some v =>
      cases hTruthy : v.truthy with
      | true => exact .inl (by rw [orElse, Option.filter_some_pos hTruthy]; rfl)
      | false =>
        refine .inr ⟨?_, fun n hNumber => lookup_falsy hTruthy hNumber⟩
        rw [orElse, Option.filter_some_neg (by simp [hTruthy])]
        rfl

/-- What `persistedSnapshot` leaves of the sanitized numbers. -/
theorem lookup_of_sanitized (hLedger : InLedger path)
    (h : lookup path (.obj (sanitizeFields (normalizePrivacyMode mode) snapshot)) =
      some (.num n)) : lookup path (.obj (persistedSnapshot snapshot mode)) = some (.num n) := by
  obtain ⟨key, rest, rfl, hKey⟩ | ⟨total, rest, rfl, hTotal⟩ := inLedger_cases hLedger
  · rwa [lookup_persistedSnapshot hKey]
  · obtain hSame | ⟨hZero, hFalsy⟩ := lookup_total hTotal
    · rwa [hSame]
    · obtain ⟨rfl, hNumber⟩ := hFalsy n h
      rw [hZero, hNumber]
      rfl

/-- No replaced key leads to a number of the ledger in a persisted snapshot, and the number was there
before or is a total of the context. -/
theorem of_persisted (hLedger : InLedger path)
    (h : lookup path (.obj (persistedSnapshot snapshot mode)) = some (.num n)) :
    (∀ k, Step.key k ∈ path → Keeps (normalizePrivacyMode mode) k) ∧
      (lookup path (.obj snapshot) = some (.num n) ∨
        ∀ other k, Step.key k ∈ path → Keeps other k) := by
  have hSanitized {path : Path}
      (hNumber : lookup path (.obj (sanitizeFields (normalizePrivacyMode mode) snapshot)) =
        some (.num n)) : lookup path (.obj snapshot) = some (.num n) ∧
          ∀ k, Step.key k ∈ path → Keeps (normalizePrivacyMode mode) k := by
    rw [← sanitize_obj _ ""] at hNumber
    exact (lookup_sanitize _ path (.obj snapshot) "" n).mp hNumber
  obtain ⟨key, rest, rfl, hKey⟩ | ⟨total, rest, rfl, hTotal⟩ := inLedger_cases hLedger
  · rw [lookup_persistedSnapshot hKey] at h
    exact ⟨(hSanitized h).2, .inl (hSanitized h).1⟩
  · obtain hSame | ⟨hZero, -⟩ := lookup_total hTotal
    · rw [hSame] at h
      exact ⟨(hSanitized h).2, .inl (hSanitized h).1⟩
    · -- the zero is at the end of the path
      rw [hZero] at h
      cases rest with
      | cons step rest =>
        cases step with
        | key key => cases h
        | index i => cases h
      | nil =>
        have hKeeps (other : PrivacyMode) (k : String)
            (hk : Step.key k ∈ ([.key "context", .key total] : Path)) : Keeps other k := by
          obtain hContext | hTail := List.mem_cons.mp hk
          · cases hContext
            exact keeps_context _
          · cases List.mem_singleton.mp hTail
            exact keeps_total _ hTotal
        exact ⟨hKeeps _, .inr hKeeps⟩

theorem lookup_persisted (hLedger : InLedger path)
    (hKeeps : ∀ k, Step.key k ∈ path → Keeps (normalizePrivacyMode mode) k)
    (h : lookup path (.obj snapshot) = some (.num n)) :
    lookup path (.obj (persistedSnapshot snapshot mode)) = some (.num n) := by
  refine lookup_of_sanitized hLedger ?_
  rw [← sanitize_obj _ ""]
  exact (lookup_sanitize _ path (.obj snapshot) "" n).mpr ⟨h, hKeeps⟩

/-- The ledger of a run is kept in a mode, and persisting is idempotent, exactly when none of its
numbers stands under a key of a secret, and none under a key of content or both the mode and the
run's own are the standard one. -/
theorem ledger_kept_iff (run : RunView) (mode : String) :
    LedgerKept run mode ∧ Idempotent mode ↔
      Plain run ∧ (normalizePrivacyMode run.privacyMode = .standard ∧
        normalizePrivacyMode mode = .standard ∨ Unlabelled run) := by
  constructor
  · rintro ⟨hKept, -⟩
    have hKeeps {path : Path} {n : Numeral} (hLedger : InLedger path)
        (hNumber : lookup path (.obj run.layout) = some (.num n)) {k : String}
        (hk : Step.key k ∈ path) : Keeps (normalizePrivacyMode run.privacyMode) k ∧
          Keeps (normalizePrivacyMode mode) k := by
      obtain ⟨hAgain, hBuilt | hTotal⟩ := of_persisted hLedger (hKept path n hLedger hNumber)
      · exact ⟨(of_persisted hLedger hBuilt).1 k hk, hAgain k hk⟩
      · exact ⟨hTotal _ k hk, hAgain k hk⟩
    refine ⟨fun path n hLedger hNumber k hk => (hKeeps hLedger hNumber hk).1.1, ?_⟩
    by_cases hStandard : normalizePrivacyMode run.privacyMode = .standard ∧
        normalizePrivacyMode mode = .standard
    · exact .inl hStandard
    · refine .inr fun path n hLedger hNumber k hk hContent => hStandard ?_
      obtain ⟨⟨-, hOwn⟩, -, hOther⟩ := hKeeps hLedger hNumber hk
      constructor
      · simpa [withholds, hContent] using hOwn
      · simpa [withholds, hContent] using hOther
  · rintro ⟨hPlain, hMode⟩
    refine ⟨fun path n hLedger hNumber => ?_, idempotent mode⟩
    have hKeeps (m : PrivacyMode) (hm : m = .standard ∨ Unlabelled run) (k : String)
        (hk : Step.key k ∈ path) : Keeps m k := by
      refine ⟨hPlain path n hLedger hNumber k hk, ?_⟩
      obtain rfl | hFree := hm
      · rfl
      · simp [withholds, hFree path n hLedger hNumber k hk]
    refine lookup_persisted hLedger (hKeeps _ ?_) (lookup_persisted hLedger (hKeeps _ ?_) hNumber)
    · exact hMode.imp And.right id
    · exact hMode.imp And.left id

end Numbers

def measuredRun : RunView where
  runId := "run-1"
  lastSeq := zero
  updatedAt := .null
  status := .completed
  privacyMode := "standard"
  currentModel := .null
  usedTokens := zero
  windowTokens := zero
  segments := []
  contextItems := []
  hitRate := zero
  hits := zero
  misses := zero
  cachedTokens := zero
  uncachedTokens := zero
  savedUsd := zero
  cacheState := .str "COLD"
  cacheRecent := []
  workingMemory := []
  longtermMemory := []
  tools := []
  spentUsd := zero
  budgetUsd := zero
  projectedUsd := zero
  budgetRemaining := zero
  costBreakdown := []
  toolsBreakdown := []
  pricingUnknown := false
  currentStepMs := none
  avgStepMs := zero
  modelMs := none
  toolMs := none
  totalMs := none
  elapsedLatency := none
  latencySamples := []
  routing := []
  trace := []
  decisions := []
  changes := []
  messages := []
  series := []
  modelCalls := []
  economics := none
  execution := .null
  intelligence := .null
  controlMode := none
  providerId := none
  preset := none
  policyPreset := none
  tokens := some (.obj [("input", .num (.ofNat 120)), ("output", .num (.ofNat 30)),
    ("cached", zero)])
  ownerId := none
  orgId := none
  projectId := none

def inputTokens : Path := [.key "meta", .key "tokens", .key "input"]

/-- Its snapshot is persisted again when the mode of its project changes, and the totals of its
tokens are replaced by texts. -/
theorem token_totals_redacted : ¬ ∀ run mode, LedgerKept run mode ∧ Idempotent mode := by
  intro h
  have hLedger : InLedger inputTokens :=
    ⟨[.key "meta"], by simp [ledger], [.key "tokens", .key "input"], rfl⟩
  have hNumber : lookup inputTokens (.obj measuredRun.layout) = some (.num (.ofNat 120)) := by
    rfl
  have hKept := (h measuredRun "metadata_only").1 inputTokens _ hLedger hNumber
  have hRedacted : lookup inputTokens
      (.obj (persistedSnapshot (buildSnapshot measuredRun) "metadata_only")) =
        some (.str REDACTED) := by
    rfl
  rw [hRedacted] at hKept
  cases hKept

end OrchestraAI.Privacy
