import OrchestraAI.Library.JsonFields
import OrchestraAI.Library.TextReplace

/-! # What is persisted of a document

`sanitize` of `privacy.js` and the three functions that apply it: `persistedEvents`,
`persistedSnapshot` and `persistedRunSummary`. What they get is JSON already, so that `clone` is
a copy of it.
-/

namespace OrchestraAI.Privacy

open Json

inductive PrivacyMode
  | metadataOnly
  | standard
  | zeroRetention
  deriving DecidableEq, Repr

def normalizePrivacyMode (mode : String) : PrivacyMode :=
  if mode = "metadata_only" then .metadataOnly
  else if mode = "zero_retention" then .zeroRetention
  else .standard

def REDACTED : String := "[REDACTED_BY_PRIVACY]"

def CONTENT_KEYS : List String :=
  ["content", "text", "full", "delta", "prompt", "query", "userText",
    "userMessage", "snippet", "raw", "result", "output", "stdout", "stderr",
    "arguments", "input", "messages", "memory", "contextItems", "compressedItems",
    "discardedItems", "working", "longterm", "message", "description", "objective",
    "goal", "sourceTask", "providerMetadata", "providerPayload", "responseBody"]

/-- The texts that the alternatives of `SECRET_KEYS` match. -/
def secretTexts : List String :=
  ["apikey", "api_key", "api-key", "authorization", "bearer", "secret", "password",
    "sessiontoken", "session_token", "session-token", "accesstoken", "access_token",
    "access-token", "refreshtoken", "refresh_token", "refresh-token"]

/-- `SECRET_KEYS.test`. -/
def isSecret (key : String) : Bool :=
  secretTexts.any fun text => TextReplace.includes (key.toList.map Char.toLower) text.toList

def withholds (mode : PrivacyMode) (key : String) : Bool :=
  mode ≠ .standard && CONTENT_KEYS.contains key

def shapeMarker : Json → Json
  | .arr _ => .arr []
  | _ => .str REDACTED

mutual

def sanitize (mode : PrivacyMode) (key : String) : Json → Json
  | .null => .null
  | .bool b => .bool b
  | .num n => .num n
  | .str s => .str (if withholds mode key then REDACTED else s)
  | .arr elems => .arr (sanitizeElems mode key elems)
  | .obj fields => .obj (sanitizeFields mode fields)

def sanitizeElems (mode : PrivacyMode) (key : String) : List Json → List Json
  | [] => []
  | v :: vs => sanitize mode key v :: sanitizeElems mode key vs

def sanitizeFields (mode : PrivacyMode) : List (String × Json) → List (String × Json)
  | [] => []
  | (key, v) :: fields =>
    (key,
      if isSecret key then .str REDACTED
      else if withholds mode key then shapeMarker v
      else sanitize mode key v) :: sanitizeFields mode fields

end

/-- What `sanitize` writes for a field. -/
def sanitizeField (mode : PrivacyMode) (key : String) (v : Json) : Json :=
  if isSecret key then .str REDACTED
  else if withholds mode key then shapeMarker v
  else sanitize mode key v

theorem sanitizeElems_eq (mode : PrivacyMode) (key : String) (elems : List Json) :
    sanitizeElems mode key elems = elems.map (sanitize mode key) := by
  induction elems with
  | nil => rfl
  | cons v vs ih => rw [sanitizeElems, ih, List.map_cons]

theorem sanitizeFields_eq (mode : PrivacyMode) (fields : Fields) :
    sanitizeFields mode fields = rewrite (sanitizeField mode) fields := by
  induction fields with
  | nil => rfl
  | cons f fields ih =>
    rw [sanitizeFields, ih]
    rfl

theorem sanitize_obj (mode : PrivacyMode) (key : String) (fields : Fields) :
    sanitize mode key (.obj fields) = .obj (sanitizeFields mode fields) := by
  rw [sanitize]

theorem shapeMarker_shapeMarker (v : Json) : shapeMarker (shapeMarker v) = shapeMarker v := by
  cases v with
  | arr elems => rfl
  | _ => rfl

theorem sanitizeField_sanitizeField {mode : PrivacyMode} {key : String} {v : Json}
    (h : sanitize mode key (sanitize mode key v) = sanitize mode key v) :
    sanitizeField mode key (sanitizeField mode key v) = sanitizeField mode key v := by
  unfold sanitizeField
  split
  · rfl
  · split
    · exact shapeMarker_shapeMarker v
    · exact h

theorem sanitize_sanitize (mode : PrivacyMode) (v : Json) (key : String) :
    sanitize mode key (sanitize mode key v) = sanitize mode key v := by
  induction v using Json.induct generalizing key with
  | null => rfl
  | bool b => rfl
  | num n => rfl
  | str s =>
    rw [sanitize, sanitize]
    split
    · rfl
    · rfl
  | arr elems ih =>
    rw [sanitize, sanitize, sanitizeElems_eq, sanitizeElems_eq, List.map_map]
    exact congrArg Json.arr (List.map_congr_left fun v hv => ih v hv key)
  | obj fields ih =>
    rw [sanitize, sanitize, sanitizeFields_eq, sanitizeFields_eq]
    refine congrArg Json.obj (rewrite_rewrite fun f hf => ?_)
    exact sanitizeField_sanitizeField (ih f hf f.1)

theorem sanitizeFields_sanitizeFields (mode : PrivacyMode) (fields : Fields) :
    sanitizeFields mode (sanitizeFields mode fields) = sanitizeFields mode fields := by
  have hObject := sanitize_sanitize mode (.obj fields) ""
  rw [sanitize_obj, sanitize_obj] at hObject
  exact Json.obj.inj hObject

def Keeps (mode : PrivacyMode) (key : String) : Prop :=
  isSecret key = false ∧ withholds mode key = false

instance (mode : PrivacyMode) (key : String) : Decidable (Keeps mode key) :=
  inferInstanceAs (Decidable (_ ∧ _))

theorem lookup_replaced {mode : PrivacyMode} {key : String} (h : ¬ Keeps mode key) (v : Json)
    (path : Path) (n : Numeral) : lookup path (sanitizeField mode key v) ≠ some (.num n) := by
  have hText (s : String) : lookup path (.str s) ≠ some (.num n) := by
    cases path with
    | nil =>
      intro hEq
      cases hEq
    | cons step path =>
      intro hEq
      cases step with
      | key key => cases hEq
      | index i => cases hEq
  unfold sanitizeField
  split
  · exact hText _
  · rename_i hSecret
    split
    · cases v with
      | arr elems =>
        intro hEq
        cases path with
        | nil => cases hEq
        | cons step path =>
          cases step with
          | key key => cases hEq
          | index i => cases hEq
      | _ => exact hText _
    · rename_i hWithheld
      exact absurd ⟨Bool.not_eq_true _ ▸ hSecret, Bool.not_eq_true _ ▸ hWithheld⟩ h

/-- The numbers that are left are those that no replaced key leads to, each in its place. -/
theorem lookup_sanitize (mode : PrivacyMode) (path : Path) (v : Json) (key : String)
    (n : Numeral) : lookup path (sanitize mode key v) = some (.num n) ↔
      lookup path v = some (.num n) ∧ ∀ k, Step.key k ∈ path → Keeps mode k := by
  induction path generalizing v key with
  | nil =>
    have hNone : ∀ k, Step.key k ∈ ([] : Path) → Keeps mode k := fun k hk => by cases hk
    cases v with
    | num m => exact (and_iff_left hNone).symm
    | _ =>
      rw [sanitize]
      refine ⟨fun hEq => ?_, fun hEq => ?_⟩
      · cases hEq
      · cases hEq.1
  | cons step path ih =>
    cases step with
    | key k =>
      cases v with
      | obj fields =>
        rw [sanitize_obj, sanitizeFields_eq, lookup_key, lookup_key, field_rewrite]
        cases hField : field k fields with
        | none =>
          refine ⟨fun hEq => ?_, fun hEq => ?_⟩
          · cases hEq
          · cases hEq.1
        | some w =>
          rw [Option.map_some, Option.bind_some, Option.bind_some]
          by_cases hKeeps : Keeps mode k
          · have hSame : sanitizeField mode k w = sanitize mode k w := by
              unfold sanitizeField
              rw [if_neg (by simp [hKeeps.1]), if_neg (by simp [hKeeps.2])]
            rw [hSame, ih]
            refine and_congr_right fun _ => ⟨fun h k' hk' => ?_, fun h k' hk' => ?_⟩
            · obtain hHead | hTail := List.mem_cons.mp hk'
              · cases hHead
                exact hKeeps
              · exact h k' hTail
            · exact h k' (List.mem_cons_of_mem _ hk')
          · refine ⟨fun hEq => absurd hEq (lookup_replaced hKeeps w path n), fun hEq => ?_⟩
            exact absurd (hEq.2 k List.mem_cons_self) hKeeps
      | _ =>
        rw [sanitize]
        refine ⟨fun hEq => ?_, fun hEq => ?_⟩
        · cases hEq
        · cases hEq.1
    | index i =>
      have hKeys : (∀ k, Step.key k ∈ (Step.index i :: path) → Keeps mode k) ↔
          ∀ k, Step.key k ∈ path → Keeps mode k := by
        simp only [List.mem_cons, reduceCtorEq, false_or]
      rw [hKeys]
      cases v with
      | arr elems =>
        rw [sanitize, sanitizeElems_eq, lookup, lookup, List.getElem?_map]
        cases elems[i]? with
        | none =>
          refine ⟨fun hEq => ?_, fun hEq => ?_⟩
          · cases hEq
          · cases hEq.1
        | some w => exact ih w key
      | _ =>
        rw [sanitize]
        refine ⟨fun hEq => ?_, fun hEq => ?_⟩
        · cases hEq
        · cases hEq.1

/-- `v || w`. -/
def orElse (v : Option Json) (w : Json) : Json := (v.filter Json.truthy).getD w

def fieldsOf : Json → Fields
  | .obj fields => fields
  | _ => []

/-- `typeof v === 'object'`, and not null. -/
def isObject : Json → Bool
  | .arr _ | .obj _ => true
  | _ => false

def zero : Json := .num (.ofNat 0)

def persistedEvents (events : List Json) (mode : String) : List Json :=
  if normalizePrivacyMode mode = .zeroRetention then []
  else events.map (sanitize (normalizePrivacyMode mode) "")

def retainedContext (context : Option Json) : Json :=
  let fields := ((context.filter isObject).map fieldsOf).getD []
  .obj
    [("usedTokens", orElse (field "usedTokens" fields) zero),
      ("windowTokens", orElse (field "windowTokens" fields) zero),
      ("segments", orElse (field "segments" fields) (.arr [])),
      ("items", .arr [])]

def retainedExecution (execution : Option Json) : Json :=
  match execution.filter isObject with
  | none => .null
  | some v =>
    .obj
      [("status", orElse (field "status" (fieldsOf v)) .null),
        ("currentAction", orElse (field "currentAction" (fieldsOf v)) .null),
        ("pause", orElse (field "pause" (fieldsOf v)) .null)]

def noMemory : Json := .obj [("working", .arr []), ("longterm", .arr [])]

/-- The part of `persistedSnapshot` for the modes that keep no content. -/
def withoutContent (out : Fields) : Fields :=
  assign "memory" noMemory (assign "messages" (.arr []) out)

/-- The part of `persistedSnapshot` for zero retention. -/
def withoutPayloads (out : Fields) : Fields :=
  let out := assign "trace" (.arr []) out
  let out := assign "context" (retainedContext (field "context" out)) out
  let out := assign "memory" noMemory out
  assign "execution" (retainedExecution (field "execution" out)) out

def persistedSnapshot (snapshot : Fields) (mode : String) : Fields :=
  let out := sanitizeFields (normalizePrivacyMode mode) snapshot
  match normalizePrivacyMode mode with
  | .standard => out
  | .metadataOnly => withoutContent out
  | .zeroRetention => withoutPayloads (withoutContent out)

def persistedRunSummary (summary : Fields) (mode : String) : Fields :=
  let out := sanitizeFields (normalizePrivacyMode mode) summary
  if normalizePrivacyMode mode = .zeroRetention then assign "title" (.str "Private run") out
  else out

end OrchestraAI.Privacy
