import OrchestraAI.Economics.ModelCallRecord
import OrchestraAI.Execution.Constraints
import OrchestraAI.Library.Base64
import OrchestraAI.Library.JsonSize
import OrchestraAI.Library.TextReplace
import OrchestraAI.Sandbox.Worker

/-! # The client of the sandbox worker

The request that `executeIsolated` of `isolated-executor.js` sends, and its checks of the request
and of the response. What is sent is taken to be read as it was written.
-/

namespace OrchestraAI.Sandbox

open OrchestraAI.Economics (Field)
open TextReplace (includes)

structure ExecutionRequest where
  runId : Text
  tenantId : Option Text
  projectId : Option Text
  workspaceId : Option Text
  command : Text
  args : List Text
  cwd : Option Text
  timeoutMs : Field
  maxOutputBytes : Field
  networkMode : Option Text
  networkAllowlist : List Text
  /-- Paths, and contents in base 64. -/
  workspace : Option (List (Text × Text))
  collect : Option (List Text)

structure Body where
  runId : Text
  tenantId : Option Text
  projectId : Option Text
  workspaceId : Option Text
  command : Text
  args : List Text
  cwd : Text
  timeoutMs : ℚ
  maxOutputBytes : ℚ
  networkMode : Text
  networkAllowlist : List Text
  workspace : Option (List (Text × Text))
  collect : Option (List Text)

def DEFAULT_TIMEOUT_MS : ℚ := 30000
def DEFAULT_MAX_OUTPUT_BYTES : ℚ := 64 * 1024

/-- `Number(field) || fallback`. -/
def numberOr (field : Field) (fallback : ℚ) : ℚ :=
  match field.toNumber with
  | none => fallback
  | some n => if n = 0 then fallback else n

/-- `text ? text : null`. -/
def orNull (text : Option Text) : Option Text := text.filter (· ≠ [])

/-- `text || fallback`. -/
def textOr (text : Option Text) (fallback : String) : Text := (orNull text).getD fallback.toList

def ExecutionRequest.body (r : ExecutionRequest) : Body where
  runId := r.runId
  tenantId := orNull r.tenantId
  projectId := orNull r.projectId
  workspaceId := orNull r.workspaceId
  command := r.command
  args := r.args
  cwd := textOr r.cwd "/"
  timeoutMs := min (numberOr r.timeoutMs DEFAULT_TIMEOUT_MS) 180000
  maxOutputBytes := min (numberOr r.maxOutputBytes DEFAULT_MAX_OUTPUT_BYTES) (512 * 1024)
  networkMode := textOr r.networkMode "disabled"
  networkAllowlist := r.networkAllowlist.take 50
  workspace := r.workspace
  collect := r.collect

section Texts

-- The text that `JSON.stringify` gives a number.
variable (numeral : ℚ → Numeral)

def textJson (text : Text) : Json := .str (String.ofList text)

def textsJson (texts : List Text) : Json := .arr (texts.map textJson)

def fileJson (f : Text × Text) : Json :=
  .obj [("path", textJson f.1), ("contentBase64", textJson f.2)]

def Body.json (b : Body) : Json :=
  .obj ([("runId", textJson b.runId),
    ("tenantId", b.tenantId.elim .null textJson),
    ("projectId", b.projectId.elim .null textJson),
    ("workspaceId", b.workspaceId.elim .null textJson),
    ("command", textJson b.command),
    ("args", textsJson b.args),
    ("cwd", textJson b.cwd),
    ("timeoutMs", .num (numeral b.timeoutMs)),
    ("maxOutputBytes", .num (numeral b.maxOutputBytes)),
    ("networkMode", textJson b.networkMode),
    ("networkAllowlist", textsJson b.networkAllowlist)] ++
    (b.workspace.elim [] fun files => [("workspace", .obj [("files", .arr (files.map fileJson))])]) ++
    (b.collect.elim [] fun paths => [("collect", textsJson paths)]))

end Texts

def sharedSecretWords : List String :=
  ["apikey", "api_key", "api-key", "secret", "token", "password", "passwd", "bearer",
    "authorization", "privatekey", "private_key", "private-key", "session", "cookie", "stripe"]

/-- `SECRET_ENV_RE`. -/
def secretEnvWords : List String :=
  sharedSecretWords ++ ["openai", "anthropic", "openrouter", "aws_", "gcp_", "azure"]

def looksSecret (words : List String) (key : String) : Bool :=
  words.any fun word => includes (key.toList.map Char.toLower) word.toList

/-- `findSecretKeys`, for the levels that are left; an index of an array is no secret. -/
def findSecretKeys (words : List String) : Nat → Json → List String
  | levels + 1, .obj fields =>
    (fields.flatMap fun f =>
      (if looksSecret words f.1 then [f.1] else []) ++ findSecretKeys words levels f.2).dedup
  | levels + 1, .arr elems => (elems.flatMap (findSecretKeys words levels)).dedup
  | _, _ => []

structure Refusal where
  code : String
  message : String
  deriving DecidableEq

namespace Client

def SNAPSHOT_MAX_FILES : Nat := 200
def SNAPSHOT_MAX_TOTAL_BYTES : ℚ := 8 * 1024 * 1024
def SNAPSHOT_MAX_FILE_BYTES : ℚ := 1024 * 1024

def assertWorkspaceRelPath (p : Text) : Except Refusal Text :=
  if p = [] ∨ 500 < (codeUnits (String.ofList p)).length then
    .error ⟨"denied", "bad workspace path length"⟩
  else if '\x00' ∈ p ∨ '\n' ∈ p ∨ '\r' ∈ p then
    .error ⟨"denied", "control characters are not allowed in workspace paths"⟩
  else
    let norm := p.map fun c => if c = '\\' then '/' else c
    if norm.head? = some '/' ∨ startsWithDrive norm = true then
      .error ⟨"denied", "workspace paths must be relative"⟩
    else if ['.', '.'] ∈ norm.splitOn '/' then
      .error ⟨"denied", "path traversal is not allowed in workspace paths"⟩
    else .ok norm

/-- The loop of `validateWorkspaceSnapshot`; the bytes are those of the contents in base 64. -/
def validateFiles : Nat → List (Text × Text) → Except Refusal Unit
  | _, [] => .ok ()
  | total, (path, contentBase64) :: files =>
    (assertWorkspaceRelPath path).bind fun _ =>
      let bytes := contentBase64.length
      if !contentBase64.all isBase64 then
        .error ⟨"bad_params", "workspace file content must be base64"⟩
      else if SNAPSHOT_MAX_FILE_BYTES * 4 / 3 + 64 < bytes then
        .error ⟨"denied", "workspace file too large: " ++ String.ofList path⟩
      else if SNAPSHOT_MAX_TOTAL_BYTES * 4 / 3 + 1024 < (total + bytes : Nat) then
        .error ⟨"denied", "workspace snapshot exceeds total byte cap"⟩
      else validateFiles (total + bytes) files

def validateWorkspaceSnapshot (files : List (Text × Text)) : Except Refusal Unit :=
  if SNAPSHOT_MAX_FILES < files.length then
    .error ⟨"denied", s!"workspace snapshot exceeds {SNAPSHOT_MAX_FILES} files"⟩
  else validateFiles 0 files

def networkModes : List Text := ["disabled".toList, "allowlist".toList, "enabled".toList]

def hostPath (arg : Text) : Bool :=
  arg = "/etc/passwd".toList || "/etc/".toList.isPrefixOf arg || "/root".toList.isPrefixOf arg

def validateCollect (collect : List Text) : Except Refusal Unit :=
  if COLLECT_MAX_PATHS < collect.length then
    .error ⟨"bad_params",
      s!"collect must be an array of at most {COLLECT_MAX_PATHS} workspace-relative paths"⟩
  else (collect.mapM assertWorkspaceRelPath).map fun _ => ()

variable (numeral : ℚ → Numeral)

def validateExecuteRequest (b : Body) : Except Refusal Unit :=
  let hits := findSecretKeys secretEnvWords 5 (b.json numeral)
  if b.runId = [] then .error ⟨"bad_params", "runId is required"⟩
  else if b.command = [] then .error ⟨"bad_params", "command is required"⟩
  else if ¬ 0 < b.timeoutMs then .error ⟨"bad_params", "timeoutMs must be a positive number"⟩
  else if ¬ 0 < b.maxOutputBytes then
    .error ⟨"bad_params", "maxOutputBytes must be a positive number"⟩
  else if b.networkMode ∉ networkModes then
    .error ⟨"bad_params", "unknown networkMode: " ++ String.ofList b.networkMode⟩
  else if b.args.any hostPath then
    .error ⟨"denied", "host path outside worker workspace refused"⟩
  else if hits ≠ [] then
    .error ⟨"secret_refused",
      "isolated-executor request must never carry provider secrets (found: " ++
        ", ".intercalate (hits.take 5) ++ ")"⟩
  else
    (b.workspace.elim (.ok ()) validateWorkspaceSnapshot).bind fun _ =>
      b.collect.elim (.ok ()) validateCollect

end Client

end OrchestraAI.Sandbox
