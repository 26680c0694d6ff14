import Mathlib.Data.List.DropRight
import OrchestraAI.Sandbox.ExecutorClient

/-! # The protocol of the sandbox worker

All checks of `validateRequest`, the response that the worker builds of an execution, and what the
client makes of this response.
-/

namespace OrchestraAI.Sandbox

open OrchestraAI.Execution (Path)
open Text (isSpace)
open TextReplace (includes)

def MAX_BODY_BYTES : Nat := 12 * 1024 * 1024
def MAX_TIMEOUT_MS : ℚ := 180000
def HARD_MAX_OUTPUT : ℚ := 512 * 1024

def ALLOWED_BINS : List Text :=
  ["node", "npm", "pytest", "python", "python3", "cargo", "go", "git"].map String.toList

/-- `SECRET_KEY_RE`. -/
def secretKeyWords : List String := sharedSecretWords

def SHELL_META : Text := ";&|$`()\x7b\x7d<>*?!#~\n\r\x00".toList

def isWordChar (c : Char) : Bool := c.isAlphanum || c = '_'

/-- `ENV_ASSIGN_RE`. -/
def assignsVariable : Text → Bool
  | c :: t => isWordChar c && !c.isDigit && (t.dropWhile isWordChar).head? = some '='
  | [] => false

def hostPath (arg : Text) : Bool :=
  arg.head? = some '/' || arg = "/etc/passwd".toList || "/etc/".toList.isPrefixOf arg ||
    "/root".toList.isPrefixOf arg || "/home/".toList.isPrefixOf arg

def checkArg (a : Text) : Except Denial Unit :=
  if a = [] ∨ 500 < (codeUnits (String.ofList a)).length then
    .error (denied "bad argument length")
  else if a.any (· ∈ SHELL_META) then
    .error (denied ("argument not allowed: " ++ String.ofList (Text.sliceUnits 60 a)))
  else if assignsVariable a then
    .error (denied "environment assignments are not allowed")
  else if '\x00' ∈ a ∨ '\n' ∈ a ∨ '\r' ∈ a then
    .error (denied "control characters are not allowed")
  else if ['.', '.'] ∈ a.splitOnP (fun c => c = '\\' || c = '/') then
    .error (denied "path traversal is not allowed")
  else if hostPath a then
    .error (denied "host paths outside the worker workspace are refused")
  else .ok ()

/-- The flags of `REDIRECT_FLAG_RES`, and whether only `=` or a blank may follow. -/
def redirectFlags : List (String × Bool) :=
  [("--prefix", false), ("--workspace", false), ("--node-options", true), ("--exec", false),
    ("--rootdir", true), ("--cache", false), ("--userconfig", true), ("--global", false)]

def endsFlag (strict : Bool) : Option Char → Bool
  | none => !strict
  | some c => if strict then c = '=' || c = ' ' else !isWordChar c

def redirects (line : Text) : Bool :=
  line.tails.any fun
    | c :: rest => isSpace c && redirectFlags.any fun flag =>
        flag.1.toList.isPrefixOf rest && endsFlag flag.2 (rest.drop flag.1.length).head?
    | [] => false

def validateCommand (command : Text) (args : List Text) : Except Denial Unit :=
  let joined := [' '].intercalate (command :: args)
  let first := args.headD []
  if command ∉ ALLOWED_BINS then
    .error (denied ("command not allowlisted: " ++ String.ofList (Text.sliceUnits 60 command)))
  else if 20 < args.length then .error (denied "too many arguments")
  else
    (args.forM checkArg).bind fun _ =>
      if includes joined "$(".toList ∨ includes joined "`".toList ∨ includes joined ['$', '\x7b'] then
        .error (denied "command substitution is not allowed")
      else if command = "node".toList ∧ first = [] then
        .error (badParams "node requires a workspace-relative file")
      else if command = "node".toList ∧ first.head? = some '-' then
        .error (denied "node flags are not allowed")
      else if (command = "python".toList ∨ command = "python3".toList) ∧
          (first = "-c".toList ∨ first = "--command".toList) then
        .error (denied "inline code execution is not allowed")
      else if redirects (' ' :: [' '].intercalate args) then
        .error (denied "workspace-redirecting flags are not allowed")
      else .ok ()

/-- What `validateRequest` returns, as far as an execution uses it. -/
structure Validated where
  command : Text
  args : List Text
  request : Request
  timeoutMs : ℚ
  maxOutputBytes : ℚ

/-- `Math.min(Math.max(n || fallback, least), most)`. -/
def clamp (least most n fallback : ℚ) : ℚ :=
  min (max (numberOr (.value (some n)) fallback) least) most

def Body.validated (b : Body) (request : Request) : Validated where
  command := b.command
  args := b.args
  request := request
  timeoutMs := clamp 1000 MAX_TIMEOUT_MS b.timeoutMs DEFAULT_TIMEOUT_MS
  maxOutputBytes := clamp 1024 HARD_MAX_OUTPUT b.maxOutputBytes DEFAULT_MAX_OUTPUT_BYTES

variable (decode : Text → Bytes) (numeral : ℚ → Numeral)

def Body.validateRequest (b : Body) : Except Denial Validated :=
  let secrets := findSecretKeys secretKeyWords 5 (b.json numeral)
  let networkMode := textOr (some b.networkMode) "disabled"
  if b.runId = [] then .error (badParams "runId is required")
  else if b.command = [] then .error (badParams "command is required")
  else if secrets ≠ [] then
    .error ⟨400, "secret_refused",
      "request must never carry secrets (found: " ++ ", ".intercalate (secrets.take 3) ++ ")"⟩
  else
    (validateCommand b.command b.args).bind fun _ =>
      if networkMode ∉ Client.networkModes then
        .error (badParams ("unknown networkMode: " ++ String.ofList networkMode))
      else if networkMode = "enabled".toList then
        .error (denied
          "networkMode=enabled is not supported by the reference worker (allowlist only)")
      else
        (Sandbox.validateRequest decode b.workspace b.collect).map b.validated

/-- `readBody` and the check of what it returns. -/
def Body.receive (b : Body) : Except Denial Validated :=
  if MAX_BODY_BYTES < (b.json numeral).byteSize then
    .error ⟨413, "oversized", "request body too large"⟩
  else b.validateRequest decode numeral

/-- What `readdir` and `lstat` find. -/
inductive Node
  | file (size : Nat)
  | other
  | dir (entries : List (Text × Node))

structure ManifestEntry where
  path : Text
  size : Option Nat

def MANIFEST_MAX_ENTRIES : Nat := 100

def joinRel (rel name : Text) : Text := if rel = [] then name else rel ++ '/' :: name

mutual

/-- The loop of `manifestWorkspace`, over the names of a directory. -/
def manifestEntries (out : List ManifestEntry) (rel : Text) :
    List (Text × Node) → List ManifestEntry
  | [] => out
  | (name, node) :: entries =>
    if MANIFEST_MAX_ENTRIES ≤ out.length then out
    else manifestEntries (manifestNode out (joinRel rel name) node) rel entries

def manifestNode (out : List ManifestEntry) (relPath : Text) : Node → List ManifestEntry
  | .file size => out ++ [⟨relPath, some size⟩]
  | .other => out ++ [⟨relPath, none⟩]
  | .dir entries => manifestEntries out relPath entries

end

/-- An error of `execFile`. -/
inductive ChildError
  /-- Killed with `SIGTERM`, or with a message that says so. -/
  | timedOut
  | failed (code : Option Nat)

/-- An execution, as the worker sees it when it builds its response. -/
structure Ended where
  dir : Path
  left : FileTree
  entries : List (Text × Node)
  error : Option ChildError
  stdout : Text
  stderr : Text
  durationMs : Nat

def Ended.exitCode (e : Ended) : Option Nat :=
  match e.error with
  | none => some 0
  | some .timedOut => none
  | some (.failed code) => some (code.getD 1)

def Ended.timedOut (e : Ended) : Bool :=
  match e.error with
  | some .timedOut => true
  | _ => false

def capBytes (text : Text) (n : ℚ) : Text :=
  let buf := Utf8.encode text
  if buf.length ≤ n then text else Utf8.decode (buf.rtake ⌊n⌋₊)

structure Response where
  ok : Bool
  exitCode : Option Nat
  stdout : Text
  stderr : Text
  timedOut : Bool
  durationMs : Nat
  isolated : Bool
  executorVersion : Text
  artifacts : List (Text × Bytes)
  workspaceManifest : List ManifestEntry

def Validated.respond (v : Validated) (e : Ended) : Response where
  ok := e.error.isNone
  exitCode := e.exitCode
  stdout := capBytes e.stdout v.maxOutputBytes
  stderr := capBytes e.stderr ⌊v.maxOutputBytes / 2⌋
  timedOut := e.timedOut
  durationMs := e.durationMs
  isolated := true
  executorVersion := "1.0.0".toList
  artifacts := (collectArtifacts e.dir e.left 0 v.request.collect).map fun a => (a.path, a.content)
  workspaceManifest := manifestEntries [] [] e.entries

def natJson (n : Nat) : Json := .num (.ofNat n)

def artifactJson (a : Text × Bytes) : Json :=
  .obj [("path", textJson a.1), ("size", natJson a.2.length),
    ("contentBase64", textJson (Base64.encode a.2))]

def entryJson (m : ManifestEntry) : Json :=
  .obj [("path", textJson m.path), ("size", m.size.elim .null natJson)]

def Response.fields (r : Response) : List (String × Json) :=
  [("ok", .bool r.ok),
    ("exitCode", r.exitCode.elim .null natJson),
    ("stdout", textJson r.stdout),
    ("stderr", textJson r.stderr),
    ("timedOut", .bool r.timedOut),
    ("durationMs", natJson r.durationMs),
    ("isolated", .bool r.isolated),
    ("executorVersion", textJson r.executorVersion),
    ("artifacts", .arr (r.artifacts.map artifactJson)),
    ("workspaceManifest", .arr (r.workspaceManifest.map entryJson))]

def Response.json (r : Response) : Json := .obj r.fields

namespace Client

/-- What `postJson` reads of a response at most. -/
def MAX_RESPONSE_BYTES : Nat := 1024 * 1024

def validateArtifacts : Nat → List (Text × Text) → Except Refusal Unit
  | _, [] => .ok ()
  | total, (path, contentBase64) :: artifacts =>
    (assertWorkspaceRelPath path).bind fun _ =>
      if contentBase64 ≠ [] ∧ !contentBase64.all isBase64 then
        .error ⟨"executor_malformed", "executor artifact content must be base64"⟩
      else if (COLLECT_MAX_TOTAL_BYTES : ℚ) * 4 / 3 + 1024 <
          (total + contentBase64.length : Nat) then
        .error ⟨"executor_malformed", "executor artifacts exceed byte cap"⟩
      else validateArtifacts (total + contentBase64.length) artifacts

def validateExecuteResponse (r : Response) : Except Refusal Unit :=
  if r.isolated ≠ true then
    .error ⟨"executor_malformed", "executor did not attest isolation (isolated=true required)"⟩
  else if COLLECT_MAX_PATHS < r.artifacts.length then
    .error ⟨"executor_malformed", "executor artifacts must be an array within the collect cap"⟩
  else
    (validateArtifacts 0 (r.artifacts.map fun a => (a.1, Base64.encode a.2))).bind fun _ =>
      if 200 < r.workspaceManifest.length then
        .error ⟨"executor_malformed", "executor workspace manifest must be a bounded array"⟩
      else .ok ()

/-- `postJson` and the check of what it returns. -/
def receive (r : Response) : Except Refusal Unit :=
  if MAX_RESPONSE_BYTES < r.json.byteSize then
    .error ⟨"executor_malformed", "executor response too large"⟩
  else validateExecuteResponse r

def waitMs (b : Body) : ℚ := min (min (b.timeoutMs + 5000) 120000) 120000

end Client

def Validated.killMs (v : Validated) : ℚ := v.timeoutMs + 2000

end OrchestraAI.Sandbox
