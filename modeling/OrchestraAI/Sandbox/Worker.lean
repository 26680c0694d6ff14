import Mathlib.Data.List.Infix
import OrchestraAI.Execution.Workspace
import OrchestraAI.Library.LinkedTree
import OrchestraAI.Library.TextUnits

/-! # The sandbox worker

The checks of a request, `executeInEphemeralWorkspace` and `collectArtifacts` of
`sandbox-worker/server.js`, over a tree of files with symbolic links. A failed step of the worker
leaves the rest of its request undone; the command may do anything below the directory it is run
in, before the artifacts are collected.
-/

namespace OrchestraAI.Sandbox

open LinkedTree
open OrchestraAI.Execution (Path resolve inside)

abbrev Bytes := List UInt8

abbrev FileTree := Tree Text Bytes

def WS_MAX_FILES : Nat := 200
def WS_MAX_FILE_BYTES : Nat := 1024 * 1024
def WS_MAX_TOTAL_BYTES : Nat := 8 * 1024 * 1024
def COLLECT_MAX_PATHS : Nat := 20
def COLLECT_MAX_TOTAL_BYTES : Nat := 2 * 1024 * 1024

structure Denial where
  status : Nat
  code : String
  message : String
  deriving DecidableEq

def denied (message : String) : Denial := ⟨403, "denied", message⟩

def badParams (message : String) : Denial := ⟨400, "bad_params", message⟩

/-- `/^[A-Za-z]:\//`. -/
def startsWithDrive : Text → Bool
  | c :: ':' :: '/' :: _ => c.isAlpha
  | _ => false

def assertWorkspaceRelPath (p : Text) : Except Denial Text :=
  if p = [] ∨ 500 < (codeUnits (String.ofList p)).length then
    .error (denied "bad workspace path length")
  else if '\x00' ∈ p ∨ '\n' ∈ p ∨ '\r' ∈ p then
    .error (denied "control characters are not allowed in workspace paths")
  else
    let norm := p.map fun c => if c = '\\' then '/' else c
    if norm.head? = some '/' ∨ startsWithDrive norm = true then
      .error (denied "workspace paths must be relative")
    else if ['.', '.'] ∈ norm.splitOn '/' then
      .error (denied "path traversal is not allowed in workspace paths")
    else .ok norm

structure WorkspaceFile where
  path : Text
  content : Bytes

def isBase64 (c : Char) : Bool := c.isAlphanum || c = '+' || c = '/' || c = '='

/-- The loop of `validateWorkspaceSnapshot`, over paths and contents in base 64. -/
def validateFiles (decode : Text → Bytes) : Nat → List (Text × Text) →
    Except Denial (List WorkspaceFile)
  | _, [] => .ok []
  | total, (path, contentBase64) :: files => do
    let rel ← assertWorkspaceRelPath path
    if !contentBase64.all isBase64 then
      throw (badParams "workspace file content must be base64")
    let content := decode contentBase64
    if WS_MAX_FILE_BYTES < content.length then
      throw (denied ("workspace file too large: " ++ String.ofList (Text.sliceUnits 80 rel)))
    if WS_MAX_TOTAL_BYTES < total + content.length then
      throw (denied "workspace snapshot exceeds total byte cap")
    let rest ← validateFiles decode (total + content.length) files
    return ⟨rel, content⟩ :: rest

def validateWorkspaceSnapshot (decode : Text → Bytes) (files : List (Text × Text)) :
    Except Denial (List WorkspaceFile) :=
  if WS_MAX_FILES < files.length then
    .error (denied s!"workspace snapshot exceeds {WS_MAX_FILES} files")
  else validateFiles decode 0 files

structure Request where
  workspaceFiles : List WorkspaceFile
  collect : List Text

/-- The check of `validateRequest` on the paths to collect. -/
def validateCollect (collect : List Text) : Except Denial (List Text) :=
  if COLLECT_MAX_PATHS < collect.length then
    .error (badParams
      s!"collect must be an array of at most {COLLECT_MAX_PATHS} workspace-relative paths")
  else collect.mapM assertWorkspaceRelPath

/-- What `validateRequest` makes of the workspace and of the paths to collect. -/
def validateRequest (decode : Text → Bytes) (workspace : Option (List (Text × Text)))
    (collect : Option (List Text)) : Except Denial Request :=
  (workspace.elim (.ok []) (validateWorkspaceSnapshot decode)).bind fun workspaceFiles =>
    (collect.elim (.ok []) validateCollect).map fun collect => ⟨workspaceFiles, collect⟩

def maxLinks : Nat := 40

def locate (t : FileTree) (final : Tree.Final) (path : Path) : Option (Path × Nat) :=
  t.resolve final maxLinks [] (path.map .down)

def makeDir (t : FileTree) (path : Path) : Option FileTree :=
  if (locate t Tree.Final.follows path).any fun q => t.isDir q.1 then some t
  else
    (locate t ⟨false, true⟩ path).bind fun q =>
      if (t.entry q.1).isSome then none else t.put q.1 .dir

/-- `mkdir` with `recursive`. -/
def makeDirs (t : FileTree) (path : Path) : Option FileTree := path.inits.foldlM makeDir t

/-- `writeFile`, with the location of the file. -/
def writeFile (t : FileTree) (path : Path) (content : Bytes) : Option (FileTree × Path) :=
  (locate t ⟨true, true⟩ path).bind fun q =>
    (t.put q.1 (.file content)).map fun t => (t, q.1)

/-- `lstat` of a file, with its size. -/
def statFile (t : FileTree) (path : Path) : Option Nat :=
  (locate t Tree.Final.stops path).bind fun q =>
    match t.entry q.1 with
    | some (.file content) => some content.length
    | _ => none

/-- `readFile`, with the location of the file. -/
def readFile (t : FileTree) (path : Path) : Option (Path × Bytes) :=
  (locate t Tree.Final.follows path).bind fun q =>
    match t.entry q.1 with
    | some (.file content) => some (q.1, content)
    | _ => none

def materializeFile (dir : Path) (t : FileTree) (f : WorkspaceFile) :
    Option (FileTree × Path) :=
  let resolved := resolve dir f.path
  if !inside dir resolved then none
  else (makeDirs t resolved.dropLast).bind fun t => writeFile t resolved f.content

def materialize (dir : Path) (t : FileTree) : List WorkspaceFile → List Path × Option FileTree
  | [] => ([], some t)
  | f :: files =>
    match materializeFile dir t f with
    | none => ([], none)
    | some (t, location) =>
      let (written, left) := materialize dir t files
      (location :: written, left)

structure Artifact where
  path : Text
  content : Bytes
  /-- Where the file is. -/
  location : Path

def artifactOf (dir : Path) (t : FileTree) (rel : Text) : Option Artifact :=
  let resolved := resolve dir rel
  if !inside dir resolved then none
  else
    (statFile t resolved).bind fun size =>
      if WS_MAX_FILE_BYTES < size then none
      else
        (readFile t resolved).bind fun file =>
          if WS_MAX_FILE_BYTES < file.2.length then none else some ⟨rel, file.2, file.1⟩

/-- `collectArtifacts`, from a total. -/
def collectArtifacts (dir : Path) (t : FileTree) : Nat → List Text → List Artifact
  | _, [] => []
  | total, rel :: collect =>
    match artifactOf dir t rel with
    | none => collectArtifacts dir t total collect
    | some a =>
      if COLLECT_MAX_TOTAL_BYTES < total + a.content.length then []
      else a :: collectArtifacts dir t (total + a.content.length) collect

structure Outcome where
  /-- Where the ephemeral directory is. -/
  location : Path
  written : List Path
  /-- What the command leaves, if it was run. -/
  left : Option FileTree
  artifacts : List Artifact

/-- `executeInEphemeralWorkspace`, for the name that `mkdtemp` finds in the workspace root. -/
def executeInEphemeralWorkspace (workspaceRoot : Path) (name : Text)
    (command : FileTree → FileTree) (t : FileTree) (request : Request) : Option Outcome :=
  (makeDirs t workspaceRoot).bind fun t =>
    (locate t Tree.Final.follows workspaceRoot).bind fun root =>
      let location := root.1 ++ [name]
      if (t.entry location).isSome then none
      else
        (t.put location .dir).map fun t =>
          let dir := workspaceRoot ++ [name]
          let (written, materialized) := materialize dir t request.workspaceFiles
          let left := materialized.map command
          { location := location
            written := written
            left := left
            artifacts :=
              (left.map fun t => collectArtifacts dir t 0 request.collect).getD [] }

def handleExecute (decode : Text → Bytes) (workspaceRoot : Path) (name : Text)
    (command : FileTree → FileTree) (t : FileTree) (workspace : Option (List (Text × Text)))
    (collect : Option (List Text)) : Except Denial (Option Outcome) :=
  (validateRequest decode workspace collect).map fun request =>
    executeInEphemeralWorkspace workspaceRoot name command t request

end OrchestraAI.Sandbox
