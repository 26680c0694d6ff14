import OrchestraAI.Execution.Patch

/-! # User constraints on paths

`parseRuntimeCommand` and `ConstraintStore` of `execution/plans-episodes.js`, and what
the three ways of writing ask of them in `execution/controller.js`.
-/

namespace OrchestraAI.Execution

open Text (isSpace trim sliceUnits)

inductive RuntimeCommand
  | stop
  | pause
  | resume
  | constrainPaths (paths : List Text)
  | forbidPaths (paths : List Text)
  | useBranch (branch : Text)
  | addNote (note : Text)
  deriving DecidableEq

def isLineEnd (c : Char) : Bool := c ∈ ['\n', '\r', '\u2028', '\u2029']

def afterWord (word : String) (t : Text) : Option Text :=
  if (t.take word.length).map Char.toLower = word.toList then some (t.drop word.length) else none

def afterOneOf (words : List String) (t : Text) : Option Text := words.findSome? (afterWord · t)

/-- What follows `\s+`. -/
def afterSpace : Text → Option Text
  | c :: t => if isSpace c then some (t.dropWhile isSpace) else none
  | [] => none

/-- `(.+)$`. -/
def line (t : Text) : Option Text := if t ≠ [] && t.all (!isLineEnd ·) then some t else none

/-- What `only change …` is about. -/
def onlyObject (t : Text) : Option Text :=
  (afterWord "only " t).bind fun t =>
    (afterOneOf ["change", "touch", "modify", "edit"] t).bind fun t =>
      (afterSpace t).bind line

/-- What `never touch …` is about. -/
def neverObject (t : Text) : Option Text :=
  (afterOneOf ["don't", "do not", "never"] t).bind fun t =>
    (afterSpace t).bind fun t =>
      (afterOneOf ["touch", "modify", "change", "edit"] t).bind fun t =>
        (afterSpace t).bind line

/-- `rest.split(/[,;\s]+/)` without the empty pieces. -/
def splitPaths (rest : Text) : List Text :=
  (rest.splitOnP fun c => c = ',' || c = ';' || isSpace c).filter (· ≠ [])

def isBranchName (t : Text) : Bool :=
  t ≠ [] && t.length ≤ 128 && t.all fun c => c.isAlphanum || c ∈ ['.', '_', '/', '-']

def branchObject (t : Text) : Option Text :=
  (afterWord "use " t).bind fun t =>
    match ((afterWord "branch" t).bind afterSpace).filter isBranchName with
    | some branch => some branch
    | none => if isBranchName t then some t else none

def isWord (t : Text) (words : List String) : Bool :=
  words.any fun w => t = w.toList || t = w.toList ++ ['.']

def isResume (low : Text) : Bool :=
  isWord low ["resume"] ||
    match (afterWord "resume" low).bind afterSpace with
    | some rest => isWord rest ["execution"]
    | none => false

def parseRuntimeCommand (text : Text) : RuntimeCommand :=
  let t := trim text
  let low := t.map Char.toLower
  if isWord low ["stop", "cancel", "abort"] then .stop
  else if isWord low ["pause"] then .pause
  else if isResume low then .resume
  else
    match onlyObject t with
    | some rest => .constrainPaths ((splitPaths rest).take 20)
    | none =>
      match neverObject t with
      | some rest => .forbidPaths ((splitPaths rest).take 20)
      | none =>
        match branchObject t with
        | some branch => .useBranch branch
        | none => .addNote (sliceUnits 2000 t)

structure Constraints where
  forbidPaths : List Text
  onlyPaths : List Text
  branch : Option Text
  notes : List Text

namespace Constraints

def empty : Constraints := ⟨[], [], none, []⟩

/-- `[...new Set([...old, ...paths])].slice(0, 20)`. -/
def addPaths (old paths : List Text) : List Text := (old ++ paths).eraseDups.take 20

def applyCommand (cur : Constraints) : RuntimeCommand → Constraints
  | .constrainPaths paths => { cur with onlyPaths := addPaths cur.onlyPaths paths }
  | .forbidPaths paths => { cur with forbidPaths := addPaths cur.forbidPaths paths }
  | .useBranch branch => { cur with branch := some branch }
  | .addNote note =>
    { cur with notes := (cur.notes ++ [note]).drop ((cur.notes.length + 1) - 20) }
  | _ => cur

/-- A forbidden path as `checkWrite` looks for it. -/
def forbids (f p : Text) : Bool := p = f || (f ++ ['/']).isPrefixOf p || f.isSuffixOf p

/-- An allowed path as `checkWrite` looks for it. -/
def admits (f p : Text) : Bool := forbids f p || p.isSuffixOf f

def checkWrite (c : Constraints) (p : Text) : Option Text :=
  if c.forbidPaths.any (forbids · p) then
    some ("path forbidden by user constraint: ".toList ++ p)
  else if c.onlyPaths ≠ [] && !c.onlyPaths.any (admits · p) then
    some ("path outside user-constrained scope: ".toList ++ p)
  else none

end Constraints

abbrev ConstraintStore := OrderedMap String Constraints

namespace ConstraintStore

def constraints (s : ConstraintStore) (runId : String) : Constraints :=
  (s.get runId).getD .empty

/-- What `userMessage` does to the store. -/
def userMessage (s : ConstraintStore) (runId : String) (text : Text) : ConstraintStore :=
  match parseRuntimeCommand text with
  | .constrainPaths paths =>
    s.set runId ((s.constraints runId).applyCommand (.constrainPaths paths))
  | .forbidPaths paths => s.set runId ((s.constraints runId).applyCommand (.forbidPaths paths))
  | .useBranch branch => s.set runId ((s.constraints runId).applyCommand (.useBranch branch))
  | _ => s

def clearRun (s : ConstraintStore) (runId : String) : ConstraintStore := s.delete runId

def after (messages : List (String × Text)) : ConstraintStore :=
  messages.foldl (fun s m => s.userMessage m.1 m.2) .empty

end ConstraintStore

/-- The ways in which a run writes, with the paths that are asked for. -/
inductive WriteRequest
  | applyPatch (path : Text)
  | applyChangeset (paths : List Text)
  | gitAdd (paths : List Text)

namespace WriteRequest

/-- The reason for which the user's constraints deny a write. `_preGate` looks at a patch, and at
`git add` where there are only-paths; `applyChangeset` does not look at all. -/
def denied (c : Constraints) : WriteRequest → Option Text
  | .applyPatch path => if path = [] then none else c.checkWrite (path.dropWhile (· = '/'))
  | .applyChangeset _ => none
  | .gitAdd paths =>
    if c.onlyPaths ≠ [] && paths.any fun p => (c.checkWrite p).isSome then
      some "paths outside user-constrained scope".toList
    else none

def target (ws : Path) (path : Text) : Option Path :=
  match sandboxPath ws path with
  | .ok abs => if abs = ws then none else some abs
  | .error _ => none

/-- `gitAdd` checks a path in the sandbox and hands it to git as it was asked for. -/
def staged (ws : Path) (path : Text) : Option Path :=
  if path = ['.'] ∨ path.head? = some '-' then none
  else
    match sandboxPath ws path with
    | .ok _ =>
      if inside ws (resolve ws path) && resolve ws path ≠ ws then some (resolve ws path) else none
    | .error _ => none

def written (ws : Path) : WriteRequest → List Path
  | .applyPatch path => (target ws path).toList
  | .applyChangeset paths => (paths.mapM (target ws)).getD []
  | .gitAdd paths => if 20 < paths.length then [] else (paths.mapM (staged ws)).getD []

end WriteRequest

end OrchestraAI.Execution
