import OrchestraAI.Library.OrderedMap
import OrchestraAI.Library.RoundedGrid
import OrchestraAI.Library.Slot
import OrchestraAI.Library.TextUnits
import Mathlib.Data.List.DropRight
import Mathlib.Data.List.Sort
import Mathlib.Data.Rat.Floor

/-! # Memory records

`createMemoryRecord`, `classifyMemoryCandidate`, `consolidateCandidate` and `rankMemories` of
`intelligence/memory-intelligence.js`.
-/

namespace OrchestraAI.Memory

abbrev Field := Slot Text

namespace Field

@[match_pattern] abbrev text (t : Text) : Field := .value t

def given : Field → Option Text
  | .text t => if t = [] then none else some t
  | .undefined | .null => none

/-- `a || b`. -/
def or (a b : Field) : Field := if a.given.isSome then a else b

/-- `String(a || '')`. -/
def str (a : Field) : Text := a.given.getD []

/-- `a < b`, which is false of anything but texts. -/
def before : Field → Field → Bool
  | .text a, .text b => a < b
  | _, _ => false

theorem given_text {t : Text} (h : t ≠ []) : (text t).given = some t := if_neg h

theorem given_eq_some {a : Field} {t : Text} (h : a.given = some t) : a = .text t := by
  cases a with
  | undefined => cases h
  | null => cases h
  | value u =>
    rw [given] at h
    split at h
    · cases h
    · exact congrArg text (Option.some.inj h)

end Field

def shared : Text := "shared".toList

/-- The id of a run: a generated one is neither empty nor that of shared records. -/
abbrev RunId := { t : Text // t ≠ [] ∧ t ≠ shared }

def RunId.field (run : RunId) : Field := .text run.val

def RunId.ofField (a : Field) : Option RunId :=
  match a with
  | .text t => if h : t ≠ [] ∧ t ≠ shared then some ⟨t, h⟩ else none
  | .undefined | .null => none

theorem RunId.ofField_eq_some {a : Field} {run : RunId} : ofField a = some run ↔ a = run.field := by
  constructor
  · intro h
    cases a with
    | undefined => cases h
    | null => cases h
    | value t =>
      obtain ⟨_, hSome⟩ := Option.dite_none_right_eq_some.mp h
      rw [← Option.some.inj hSome]
      rfl
  · rintro rfl
    exact dif_pos run.property

inductive Scope
  | working
  | longterm
  deriving DecidableEq

inductive MemoryStatus
  | active
  | evicted
  | archived
  deriving DecidableEq

structure MemoryItem where
  id : Field
  type : Field
  title : Field
  snippet : Field
  content : Field
  source : Field
  sourceRunId : Field
  runId : Field
  orgId : Field
  projectId : Field
  userId : Field
  ownerId : Field
  /-- A finite number. -/
  importance : Option ℚ
  confidence : Option ℚ
  createdAt : Field
  updatedAt : Field
  lastUsedAt : Field
  expiresAt : Field
  tags : List Text
  status : Option MemoryStatus
  mergedFrom : List Text
  durable : Bool
  candidateApproved : Bool

structure MemoryRecord where
  id : Text
  scope : Scope
  type : Text
  title : Field
  snippet : Field
  content : Field
  source : Text
  sourceRunId : Field
  runId : Field
  orgId : Field
  projectId : Field
  userId : Field
  ownerId : Field
  importance : ℚ
  confidence : ℚ
  createdAt : Field
  updatedAt : Field
  lastUsedAt : Field
  expiresAt : Field
  tags : List Text
  status : MemoryStatus
  mergedFrom : List Text
  conflictWith : Option Text
  retrievalScore : Option ℚ
  /-- The runs that have written something of it. -/
  writers : List RunId
  /-- Whether it is a seed that is no run's. -/
  seeded : Bool

structure TextTools where
  redactSecrets : Text → Text
  findSecrets : Text → Bool
  keywordLike : Text → Bool
  lexicalOverlap : Text → Text → ℚ
  contradicts : Text → Text → Bool
  /-- The score of `scoreMemory` for a query, with the category of the objective and the query, at a
  time. -/
  score : (query objective now : Text) → MemoryRecord → ℚ
  /-- `a.localeCompare(b) <= 0`. -/
  localeLe : Text → Text → Bool

def memoryTypes : List Text :=
  ["preference", "fact", "project_context", "technical_decision", "lesson", "prior_solution",
    "constraint", "working_memory"].map String.toList

def clamp01 (x : ℚ) : ℚ := max 0 (min 1 x)

/-- `createMemoryRecord(input)` at a time, with the id that is made where the input has none. Of the
identity only the project and the source run are copied. -/
def createMemoryRecord (newId now : Text) (scope : Scope) (input : MemoryItem) : MemoryRecord where
  id := (input.id.or (.text newId)).str
  scope := scope
  type := if input.type.str ∈ memoryTypes then input.type.str else "working_memory".toList
  title := .text (Text.sliceUnits 300 input.title.str)
  snippet := .text (Text.sliceUnits 2000 (input.snippet.or input.content).str)
  content := match input.content with
    | .text t => .text (Text.sliceUnits 4000 t)
    | .undefined | .null => .undefined
  source := Text.sliceUnits 200 (input.source.or (.text "runtime".toList)).str
  sourceRunId := (input.sourceRunId.or input.runId).or .null
  runId := .undefined
  orgId := .undefined
  projectId := input.projectId.or .null
  userId := .undefined
  ownerId := .undefined
  importance := (input.importance.map clamp01).getD (1 / 2)
  confidence := (input.confidence.map clamp01).getD (1 / 2)
  createdAt := input.createdAt.or (.text now)
  updatedAt := input.updatedAt.or (.text now)
  lastUsedAt := input.lastUsedAt.or (.text now)
  expiresAt := input.expiresAt.or .null
  tags := input.tags.take 20
  status := input.status.getD .active
  mergedFrom := input.mergedFrom
  conflictWith := none
  retrievalScore := none
  writers := []
  seeded := false

inductive CandidateKind
  | secretOrUnsafe
  | explicitFact
  | unvettedModelOutput
  | toolObservation
  | userFact
  | workingNote
  deriving DecidableEq

structure Classification where
  kind : CandidateKind
  confidence : ℚ

def fromSource (word : String) (source : Text) : Bool :=
  (word ++ ":").toList.isPrefixOf (source.map Char.toLower)

def classifyMemoryCandidate (tools : TextTools) (input : MemoryItem) (explicit : Bool) :
    Classification :=
  let source := input.source.str
  let text := input.title.str ++ '\n' :: (input.snippet.or input.content).str
  let explicit := explicit || input.durable || input.candidateApproved
  let givenConfidence := input.confidence.map clamp01
  if tools.findSecrets text then ⟨.secretOrUnsafe, 9 / 10⟩
  else if explicit then ⟨.explicitFact, max (85 / 100) (givenConfidence.getD (85 / 100))⟩
  else if fromSource "model" source ∧ tools.keywordLike text then ⟨.unvettedModelOutput, 45 / 100⟩
  else if fromSource "tool" source then ⟨.toolObservation, 7 / 10⟩
  else if fromSource "user" source ∨ fromSource "api" source then
    ⟨.userFact, max (8 / 10) (givenConfidence.getD (8 / 10))⟩
  else ⟨.workingNote, givenConfidence.getD (1 / 2)⟩

def MemoryRecord.text (m : MemoryRecord) : Text := m.title.str ++ ' ' :: m.snippet.str

def similarity (tools : TextTools) (a b : MemoryRecord) : ℚ := tools.lexicalOverlap a.text b.text

inductive Consolidation
  | create (similarity : ℚ)
  | conflict (target : MemoryRecord) (similarity : ℚ)
  | merge (target merged : MemoryRecord) (similarity : ℚ)

/-- The first of the active records that are most like the candidate, and how much they are. -/
def mostSimilar (tools : TextTools) (candidate : MemoryRecord) (existing : List MemoryRecord) :
    Option (MemoryRecord × ℚ) :=
  existing.foldl (fun best e =>
    if e.status ≠ .active then best
    else
      let sim := similarity tools candidate e
      if best.elim 0 Prod.snd < sim then some (e, sim) else best) none

/-- Whether `best` keeps its snippet; `none` where it has none and reading its length throws. -/
def keepsSnippet (best candidate : MemoryRecord) : Option Bool :=
  match best.snippet, candidate.snippet with
  | .text b, .text c => some (c.length ≤ b.length)
  | _, _ => none

/-- `consolidateCandidate(candidate, existing)`; `none` where it throws. -/
def consolidateCandidate (tools : TextTools) (threshold : ℚ) (now : Text) (candidate : MemoryRecord)
    (existing : List MemoryRecord) : Option Consolidation :=
  match mostSimilar tools candidate existing with
  | none => some (.create 0)
  | some (best, bestSim) =>
    let rounded := RoundedGrid.toGrid 1000 bestSim
    if bestSim < threshold then some (.create rounded)
    else if tools.contradicts candidate.text best.text then some (.conflict best rounded)
    else
      (keepsSnippet best candidate).map fun keeps =>
        .merge best
          { best with
            snippet := if keeps then best.snippet else candidate.snippet
            importance := max best.importance candidate.importance
            confidence := RoundedGrid.toGrid 1000
              (min (95 / 100) (max best.confidence candidate.confidence + 5 / 100))
            updatedAt := .text now
            tags := (best.tags ++ candidate.tags).eraseDups.take 20
            mergedFrom := (best.mergedFrom ++ [candidate.id]).rtake 10 }
          rounded

/-- `rankMemories(memories, query, options)`. -/
def rankMemories (tools : TextTools) (query objective now : Text) (limit : Nat)
    (memories : List MemoryRecord) : List (MemoryRecord × ℚ) :=
  let scored := (memories.filter (·.status = .active)).map fun m =>
    (m, tools.score query objective now m)
  let ordered := scored.insertionSort fun a b =>
    b.2 < a.2 ∨ b.2 = a.2 ∧ tools.localeLe a.1.id b.1.id
  ordered.take (max 1 (min 100 limit))

end OrchestraAI.Memory
