import Mathlib.Data.List.Dedup
import Mathlib.Data.Rat.Defs
import Mathlib.Data.Rat.Floor
import OrchestraAI.Library.CodeUnits
import OrchestraAI.Library.RoundedGrid
import OrchestraAI.Library.TextReplace

/-! # Context items

The items of `state/runtime-state.js`, their categories of `intelligence/context-engine.js`, and the
protected items of `impl/context-manager.js`. A number stands as the finite number that it is read as.

`scoreContextItem` of `intelligence/context-engine.js`, with rational numbers for floating-point
ones.
-/

namespace OrchestraAI.Context

open CodeUnits (Units)
open TextReplace (includes)

/-- `toLowerCase`; of the letters outside ASCII, those that have a letter of ASCII among their small
letters. -/
def lowerChar (c : Char) : Text :=
  if c = '\u212a' then ['k'] else if c = '\u0130' then ['i', '\u0307'] else [c.toLower]

def toLowerCase (t : Text) : Text := t.flatMap lowerChar

/-- The letters outside ASCII that have only letters of ASCII for their capitals. -/
def foreignCapitals : List (Char × String) :=
  [('\u00df', "SS"), ('\u0131', "I"), ('\u017f', "S"), ('\ufb00', "FF"), ('\ufb01', "FI"),
    ('\ufb02', "FL"), ('\ufb03', "FFI"), ('\ufb04', "FFL"), ('\ufb05', "ST"), ('\ufb06', "ST")]

def upperChar (c : Char) : Text :=
  match foreignCapitals.find? fun p => p.1 = c with
  | some p => p.2.toList
  | none => [c.toUpper]

/-- `toUpperCase`, as far as what comes out may be ASCII. -/
def toUpperCase (t : Text) : Text := t.flatMap upperChar

structure ItemMetadata where
  category : Text
  kind : Text
  contextCategory : Text
  /-- `protected === true`. -/
  isProtected : Bool
  neverCompress : Bool
  text : Text
  dependsOn : Option (List String)
  /-- What `Date.parse` makes of it, if it is there. -/
  createdAt : Option (Option ℚ)
  compressedText : Option Units

/-- Of a text that a template shows, `none` is `undefined`; the others are read as `v || ''`. -/
structure ContextItem where
  id : String
  kind : Option Text
  title : Option Text
  source : Text
  tokens : ℚ
  relevance : Option ℚ
  status : Option Text
  content : Text
  importance : Option ℚ
  dependencies : Option (List String)
  createdAt : Option (Option ℚ)
  /-- `protected === true`. -/
  isProtected : Bool
  contextCategory : Text
  metadata : ItemMetadata

/-- `a || b`. -/
def textOr (a b : Text) : Text := if a = [] then b else a

namespace ContextItem

/-- The status is not there, or `'KEEP'`. -/
def keeps (i : ContextItem) : Bool :=
  match i.status with
  | none => true
  | some s => s = [] || s = "KEEP".toList

/-- `item.dependencies || item.metadata.dependsOn || []`. -/
def needs (i : ContextItem) : List String := (i.dependencies.or i.metadata.dependsOn).getD []

end ContextItem

inductive Category
  | mustKeep
  | shouldKeep
  | optional
  | neverCompress
  deriving DecidableEq

/-- `CONTEXT_CATEGORIES`. -/
def contextCategories : List (String × Category) :=
  [("MUST_KEEP", .mustKeep), ("SHOULD_KEEP", .shouldKeep), ("OPTIONAL", .optional),
    ("NEVER_COMPRESS", .neverCompress)]

def isProtectedKind (i : ContextItem) : Bool :=
  let kind := String.ofList (toLowerCase (i.kind.getD []))
  let source := String.ofList (toLowerCase i.source)
  let category := String.ofList (toLowerCase (textOr i.metadata.category i.metadata.kind))
  category ∈ ["user_task", "constraint", "constraints", "success_criteria", "criteria", "criterion",
      "system"] ||
    source = "user" ||
    (kind = "chat" && includes ((i.title.getD []).map Char.toLower) "user task".toList) ||
    (kind = "constraint" || kind = "constraints") ||
    (kind = "criterion" || kind = "criteria" || kind = "success_criteria" ||
      kind = "success-criteria") ||
    (kind = "system" || source = "system")

/-- `isProtectedCategoryItem` of the engine. -/
def isProtectedCategoryItem (i : ContextItem) : Bool :=
  if i.isProtected then true
  else if i.metadata.isProtected || i.metadata.neverCompress then false
  else isProtectedKind i

/-- `isProtectedContextItem` of the manager. -/
def isProtectedContextItem (i : ContextItem) : Bool :=
  if i.isProtected then true
  else if i.metadata.isProtected || i.metadata.neverCompress then true
  else isProtectedKind i

def explicitCategory (i : ContextItem) : Option Category :=
  let explicit := String.ofList (toUpperCase (textOr i.metadata.contextCategory i.contextCategory))
  (contextCategories.find? fun c => c.1 = explicit).map Prod.snd

def categorizeContextItem (i : ContextItem) : Category :=
  match explicitCategory i with
  | some explicit =>
    if explicit = .neverCompress && isProtectedCategoryItem i then .mustKeep else explicit
  | none =>
    if i.metadata.isProtected || i.metadata.neverCompress || i.isProtected then .neverCompress
    else if isProtectedCategoryItem i then .mustKeep
    else if i.relevance.any fun relevance => 0.7 ≤ relevance then .shouldKeep
    else .optional

structure Weights where
  relevance : ℚ
  dependency : ℚ
  recency : ℚ
  importance : ℚ
  taskRequirement : ℚ
  tokenCostPenalty : ℚ
  penaltyPerKTokens : ℚ

/-- `DEFAULT_WEIGHTS`. -/
def defaultWeights : Weights := ⟨0.35, 0.15, 0.12, 0.18, 0.20, 0.25, 0.02⟩

structure ScoringContext where
  query : Text
  taskText : Text
  taskCategory : String
  weights : Weights
  requiredKinds : List Text
  nowMs : ℚ
  /-- The ids of the items. -/
  dependencyHits : List String

/-- `KIND_TASK_AFFINITY`. -/
def kindTaskAffinity : List (String × List (String × ℚ)) :=
  [("debug", [("file", 0.9), ("logs", 0.95), ("test", 0.9), ("tool_result", 0.85), ("chat", 0.7),
      ("search", 0.6), ("memory", 0.6)]),
    ("code", [("file", 0.9), ("tool_result", 0.8), ("chat", 0.7), ("search", 0.7), ("test", 0.7),
      ("memory", 0.55), ("logs", 0.5)]),
    ("research", [("search", 0.95), ("memory", 0.7), ("chat", 0.65), ("file", 0.5),
      ("tool_result", 0.5), ("test", 0.3), ("logs", 0.3)]),
    ("analysis", [("file", 0.8), ("memory", 0.75), ("tool_result", 0.75), ("chat", 0.65),
      ("search", 0.6), ("test", 0.5), ("logs", 0.6)]),
    ("extraction", [("file", 0.85), ("tool_result", 0.8), ("search", 0.7), ("chat", 0.6),
      ("memory", 0.5), ("test", 0.4), ("logs", 0.4)]),
    ("planning", [("memory", 0.85), ("chat", 0.8), ("file", 0.7), ("search", 0.65),
      ("tool_result", 0.6), ("test", 0.4), ("logs", 0.4)]),
    ("writing", [("memory", 0.75), ("chat", 0.8), ("file", 0.6), ("search", 0.6),
      ("tool_result", 0.4), ("test", 0.3), ("logs", 0.3)]),
    ("general", [("chat", 0.8), ("memory", 0.65), ("file", 0.6), ("search", 0.6),
      ("tool_result", 0.6), ("test", 0.5), ("logs", 0.5)])]

/-- `(KIND_TASK_AFFINITY[taskCategory] || KIND_TASK_AFFINITY.general)[kind] ?? 0.5`. -/
def affinity (taskCategory : String) (kind : Option Text) : ℚ :=
  let kinds := (kindTaskAffinity.lookup taskCategory).getD
    ((kindTaskAffinity.lookup "general").getD [])
  (kinds.lookup (String.ofList (kind.getD "undefined".toList))).getD 0.5

/-- A character that `tokenize` keeps. -/
def isTokenChar (c : Char) : Bool :=
  c ∈ "abcdefghijklmnopqrstuvwxyz0123456789_./-".toList

def tokenize (t : Text) : List Text :=
  ((toLowerCase t).splitOnP fun c => !isTokenChar c).filter fun word => 1 < word.length

def lexicalOverlap (query itemText : Text) : ℚ :=
  let q := (tokenize query).dedup
  let d := (tokenize itemText).dedup
  if q = [] ∨ d = [] then 0
  else
    let inter := q.countP (· ∈ d)
    inter / (q.length + d.length - inter)

def recencyScore (createdAt : Option ℚ) (nowMs : ℚ) : ℚ :=
  match createdAt with
  | none => 0.5
  | some t =>
    let ageMin := max 0 ((nowMs - t) / 60000)
    if ageMin ≤ 15 then 1
    else if ageMin ≤ 60 then 0.8
    else if ageMin ≤ 240 then 0.6
    else if ageMin ≤ 1440 then 0.4
    else 0.2

/-- `Math.max(0, Math.min(1, x))`. -/
def clamp (x : ℚ) : ℚ := max 0 (min 1 x)

def scoreContextItem (ctx : ScoringContext) (item : ContextItem) : ℚ :=
  let weights := ctx.weights
  let query := textOr ctx.query ctx.taskText
  let itemText := item.title.getD [] ++ ' ' :: item.source ++
    ' ' :: textOr item.metadata.text item.content
  let lexical := if query = [] then 0.3 else lexicalOverlap query itemText
  let baseRelevance := (item.relevance.map clamp).getD 0.5
  let relevance := if query = [] then baseRelevance else 0.6 * lexical + 0.4 * baseRelevance
  let dependency : ℚ :=
    if item.needs = [] then 0.5 else if item.needs.any (· ∈ ctx.dependencyHits) then 0.9 else 0.4
  let recency := recencyScore (item.createdAt.or item.metadata.createdAt).join ctx.nowMs
  let importance := (item.importance.map clamp).getD baseRelevance
  let taskRequirement :=
    if item.kind.any (· ∈ ctx.requiredKinds) then 1 else affinity ctx.taskCategory item.kind
  let tokens := max 0 item.tokens
  let tokenPenalty := min 0.5 (tokens / 1000 * weights.penaltyPerKTokens)
  let raw := relevance * weights.relevance + dependency * weights.dependency +
    recency * weights.recency + importance * weights.importance +
    taskRequirement * weights.taskRequirement - tokenPenalty * weights.tokenCostPenalty
  RoundedGrid.toGrid 1000 (clamp raw)

end OrchestraAI.Context
