import Mathlib.Algebra.BigOperators.Group.List.Basic
import OrchestraAI.Context.Items
import OrchestraAI.Library.ComparatorSort
import OrchestraAI.Library.Worklist

/-! # Budgeted selection

`selectContext` of `intelligence/context-engine.js`. The loop of a dependency closure runs on fuel;
texts of reasons are left out, and `localeCompare` is a parameter.
-/

namespace OrchestraAI.Context

structure Visit where
  item : ContextItem
  score : ℚ
  mustKeep : Bool

inductive Reason
  | status (status : Text)
  | belowThreshold
  | overBudget (needed : ℚ) (closure : List String)

structure Omission where
  id : String
  title : Option Text
  reason : Reason
  score : ℚ
  category : Category

structure Chosen where
  item : ContextItem
  score : ℚ
  category : Category
  /-- It comes with an item that depends on it. -/
  closure : Bool

structure Selection where
  selected : List Chosen
  omitted : List Omission
  /-- The ids in `decided`. -/
  decided : List String
  usedTokens : ℚ
  overBudget : Bool

namespace Selection

def empty : Selection := ⟨[], [], [], 0, false⟩

def items (s : Selection) : List ContextItem := s.selected.map Chosen.item

def omittedIds (s : Selection) : List String := s.omitted.map Omission.id

def passOver (s : Selection) (v : Visit) (reason : Reason) : Selection :=
  { s with
    decided := v.item.id :: s.decided
    omitted := s.omitted ++ [⟨v.item.id, v.item.title, reason, v.score, categorizeContextItem v.item⟩] }

def choose (s : Selection) (c : Chosen) : Selection :=
  { s with
    decided := c.item.id :: s.decided
    selected := s.selected ++ [c]
    usedTokens := s.usedTokens + c.item.tokens }

def chooseDep (score : ContextItem → ℚ) (mustKeep : Bool) (s : Selection) (dep : ContextItem) :
    Selection :=
  if dep.id ∈ s.decided then s
  else
    s.choose ⟨dep, score dep, if mustKeep then .mustKeep else categorizeContextItem dep, true⟩

end Selection

/-- `queue.sort()`. -/
def sortIds (ids : List String) : List String :=
  ids.insertionSort fun a b => codeUnits a ≤ codeUnits b

/-- `byId.get`. -/
def byId (items : List ContextItem) (id : String) : Option ContextItem :=
  items.reverse.find? fun i => i.id = id

def admits (items : List ContextItem) (decided : List String) (id : String) : Option ContextItem :=
  (byId items id).filter fun dep => id ∉ decided && dep.keeps

def closureOf (items : List ContextItem) (fuel : Nat) (decided : List String) (item : ContextItem) :
    Option (List ContextItem) :=
  Worklist.run sortIds (admits items decided) ContextItem.needs fuel ⟨[item.id], item.needs, []⟩

def tokensOf (items : List ContextItem) : ℚ := (items.map ContextItem.tokens).sum

def fits (budget : Option ℚ) (tokens : ℚ) : Bool := budget.all fun b => tokens ≤ b

section Loop

variable (items : List ContextItem) (score : ContextItem → ℚ) (budget : Option ℚ) (threshold : ℚ)

/-- `trySelect`, and the body of the second loop. -/
def trySelect (fuel : Nat) (s : Selection) (v : Visit) : Option Selection :=
  if v.item.id ∈ s.decided then some s
  else if !v.item.keeps then some (s.passOver v (.status (v.item.status.getD [])))
  else if !v.mustKeep && v.score < threshold then some (s.passOver v .belowThreshold)
  else
    (closureOf items fuel s.decided v.item).map fun closure =>
      let need := v.item.tokens + tokensOf closure
      if !v.mustKeep && !fits budget (s.usedTokens + need) then
        s.passOver v (.overBudget need (closure.map ContextItem.id))
      else
        let chosen := ({ s with
          overBudget := s.overBudget || !fits budget (s.usedTokens + need) } : Selection).choose
            ⟨v.item, v.score, if v.mustKeep then .mustKeep else categorizeContextItem v.item, false⟩
        closure.foldl (Selection.chooseDep score v.mustKeep) chosen

end Loop

def Category.rank : Category → Nat
  | .shouldKeep => 0
  | .neverCompress => 1
  | .optional => 2
  | .mustKeep => 2

section Order

variable (localeCompare : String → String → Ordering)

def compareScored (a b : ContextItem × ℚ) : Ordering :=
  (compare b.2 a.2).then ((compare a.1.tokens b.1.tokens).then (localeCompare a.1.id b.1.id))

def compareRest (a b : ContextItem × ℚ) : Ordering :=
  (compare (categorizeContextItem a.1).rank (categorizeContextItem b.1).rank).then
    (compareScored localeCompare a b)

def visits (items : List ContextItem) (score : ContextItem → ℚ) : List Visit :=
  let scored := ComparatorSort.sortBy (compareScored localeCompare)
    (items.map fun item => (item, score item))
  let must := scored.filter fun e => categorizeContextItem e.1 = .mustKeep
  let rest := ComparatorSort.sortBy (compareRest localeCompare)
    (scored.filter fun e => categorizeContextItem e.1 ≠ .mustKeep)
  must.map (fun e => ⟨e.1, e.2, true⟩) ++ rest.map fun e => ⟨e.1, e.2, false⟩

end Order

/-- The options, with the numbers that they are read as; a budget that is not finite is none. -/
structure SelectOptions where
  tokenBudget : Option ℚ
  relevanceThreshold : Option ℚ
  scoring : ScoringContext

namespace SelectOptions

variable (opts : SelectOptions)

/-- `Math.max(0, Number(opts.tokenBudget) || 0) || Infinity`. -/
def budget : Option ℚ := opts.tokenBudget.filter fun b => 0 < b

def threshold : ℚ := opts.relevanceThreshold.getD 0

def score (items : List ContextItem) : ContextItem → ℚ :=
  scoreContextItem { opts.scoring with dependencyHits := items.map ContextItem.id }

end SelectOptions

def selectContext (localeCompare : String → String → Ordering) (fuel : Nat)
    (items : List ContextItem) (opts : SelectOptions) : Option Selection :=
  (visits localeCompare items (opts.score items)).foldlM
    (trySelect items (opts.score items) opts.budget opts.threshold fuel) .empty

end OrchestraAI.Context
