import OrchestraAI.Economics.ModelCallRecord
import OrchestraAI.Library.TextReplace
import OrchestraAI.Execution.Constraints
import OrchestraAI.Recovery.Plan

/-! # The outcome evaluator

`intelligence/outcome-evaluator.js` over exact rationals. How the platform lowers a text is a
parameter. Identifiers, times and the texts of the reasons are left out.
-/

namespace OrchestraAI.Intelligence

open OrchestraAI.Economics (Field)
open OrchestraAI.Execution (isLineEnd)
open OrchestraAI.Recovery (truthy)
open TextReplace (includes)

inductive CriterionType
  | test
  | fileChange
  | textRequirement
  | numericThreshold
  | toolResult
  | manualConfirmation
  deriving DecidableEq

def CriterionType.name : CriterionType → String
  | test => "test"
  | fileChange => "file_change"
  | textRequirement => "text_requirement"
  | numericThreshold => "numeric_threshold"
  | toolResult => "tool_result"
  | manualConfirmation => "manual_confirmation"

inductive CriterionStatus
  | pending
  | passed
  | failed
  | unknown
  deriving DecidableEq

structure Criterion where
  type : CriterionType
  required : Bool
  status : CriterionStatus

structure Evidence where
  type : Option String
  claim : Option Text
  contentReference : Option Text
  toolSuccess : Option Bool
  userSignal : Option String

structure TestSummary where
  passed : Field
  failed : Field

/-- What a user said of a run; a rating also as the text that it is read as. -/
structure UserFeedback where
  signal : Option String
  value : Option String
  ratingText : Option String
  rating : Field
  confidence : Field

structure Signals where
  completed : Option Bool
  hasAssistantMessage : Bool
  toolFailures : ℚ
  withinBudget : Option Bool
  strictTests : Option Bool
  criteria : List Criterion
  evidence : List Evidence
  testSummary : Option TestSummary
  userFeedback : Option UserFeedback
  modelSelfReport : Option String

/-- `toLowerCase`. -/
structure Lowering where
  text : Text → Text
  word : String → String

variable (low : Lowering)

inductive Signal
  | positive
  | negative
  | unknown
  deriving DecidableEq

def Signal.text : Signal → String
  | positive => "positive"
  | negative => "negative"
  | unknown => "unknown"

def normalizeUserSignal (fb : UserFeedback) : Signal :=
  let raw := low.word
    ((((truthy fb.signal).or (truthy fb.value)).or (truthy fb.ratingText)).getD "")
  if raw ∈ ["positive", "success", "up", "good", "thumbs_up", "thumbs-up", "pass"] then .positive
  else if raw ∈ ["negative", "failure", "down", "bad", "thumbs_down", "thumbs-down", "fail"] then
    .negative
  else
    match fb.rating.toNumber with
    | some n => if 7 / 2 ≤ n then .positive else .negative
    | none => .unknown

def clamp01 (f : Field) : Option ℚ := f.toNumber.map fun n => max 0 (min 1 n)

structure UserSignal where
  signal : Signal
  confidence : ℚ

def userSignalOf (fb : UserFeedback) : UserSignal :=
  ⟨normalizeUserSignal low fb, (clamp01 fb.confidence).getD (2 / 5)⟩

def evidenceByType (evidence : List Evidence) (feedback : Option Signal) (type : String) :
    Option (List Evidence) :=
  let pool := evidence.filter fun e => (truthy e.type).getD "metric" = type
  match feedback with
  | some signal =>
    if type = "user_feedback" then some [⟨none, none, none, none, some signal.text⟩]
    else if pool.isEmpty then none else some pool
  | none => if pool.isEmpty then none else some pool

def lineRest (t : Text) : Text := t.takeWhile (!isLineEnd ·)

/-- `first.*second`. -/
def includesThen (t first second : Text) : Bool :=
  t.tails.any fun s => first.isPrefixOf s && includes (lineRest (s.drop first.length)) second

def testsPass (texts : Text) : Bool :=
  (includes texts "0 failed".toList || includesThen texts "all ".toList "pass".toList ||
    includesThen texts "pass".toList "0 fail".toList) && includes texts "pass".toList

def testsFail (texts : Text) : Bool := includes texts "fail".toList

def evidenceText (e : Evidence) : Text :=
  low.text (e.claim.getD [] ++ ' ' :: e.contentReference.getD [])

/-- `join('\n')`. -/
def joinLines : List Text → Text
  | [] => []
  | [t] => t
  | t :: ts => t ++ '\n' :: joinLines ts

def evaluateCriterion (c : Criterion) (byType : String → Option (List Evidence)) : Criterion :=
  let pool := ((byType c.type.name).or (byType "all")).getD []
  let texts := joinLines (pool.map (evidenceText low))
  match c.type with
  | .test =>
    if testsPass texts then { c with status := .passed }
    else if testsFail texts then { c with status := .failed }
    else { c with status := .unknown }
  | .toolResult =>
    if pool.any (·.toolSuccess = some true) then { c with status := .passed }
    else if pool.any (·.toolSuccess = some false) then { c with status := .failed }
    else { c with status := .unknown }
  | .manualConfirmation =>
    let signal := ((byType "user_feedback").bind List.head?).bind Evidence.userSignal
    if signal = some "positive" then { c with status := .passed }
    else if signal = some "negative" then { c with status := .failed }
    else { c with status := .unknown }
  | .fileChange | .textRequirement | .numericThreshold => { c with status := .unknown }

/-- `Math.round(n * 1000) / 1000`. -/
def round3 (n : ℚ) : ℚ := RoundedGrid.toGrid 1000 n

inductive OutcomeStatus
  | succeeded
  | failed
  | conflicted
  | verificationRequired
  | unknown
  deriving DecidableEq

structure OutcomeEvaluation where
  taskSuccess : Option Bool
  status : OutcomeStatus
  executionCompleted : Bool
  conflicted : Bool
  correctnessScore : Option ℚ
  completenessScore : Option ℚ
  evidenceScore : Option ℚ
  safetyScore : Option ℚ
  userSignal : Option UserSignal
  overallScore : ℚ
  confidence : ℚ
  criteria : List Criterion
  evidence : List Evidence

def testEvidenceOf (summary : Option TestSummary) : Option (ℚ × ℚ) :=
  summary.bind fun t => t.passed.toNumber.bind fun p => t.failed.toNumber.map fun f => (p, f)

def correctnessScoreOf (s : Signals) (toolResults : List Evidence) : Option ℚ :=
  match testEvidenceOf s.testSummary with
  | some (p, f) => if 0 < p + f then some (round3 (p / (p + f))) else none
  | none =>
    if 0 < s.toolFailures ∨ toolResults.any (·.toolSuccess = some false) then some (2 / 5)
    else if s.hasAssistantMessage ∧ toolResults.any (·.toolSuccess = some true) then some (3 / 4)
    else none

def completenessScoreOf (required : List Criterion) : Option ℚ :=
  let passed : ℚ := (required.countP fun c => c.status = .passed : ℕ)
  let failed : ℚ := (required.countP fun c => c.status = .failed : ℕ)
  let unknown := required.length - passed - failed
  if required.isEmpty then none
  else some (round3 ((passed + unknown * (2 / 5)) / required.length))

def includesWord (t word : Text) : Bool := includes (t.map Char.toLower) word

def unsafeEvidence (e : Evidence) : Bool :=
  let t := e.claim.getD "undefined".toList ++ ' ' :: e.contentReference.getD "undefined".toList
  ["secret", "credential", "production", "destructive", "exfiltrat"].any fun word =>
    includesWord t word.toList

def safetyScoreOf (s : Signals) : Option ℚ :=
  if s.evidence.any unsafeEvidence then some (1 / 5)
  else if !s.evidence.isEmpty || s.hasAssistantMessage then some (9 / 10)
  else none

def operationalOf (s : Signals) : ℚ :=
  (if s.completed = some true then 3 / 5 else 0) + (if s.hasAssistantMessage then 1 / 5 else 0) +
    (if 0 < s.toolFailures then 0 else 1 / 10) + (if s.withinBudget = some false then 0 else 1 / 10)

def overallScoreOf (s : Signals) (correctness completeness safety : Option ℚ) : ℚ :=
  let parts := (correctness.map (·, (2 / 5 : ℚ))).toList ++
    (completeness.map (·, (7 / 20 : ℚ))).toList ++ (safety.map (·, (3 / 20 : ℚ))).toList ++
    [(max 0 (min 1 (operationalOf s)), (1 / 10 : ℚ))]
  let overall := round3
    ((parts.map fun part => part.1 * part.2).sum / (parts.map fun part => part.2).sum)
  if s.modelSelfReport = some "success" ∧ parts.length ≤ 2 then round3 (min overall (13 / 20))
  else overall

def objectiveOf (s : Signals) (evaluated : List Criterion) : Option Bool :=
  let required := evaluated.filter fun c => c.required
  let requiredFailed := required.any (·.status = .failed)
  let requiredPassed := !required.isEmpty && required.all (·.status = .passed)
  let tests := testEvidenceOf s.testSummary
  if requiredFailed || tests.any (fun t => 0 < t.2 && s.strictTests ≠ some false) then some false
  else if requiredPassed || tests.any (fun t => t.2 = 0 && 0 < t.1) then some true
  else none

def taskSuccessOf (objective : Option Bool) (user : Option UserSignal) (completed : Option Bool) :
    Option Bool × Bool :=
  let confidence := user.elim 0 UserSignal.confidence
  let negative := user.any (·.signal = .negative)
  let positive := user.any (·.signal = .positive)
  match objective with
  | some false =>
    if positive ∧ 4 / 5 ≤ confidence then (none, true) else (some false, false)
  | some true =>
    if negative ∧ 7 / 10 ≤ confidence then (none, true) else (some true, false)
  | none =>
    if negative ∧ 3 / 10 ≤ confidence then (some false, false)
    else if completed = some false then (some false, false)
    else (none, false)

def confidenceOf (breadth : Nat) : ℚ :=
  if 3 ≤ breadth then 17 / 20
  else if breadth = 2 then 13 / 20
  else if breadth = 1 then 9 / 20
  else 1 / 4

def evaluateOutcome (s : Signals) : OutcomeEvaluation :=
  let userSignal := s.userFeedback.map (userSignalOf low)
  let byType := evidenceByType s.evidence (userSignal.map UserSignal.signal)
  let toolResults := (byType "tool_result").getD []
  let evaluated := s.criteria.map fun c => evaluateCriterion low c byType
  let required := evaluated.filter fun c => c.required
  let correctness := correctnessScoreOf s toolResults
  let completeness := completenessScoreOf required
  let safety := safetyScoreOf s
  let (taskSuccess, conflicted) :=
    taskSuccessOf (objectiveOf s evaluated) userSignal s.completed
  let requiredPending := required.any fun c => c.status ≠ .passed && c.status ≠ .failed
  let executionCompleted := s.completed = some true
  let tests := testEvidenceOf s.testSummary
  { taskSuccess := taskSuccess
    status :=
      if taskSuccess = some true then .succeeded
      else if taskSuccess = some false then .failed
      else if conflicted then .conflicted
      else if requiredPending || (executionCompleted && tests.isNone && toolResults.isEmpty &&
          userSignal.isNone) then .verificationRequired
      else .unknown
    executionCompleted := executionCompleted
    conflicted := conflicted
    correctnessScore := correctness
    completenessScore := completeness
    evidenceScore := if s.evidence.isEmpty then none else some (min 1 (s.evidence.length / 5))
    safetyScore := safety
    userSignal := userSignal
    overallScore := overallScoreOf s correctness completeness safety
    confidence := confidenceOf (tests.toList.length + (if evaluated.isEmpty then 0 else 1) +
      (if toolResults.isEmpty then 0 else 1) + userSignal.toList.length)
    criteria := evaluated
    evidence := s.evidence }

structure LearningUpdate where
  success : Option Bool
  qualityScore : Option ℚ
  trusted : Bool
  latencyOnly : Bool

def outcomeToLearningUpdate (outcome : OutcomeEvaluation) : Option LearningUpdate :=
  match outcome.taskSuccess with
  | some success => some ⟨some success, some outcome.overallScore, true, false⟩
  | none =>
    if 9 / 20 ≤ outcome.confidence then some ⟨none, none, false, true⟩ else none

end OrchestraAI.Intelligence
