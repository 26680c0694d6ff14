import Mathlib.Tactic.IntervalCases
import OrchestraAI.Intelligence.OutcomeEvaluator
import OrchestraAI.Library.TextReplace

/-! # What a success rests on -/

namespace OrchestraAI.Intelligence

open OrchestraAI.Recovery (truthy)
open TextReplace (includes includes_iff)
open InfixText

/-- `<n> failed, <m> passed`. -/
def runnerClaim (n m : Nat) : Text :=
  Nat.toDigits 10 n ++ ' ' :: ("failed, ".toList ++ (Nat.toDigits 10 m ++ " passed".toList))

def SaysPass (t : Text) : Prop := "0 fail".toList <:+: t ∨ "all ".toList <:+: t

theorem digits_end (n : Nat) : ∃ ds, Nat.toDigits 10 n = ds ++ [(n % 10).digitChar] := by
  rw [Nat.toDigits_eq_if (by decide)]
  split
  · rename_i h
    exact ⟨[], by rw [Nat.mod_eq_of_lt h, List.nil_append]⟩
  · exact ⟨_, rfl⟩

theorem digitChar_ne_zero {d : Nat} (h : d < 10) (hPos : d ≠ 0) : d.digitChar ≠ '0' := by
  interval_cases d <;> first | exact absurd rfl hPos | decide

theorem notMem_digits {c : Char} (hc : c.isDigit = false) (n : Nat) : c ∉ Nat.toDigits 10 n := by
  intro h
  rw [Nat.isDigit_of_mem_toDigits (by omega) (by omega) h] at hc
  cases hc

theorem not_zero_suffix {n : Nat} (h : n % 10 ≠ 0) :
    ¬ "0 ".toList <:+ Nat.toDigits 10 n ++ [' '] := by
  rintro ⟨r, hr⟩
  obtain ⟨ds, hd⟩ := digits_end n
  have hr : (r ++ ['0']) ++ [' '] = (ds ++ [(n % 10).digitChar]) ++ [' '] := by
    simpa [hd] using hr
  have hChar := List.append_inj_right' (List.append_cancel_right hr) rfl
  exact digitChar_ne_zero (Nat.mod_lt n (by omega)) h (List.cons.inj hChar).1.symm

/-- What follows the count of failures and `fail`. -/
def runnerRest (m : Nat) : Text := "ed, ".toList ++ (Nat.toDigits 10 m ++ " passed".toList)

theorem notMem_runnerRest {c : Char} (hc : c.isDigit = false) (hTexts : c ∉ "ed, passed".toList)
    (m : Nat) : c ∉ runnerRest m := by
  have hDigits := notMem_digits hc m
  simp only [runnerRest, List.mem_append, not_or]
  refine ⟨fun h => hTexts ?_, hDigits, fun h => hTexts ?_⟩
  · exact (show "ed, ".toList ⊆ "ed, passed".toList by decide) h
  · exact (show " passed".toList ⊆ "ed, passed".toList by decide) h

theorem not_saysPass_runner {n : Nat} (h : n % 10 ≠ 0) (m : Nat) : ¬ SaysPass (runnerClaim n m) := by
  rintro (hZero | hAll)
  · have hIn : "0 ".toList ++ 'f' :: "ail".toList <:+:
        (Nat.toDigits 10 n ++ [' ']) ++ 'f' :: ("ail".toList ++ runnerRest m) := by
      simpa [runnerClaim, runnerRest] using hZero
    have hMark : 'f' ∉ Nat.toDigits 10 n ++ [' '] := by simp [notMem_digits (c := 'f') rfl n]
    obtain hSuffix | hRest := infix_at_mark (by decide) hMark hIn
    · exact not_zero_suffix h hSuffix
    · have hf : 'f' ∉ "ail".toList ++ runnerRest m := by
        simp [notMem_runnerRest (c := 'f') rfl (by decide) m]
      exact hf (hRest.subset (by decide))
  · have hIn : "a".toList ++ 'l' :: "l ".toList <:+:
        (Nat.toDigits 10 n ++ " fai".toList) ++ 'l' :: runnerRest m := by
      simpa [runnerClaim, runnerRest] using hAll
    have hMark : 'l' ∉ Nat.toDigits 10 n ++ " fai".toList := by
      simp [notMem_digits (c := 'l') rfl n]
    obtain ⟨r, hr⟩ | hRest := infix_at_mark (by decide) hMark hIn
    · -- what stands before the mark ends in another letter
      have hEnd : r ++ ['a'] = (Nat.toDigits 10 n ++ " fa".toList) ++ ['i'] := by simpa using hr
      exact absurd (List.append_inj_right' hEnd rfl) (by decide)
    · exact notMem_runnerRest (c := 'l') rfl (by decide) m (hRest.subset (by decide))

theorem saysPass_reference {n m : Nat} (h : n % 10 ≠ 0) {reference : Text}
    (hPass : SaysPass (runnerClaim n m ++ ' ' :: reference)) : SaysPass reference := by
  -- neither of the words has the letter that the report ends with
  have hEnd : runnerClaim n m =
      (Nat.toDigits 10 n ++ " failed, ".toList ++ Nat.toDigits 10 m ++ " passe".toList) ++ ['d'] := by
    simp [runnerClaim]
  have hReport : Nat.toDigits 10 n ++ " failed, ".toList ++ Nat.toDigits 10 m ++ " passe".toList <:+:
      runnerClaim n m := hEnd ▸ (List.prefix_append _ _).isInfix
  rw [hEnd, List.append_assoc, List.singleton_append] at hPass
  obtain hZero | hAll := hPass
  · obtain hIn | hIn := infix_append_cons (by decide) hZero
    · exact absurd (.inl (hIn.trans hReport)) (not_saysPass_runner h m)
    · obtain hPrefix | hIn := List.infix_cons_iff.mp hIn
      · exact absurd (List.cons_prefix_cons.mp hPrefix).1 (by decide)
      · exact .inl hIn
  · obtain hIn | hIn := infix_append_cons (by decide) hAll
    · exact absurd (.inr (hIn.trans hReport)) (not_saysPass_runner h m)
    · obtain hPrefix | hIn := List.infix_cons_iff.mp hIn
      · exact absurd (List.cons_prefix_cons.mp hPrefix).1 (by decide)
      · exact .inr hIn

theorem saysPass_of_joinLines {ts : List Text} (h : SaysPass (joinLines ts)) :
    ∃ t ∈ ts, SaysPass t := by
  induction ts with
  | nil =>
    obtain hZero | hAll := h
    · exact absurd (List.infix_nil.mp hZero) (by decide)
    · exact absurd (List.infix_nil.mp hAll) (by decide)
  | cons t ts ih =>
    cases ts with
    | nil => exact ⟨t, List.mem_singleton_self t, h⟩
    | cons t' ts =>
      -- neither of the words contains a line feed
      have hSplit : SaysPass t ∨ SaysPass (joinLines (t' :: ts)) := by
        obtain hZero | hAll := h
        · exact (infix_append_cons (by decide) hZero).imp .inl .inl
        · exact (infix_append_cons (by decide) hAll).imp .inr .inr
      obtain hFirst | hRest := hSplit
      · exact ⟨t, List.mem_cons_self, hFirst⟩
      · obtain ⟨u, hMem, hu⟩ := ih hRest
        exact ⟨u, List.mem_cons_of_mem t hMem, hu⟩

theorem infix_joinLines {t : Text} {ts : List Text} (h : t ∈ ts) : t <:+: joinLines ts := by
  induction ts with
  | nil => cases h
  | cons u ts ih =>
    cases ts with
    | nil =>
      rw [List.mem_singleton.mp h]
      exact List.infix_refl u
    | cons u' ts =>
      obtain rfl | hRest := List.mem_cons.mp h
      · exact (List.prefix_append t _).isInfix
      · exact (ih hRest).trans ((List.suffix_cons '\n' _).trans (List.suffix_append u _)).isInfix

theorem saysPass_of_testsPass {texts : Text} (h : testsPass texts = true) : SaysPass texts := by
  simp only [testsPass, Bool.and_eq_true, Bool.or_eq_true] at h
  obtain ⟨(hZero | hAll) | hLater, -⟩ := h
  · obtain ⟨before, after, hEq⟩ := includes_iff.mp hZero
    exact .inl ⟨before, "ed".toList ++ after, by simpa using hEq⟩
  · obtain ⟨t, hTail, hStart⟩ := List.any_eq_true.mp hAll
    have hPrefix := List.isPrefixOf_iff_prefix.mp (Bool.and_eq_true_iff.mp hStart).1
    exact .inr (hPrefix.isInfix.trans ((List.mem_tails _ _).mp hTail).isInfix)
  · obtain ⟨t, hTail, hStart⟩ := List.any_eq_true.mp hLater
    have hRest := includes_iff.mp (Bool.and_eq_true_iff.mp hStart).2
    have hLine : lineRest (t.drop "pass".toList.length) <:+: t :=
      (List.takeWhile_prefix _).isInfix.trans (List.drop_suffix _ t).isInfix
    exact .inl ((hRest.trans hLine).trans ((List.mem_tails _ _).mp hTail).isInfix)

/-- A test runner's report of failures, with a reference that does not read as a pass. -/
def ReportsFailures (e : Evidence) : Prop :=
  ∃ n m, n % 10 ≠ 0 ∧ e.claim = some (runnerClaim n m) ∧
    ∀ r ∈ e.contentReference, (∀ c ∈ r, c.toNat < 128) ∧ ¬ SaysPass (r.map Char.toLower)

/-- A character that `toLowerCase` leaves as it is. -/
def Small (c : Char) : Prop := c.toNat < 128 ∧ c.toLower = c

theorem small_of_isDigit {c : Char} (h : c.isDigit = true) : Small c := by
  simp only [Char.isDigit, Bool.and_eq_true, decide_eq_true_eq, UInt32.le_iff_toNat_le] at h
  have hDigit : c.toNat ≤ 57 := h.2
  refine ⟨by omega, dif_neg ?_⟩
  rintro ⟨hUpper, -⟩
  have hUpper : 65 ≤ c.toNat := UInt32.le_iff_toNat_le.mp hUpper
  omega

theorem small_of_mem_runnerClaim {n m : Nat} {c : Char} (h : c ∈ runnerClaim n m) : Small c := by
  have hAll : (" failed, passed".toList.all fun c =>
      decide (c.toNat < 128) && decide (c.toLower = c)) = true := by decide
  have hText (c : Char) (hc : c ∈ " failed, passed".toList) : Small c := by
    obtain ⟨hShort, hLower⟩ := Bool.and_eq_true_iff.mp (List.all_eq_true.mp hAll c hc)
    exact ⟨of_decide_eq_true hShort, of_decide_eq_true hLower⟩
  have hDigit (k : Nat) (hMem : c ∈ Nat.toDigits 10 k) : Small c :=
    small_of_isDigit (Nat.isDigit_of_mem_toDigits (by omega) (by omega) hMem)
  simp only [runnerClaim, List.mem_append, List.mem_cons] at h
  obtain hCount | rfl | hWord | hCount | hWord := h
  · exact hDigit n hCount
  · exact hText ' ' (by decide)
  · exact hText c ((show "failed, ".toList ⊆ " failed, passed".toList by decide) hWord)
  · exact hDigit m hCount
  · exact hText c ((show " passed".toList ⊆ " failed, passed".toList by decide) hWord)

variable {low : Lowering}

/-- `toLowerCase` goes through a text of ASCII characters one by one. -/
def LowersAscii (low : Lowering) : Prop :=
  ∀ t : Text, (∀ c ∈ t, c.toNat < 128) → low.text t = t.map Char.toLower

theorem map_toLower_runnerClaim (n m : Nat) : (runnerClaim n m).map Char.toLower = runnerClaim n m := by
  rw [List.map_congr_left fun c hc => (small_of_mem_runnerClaim hc).2, List.map_id']

theorem reportsFailures_again {e : Evidence} {n m : Nat} (h : n % 10 ≠ 0)
    (hClaim : e.claim = some (runnerClaim n m)) (hReference : e.contentReference = e.claim) :
    ReportsFailures e := by
  refine ⟨n, m, h, hClaim, fun r hr => ?_⟩
  rw [hReference, hClaim] at hr
  cases hr
  rw [map_toLower_runnerClaim]
  exact ⟨fun c hc => (small_of_mem_runnerClaim hc).1, not_saysPass_runner h m⟩

theorem ReportsFailures.evidenceText {e : Evidence} (h : ReportsFailures e)
    (hLow : LowersAscii low) :
    ¬ SaysPass (evidenceText low e) ∧ "fail".toList <:+: evidenceText low e := by
  obtain ⟨n, m, hn, hClaim, hReference⟩ := h
  have hPlain : (∀ c ∈ e.contentReference.getD [], c.toNat < 128) ∧
      ¬ SaysPass ((e.contentReference.getD []).map Char.toLower) := by
    cases hSome : e.contentReference with
    | none =>
      refine ⟨fun c hc => absurd hc List.not_mem_nil, ?_⟩
      rintro (hWord | hWord) <;> exact absurd (List.infix_nil.mp hWord) (by decide)
    | some r => exact hReference r hSome
  have hAscii : ∀ c ∈ runnerClaim n m ++ ' ' :: e.contentReference.getD [], c.toNat < 128 := by
    intro c hc
    obtain hFirst | hRest := List.mem_append.mp hc
    · exact (small_of_mem_runnerClaim hFirst).1
    obtain rfl | hSecond := List.mem_cons.mp hRest
    · decide
    · exact hPlain.1 c hSecond
  have hEq : Intelligence.evidenceText low e =
      runnerClaim n m ++ ' ' :: (e.contentReference.getD []).map Char.toLower := by
    rw [Intelligence.evidenceText, hClaim]
    refine (hLow _ hAscii).trans ?_
    rw [List.map_append, map_toLower_runnerClaim]
    rfl
  rw [hEq]
  refine ⟨fun hPass => hPlain.2 (saysPass_reference hn hPass), ?_⟩
  exact ⟨Nat.toDigits 10 n ++ [' '], "ed, ".toList ++ (Nat.toDigits 10 m ++ " passed".toList) ++
    ' ' :: (e.contentReference.getD []).map Char.toLower, by simp [runnerClaim]⟩

/-- A required test criterion has a test runner's report of failures behind it, and nothing else
of its evidence has the words of a pass. -/
def RunnerFails (low : Lowering) (s : Signals) : Prop :=
  (∃ c ∈ s.criteria, c.required ∧ c.type = .test) ∧
    (∃ e ∈ s.evidence, e.type = some "test" ∧ ReportsFailures e) ∧
    ∀ e ∈ s.evidence, e.type = some "test" → ReportsFailures e ∨ ¬ SaysPass (evidenceText low e)

theorem type_test_iff {type : Option String} :
    (truthy type).getD "metric" = "test" ↔ type = some "test" := by
  constructor
  · intro h
    cases type with
    | none => exact absurd h (by decide)
    | some word =>
      by_cases hWord : word = ""
      · rw [hWord] at h
        exact absurd h (by decide)
      · rw [truthy, Option.filter_some_pos (by simpa using hWord)] at h
        exact congrArg some h
  · rintro rfl
    rfl

theorem mem_testEvidence {evidence : List Evidence} {e : Evidence} :
    e ∈ evidence.filter (fun e => (truthy e.type).getD "metric" = "test") ↔
      e ∈ evidence ∧ e.type = some "test" := by
  rw [List.mem_filter, decide_eq_true_iff, type_test_iff]

theorem evidenceByType_test {evidence : List Evidence} (feedback : Option Signal) {e : Evidence}
    (h : e ∈ evidence ∧ e.type = some "test") :
    evidenceByType evidence feedback "test" =
      some (evidence.filter fun e => (truthy e.type).getD "metric" = "test") := by
  have hSome := List.isEmpty_eq_false_iff.mpr (List.ne_nil_of_mem (mem_testEvidence.mpr h))
  cases feedback <;> simp only [evidenceByType, hSome] <;> rfl

theorem status_of_runnerFails (hLow : LowersAscii low) {s : Signals} (h : RunnerFails low s)
    (feedback : Option Signal) {c : Criterion} (hType : c.type = .test) :
    (evaluateCriterion low c (evidenceByType s.evidence feedback)).status = .failed := by
  obtain ⟨-, ⟨e, he, heType, hFails⟩, hOther⟩ := h
  have hPool := evidenceByType_test feedback ⟨he, heType⟩
  generalize hEq : s.evidence.filter (fun e => (truthy e.type).getD "metric" = "test") = pool
    at hPool
  have hMem : e ∈ pool := hEq ▸ mem_testEvidence.mpr ⟨he, heType⟩
  have hQuiet : testsPass (joinLines (pool.map (evidenceText low))) = false := by
    rw [Bool.eq_false_iff]
    intro hPass
    obtain ⟨t, hIn, hSays⟩ := saysPass_of_joinLines (saysPass_of_testsPass hPass)
    obtain ⟨e', hPooled, rfl⟩ := List.mem_map.mp hIn
    rw [← hEq] at hPooled
    obtain ⟨he', hTest⟩ := mem_testEvidence.mp hPooled
    obtain hReports | hNot := hOther e' he' hTest
    · exact (hReports.evidenceText hLow).1 hSays
    · exact hNot hSays
  have hFail : testsFail (joinLines (pool.map (evidenceText low))) = true :=
    includes_iff.mpr ((hFails.evidenceText hLow).2.trans
      (infix_joinLines (List.mem_map_of_mem hMem)))
  simp only [evaluateCriterion, hType, CriterionType.name, hPool, Option.some_or, Option.getD_some,
    hQuiet, hFail, Bool.false_eq_true, if_true, if_false]

def objective (low : Lowering) (s : Signals) : Option Bool :=
  objectiveOf s (evaluateOutcome low s).criteria

theorem objective_of_success {s : Signals} (h : (evaluateOutcome low s).taskSuccess = some true) :
    objective low s = some true := by
  have h : (taskSuccessOf (objective low s) (s.userFeedback.map (userSignalOf low))
      s.completed).1 = some true := h
  revert h
  rcases objective low s with _ | _ | _
  · simp only [taskSuccessOf]
    split
    · exact fun h => nomatch h
    · split <;> exact fun h => nomatch h
  · simp only [taskSuccessOf]
    split <;> exact fun h => nomatch h
  · exact fun _ => rfl

theorem objective_of_failure {s : Signals} (h : (evaluateOutcome low s).taskSuccess = some false) :
    objective low s ≠ some true := by
  intro hTrue
  have h : (taskSuccessOf (objective low s) (s.userFeedback.map (userSignalOf low))
      s.completed).1 = some false := h
  rw [hTrue] at h
  simp only [taskSuccessOf] at h
  split at h <;> cases h

def RequiredFailed (criteria : List Criterion) : Prop :=
  ∃ c ∈ criteria, c.required ∧ c.status = .failed

def RequiredPassed (criteria : List Criterion) : Prop :=
  (∃ c ∈ criteria, c.required) ∧ ∀ c ∈ criteria, c.required → c.status = .passed

def SummaryFails (s : Signals) : Prop :=
  s.strictTests ≠ some false ∧ ∃ t, testEvidenceOf s.testSummary = some t ∧ 0 < t.2

def SummaryPasses (s : Signals) : Prop :=
  ∃ t, testEvidenceOf s.testSummary = some t ∧ t.2 = 0 ∧ 0 < t.1

theorem objectiveOf_failed {s : Signals} {evaluated : List Criterion}
    (h : RequiredFailed evaluated ∨ SummaryFails s) : objectiveOf s evaluated = some false := by
  rw [objectiveOf, if_pos]
  rw [Bool.or_eq_true]
  obtain ⟨c, hMem, hRequired, hStatus⟩ | ⟨hStrict, t, hTests, hFailed⟩ := h
  · exact .inl (List.any_eq_true.mpr
      ⟨c, List.mem_filter.mpr ⟨hMem, hRequired⟩, decide_eq_true hStatus⟩)
  · refine .inr ?_
    rw [hTests]
    simp [hFailed, hStrict]

theorem objectiveOf_passed {s : Signals} {evaluated : List Criterion}
    (h : objectiveOf s evaluated = some true) : RequiredPassed evaluated ∨ SummaryPasses s := by
  rw [objectiveOf] at h
  split at h
  · cases h
  split at h
  · rename_i hPassed
    obtain hRequired | hTests := Bool.or_eq_true_iff.mp hPassed
    · obtain ⟨hSome, hAll⟩ := Bool.and_eq_true_iff.mp hRequired
      have hAll := List.all_eq_true.mp hAll
      obtain ⟨c, hMem, hReq⟩ : ∃ c ∈ evaluated, c.required := by simpa using hSome
      refine .inl ⟨⟨c, hMem, hReq⟩, fun c hc hReq => ?_⟩
      exact of_decide_eq_true (hAll c (List.mem_filter.mpr ⟨hc, hReq⟩))
    · obtain ⟨t, hSome, ht⟩ := (Option.any_eq_true _ _).mp hTests
      obtain ⟨hFailed, hPassed⟩ := Bool.and_eq_true_iff.mp ht
      exact .inr ⟨t, hSome, of_decide_eq_true hFailed, of_decide_eq_true hPassed⟩
  · cases h

def AsksUser (s : Signals) : Prop :=
  ∃ c ∈ s.criteria, c.required ∧ c.type = .manualConfirmation

theorem evidenceByType_feedback {type : String} (h : type ≠ "user_feedback")
    (evidence : List Evidence) (feedback feedback' : Option Signal) :
    evidenceByType evidence feedback type = evidenceByType evidence feedback' type := by
  cases feedback <;> cases feedback' <;> simp only [evidenceByType, if_neg h]

theorem evaluateCriterion_required (c : Criterion) (byType : String → Option (List Evidence)) :
    (evaluateCriterion low c byType).required = c.required := by
  rw [evaluateCriterion]
  cases c.type <;> dsimp only <;> split <;> (try split) <;> rfl

theorem evaluateCriterion_feedback {c : Criterion} (h : c.type ≠ .manualConfirmation)
    (evidence : List Evidence) (feedback feedback' : Option Signal) :
    evaluateCriterion low c (evidenceByType evidence feedback) =
      evaluateCriterion low c (evidenceByType evidence feedback') := by
  have hName : c.type.name ≠ "user_feedback" := by cases c.type <;> decide
  have hPool := evidenceByType_feedback hName evidence feedback feedback'
  have hAll := evidenceByType_feedback (show "all" ≠ "user_feedback" by decide) evidence feedback
    feedback'
  simp only [evaluateCriterion, hPool, hAll]
  cases hType : c.type with
  | manualConfirmation => exact absurd hType h
  | _ => rfl

theorem objective_feedback {s : Signals} (h : ¬ AsksUser s) (feedback : Option UserFeedback) :
    objective low { s with userFeedback := feedback } = objective low s := by
  have hRequired (byType : String → Option (List Evidence)) :
      (s.criteria.map fun c => evaluateCriterion low c byType).filter (fun c => c.required) =
        (s.criteria.filter fun c => c.required).map fun c => evaluateCriterion low c byType := by
    rw [List.filter_map]
    congr 1
    exact List.filter_congr fun c _ => evaluateCriterion_required c byType
  have hSame (feedback feedback' : Option Signal) :
      (s.criteria.filter fun c => c.required).map (fun c =>
          evaluateCriterion low c (evidenceByType s.evidence feedback)) =
        (s.criteria.filter fun c => c.required).map fun c =>
          evaluateCriterion low c (evidenceByType s.evidence feedback') := by
    refine List.map_congr_left fun c hc => evaluateCriterion_feedback (fun hType => h ?_) _ _ _
    obtain ⟨hMem, hReq⟩ := List.mem_filter.mp hc
    exact ⟨c, hMem, hReq, hType⟩
  simp only [objective, evaluateOutcome, objectiveOf, hRequired]
  rw [hSame]

/-- Success is never taken where a required criterion has failed, where a test summary or a test
runner's claim reports a failure; it rests on required criteria that have all passed or on a
passing summary, and neither on what the model says of itself nor, unless a required criterion
asks the user, on the feedback. -/
theorem outcome_honest (hLow : LowersAscii low) (s : Signals) :
    (RequiredFailed (evaluateOutcome low s).criteria ∨ SummaryFails s ∨ RunnerFails low s →
      (evaluateOutcome low s).taskSuccess ≠ some true ∧
        ∀ update, outcomeToLearningUpdate (evaluateOutcome low s) = some update →
          update.success ≠ some true) ∧
    ((evaluateOutcome low s).taskSuccess = some true →
      RequiredPassed (evaluateOutcome low s).criteria ∨ SummaryPasses s) ∧
    (∀ report, (evaluateOutcome low { s with modelSelfReport := report }).taskSuccess =
      (evaluateOutcome low s).taskSuccess) ∧
    (¬ AsksUser s → ∀ feedback,
      ((evaluateOutcome low s).taskSuccess = some true →
        (evaluateOutcome low { s with userFeedback := none }).taskSuccess = some true) ∧
      ((evaluateOutcome low s).taskSuccess = some false →
        (evaluateOutcome low { s with userFeedback := feedback }).taskSuccess ≠ some true)) := by
  refine ⟨fun h => ?_, fun h => ?_, fun _ => rfl, fun hAsks feedback => ⟨fun h => ?_, fun h => ?_⟩⟩
  · have hObjective : objective low s = some false := by
      refine objectiveOf_failed ?_
      obtain hRequired | hSummary | hRunner := h
      · exact .inl hRequired
      · exact .inr hSummary
      · obtain ⟨c, hMem, hReq, hType⟩ := hRunner.1
        refine .inl ⟨_, List.mem_map_of_mem hMem, ?_, status_of_runnerFails hLow hRunner _ hType⟩
        rw [evaluateCriterion_required]
        exact hReq
    have hTask : (evaluateOutcome low s).taskSuccess ≠ some true := by
      intro hTrue
      rw [objective_of_success hTrue] at hObjective
      cases hObjective
    refine ⟨hTask, fun update hUpdate hSuccess => hTask ?_⟩
    rw [outcomeToLearningUpdate] at hUpdate
    split at hUpdate
    · rename_i success hTaken
      rw [hTaken, ← hSuccess, ← Option.some.inj hUpdate]
    · split at hUpdate <;> cases hUpdate
      cases hSuccess
  · exact objectiveOf_passed (objective_of_success h)
  · have hObjective : objective low { s with userFeedback := none } = some true :=
      (objective_feedback hAsks none).trans (objective_of_success h)
    have hTask : (evaluateOutcome low { s with userFeedback := none }).taskSuccess =
        (taskSuccessOf (objective low { s with userFeedback := none }) none s.completed).1 := rfl
    rw [hTask, hObjective]
    rfl
  · intro hTrue
    refine objective_of_failure h ?_
    rw [← objective_feedback hAsks feedback]
    exact objective_of_success hTrue

/-- `toLowerCase` on ASCII texts. -/
def asciiLowering : Lowering where
  text t := t.map Char.toLower
  word w := String.ofList (w.toList.map Char.toLower)

/-- A finished run with one required criterion, one claim of a test runner and a user's word. -/
def checkedRun (type : CriterionType) (claim : Text) (signal : Option String) : Signals where
  completed := some true
  hasAssistantMessage := true
  toolFailures := 0
  withinBudget := some true
  strictTests := none
  criteria := [⟨type, true, .pending⟩]
  evidence := [⟨some "test", some claim, some claim, none, none⟩]
  testSummary := none
  userFeedback := signal.map fun word => ⟨some word, none, none, .undefined, .value (some (1 / 2))⟩
  modelSelfReport := some "success"

theorem outcome_honest_checkedRun :
    (evaluateOutcome asciiLowering (checkedRun .test (runnerClaim 3 5) (some "up"))).taskSuccess ≠
        some true ∧
      (evaluateOutcome asciiLowering (checkedRun .test (runnerClaim 3 5) none)).taskSuccess ≠
        some true := by
  have hLow : LowersAscii asciiLowering := fun _ _ => rfl
  have hReports : ReportsFailures
      ⟨some "test", some (runnerClaim 3 5), some (runnerClaim 3 5), none, none⟩ :=
    reportsFailures_again (n := 3) (by decide) rfl rfl
  have hRunner : RunnerFails asciiLowering (checkedRun .test (runnerClaim 3 5) (some "up")) := by
    refine ⟨⟨_, List.mem_singleton_self _, rfl, rfl⟩, ⟨_, List.mem_singleton_self _, rfl, hReports⟩,
      fun e he _ => .inl ?_⟩
    rw [List.mem_singleton.mp he]
    exact hReports
  have hAsks : ¬ AsksUser (checkedRun .test (runnerClaim 3 5) (some "up")) := by
    rintro ⟨c, hc, -, hType⟩
    rw [List.mem_singleton.mp hc] at hType
    cases hType
  obtain ⟨hFails, -, -, hFeedback⟩ := outcome_honest hLow (checkedRun .test
    (runnerClaim 3 5) (some "up"))
  exact ⟨(hFails (.inr (.inr hRunner))).1, (hFeedback hAsks none).2 (by decide +kernel)⟩

/-- A criterion that asks the user turns from failed to passed with the user's word alone; and ten
failures are read as none. -/
theorem user_word_decides :
    (evaluateOutcome asciiLowering (checkedRun .manualConfirmation [] (some "down"))).taskSuccess =
        some false ∧
      (evaluateOutcome asciiLowering (checkedRun .manualConfirmation [] (some "up"))).taskSuccess =
        some true ∧
      (evaluateOutcome asciiLowering (checkedRun .test (runnerClaim 10 5) none)).taskSuccess =
        some true := by
  decide +kernel

end OrchestraAI.Intelligence
