import OrchestraAI.Economics.UnknownUsage
import OrchestraAI.Library.LabelledSystem

/-! # The calls that savings are computed from

The list of model calls of a run over all its episodes: `addModelCall` of
`state/runtime-state.js`, the checkpoints of completed steps, and the recovery that puts
the list of a checkpoint back. How many calls an episode makes is open; the limits of a
run bound an episode, not the number of retries and continuations.
-/

namespace OrchestraAI.Economics

open LabelledSystem
open OrchestraAI.Core (TaskStatus)
open OrchestraAI.Recovery (truthy)

/-- A record of `_callModel`: it names its model and provider and has a pricing snapshot. -/
structure RecordedCall extends ModelCall where
  named : (truthy model).isSome ∧ (truthy provider).isSome
  snapshot : pricingSnapshot.isSome
  canonical_nonneg : ∀ n ∈ canonicalCostUsd, 0 ≤ n

structure RunCalls where
  usage : RunUsage
  made : List RecordedCall
  /-- The `modelCalls` of the completed checkpoints. -/
  checkpoints : List (List ModelCall)

namespace RunUsage

def addModelCall (run : RunUsage) (record : ModelCall) : RunUsage :=
  let pushed := run.modelCalls ++ [record]
  { run with modelCalls := if 200 < pushed.length then pushed.tail else pushed }

end RunUsage

namespace RunCalls

inductive Label
  | modelCall (call : RecordedCall)
  | completesStep
  /-- The run moves, ends, is retried or continued. -/
  | moves (status : TaskStatus)
  /-- A retry recovers from a checkpoint. -/
  | recovers (checkpoint : Nat)

def step (s : RunCalls) : Label → Option RunCalls
  | .modelCall call =>
    some { s with usage := s.usage.addModelCall call.toModelCall, made := s.made ++ [call] }
  | .completesStep => some { s with checkpoints := s.checkpoints ++ [s.usage.modelCalls] }
  | .moves status => some { s with usage := { s.usage with status := status } }
  | .recovers checkpoint =>
    s.checkpoints[checkpoint]?.map fun modelCalls =>
      { s with usage := { s.usage with modelCalls := modelCalls } }

def Start (s : RunCalls) : Prop := s.usage.modelCalls = [] ∧ s.made = [] ∧ s.checkpoints = []

def providerCalls (calls : List ModelCall) : List ModelCall :=
  calls.filter fun call => call.providerCall

def madeCalls (s : RunCalls) : List ModelCall := s.made.map RecordedCall.toModelCall

def Covered (s : RunCalls) : Prop := providerCalls s.usage.modelCalls = providerCalls s.madeCalls

def Lossless (s : RunCalls) : Label → Prop
  | .modelCall _ => 200 ≤ s.usage.modelCalls.length →
      ∀ oldest ∈ s.usage.modelCalls.head?, oldest.providerCall = false
  | .recovers checkpoint => ∀ modelCalls ∈ s.checkpoints[checkpoint]?,
      providerCalls modelCalls = providerCalls s.usage.modelCalls
  | .completesStep | .moves _ => True

variable {s t : RunCalls} {l : Label}

theorem providerCalls_append (calls calls' : List ModelCall) :
    providerCalls (calls ++ calls') = providerCalls calls ++ providerCalls calls' :=
  List.filter_append ..

theorem madeCalls_modelCall (s : RunCalls) (call : RecordedCall) :
    madeCalls { s with made := s.made ++ [call] } = s.madeCalls ++ [call.toModelCall] := by
  simp only [madeCalls, List.map_append, List.map_cons, List.map_nil]

theorem providerCalls_tail (calls : List ModelCall) :
    providerCalls calls.tail = providerCalls calls ↔
      ∀ oldest ∈ calls.head?, oldest.providerCall = false := by
  cases calls with
  | nil => simp [providerCalls]
  | cons oldest calls =>
    cases h : oldest.providerCall with
    | false => simp [providerCalls, h]
    | true =>
      simp only [providerCalls, List.tail_cons, List.filter_cons, h, if_true, List.head?_cons,
        Option.mem_def, Option.some.injEq, forall_eq', Bool.true_eq_false, iff_false]
      exact fun hEq => absurd (congrArg List.length hEq) (by simp)

theorem covered_step_iff (hs : s.Covered) (h : step s l = some t) :
    t.Covered ↔ Lossless s l := by
  cases l with
  | modelCall call =>
    cases h
    unfold Covered Lossless
    rw [madeCalls_modelCall (s := { s with usage := s.usage.addModelCall call.toModelCall }),
      providerCalls_append]
    have hMade : providerCalls (madeCalls { s with usage := s.usage.addModelCall call.toModelCall }) =
        providerCalls s.usage.modelCalls := hs.symm
    rw [hMade]
    simp only [RunUsage.addModelCall, List.length_append, List.length_cons, List.length_nil]
    cases hCalls : s.usage.modelCalls with
    | nil =>
      simp [providerCalls]
    | cons oldest calls =>
      split
      · rename_i hFull
        have hLong : 200 ≤ (oldest :: calls).length := by omega
        rw [List.cons_append, List.tail_cons, providerCalls_append, List.append_left_inj]
        simp only [hLong, forall_const]
        exact providerCalls_tail (oldest :: calls)
      · rename_i hShort
        have hLong : ¬ 200 ≤ (oldest :: calls).length := by omega
        simp only [hLong, false_implies, iff_true]
        exact providerCalls_append _ _
  | completesStep =>
    cases h
    exact iff_of_true hs trivial
  | moves status =>
    cases h
    exact iff_of_true hs trivial
  | recovers checkpoint =>
    obtain ⟨modelCalls, hCheckpoint, rfl⟩ := Option.map_eq_some_iff.mp h
    have hMade : providerCalls s.madeCalls = providerCalls s.usage.modelCalls := hs.symm
    change providerCalls modelCalls = providerCalls s.madeCalls ↔
      ∀ calls ∈ s.checkpoints[checkpoint]?, _
    rw [hMade, hCheckpoint]
    simp only [Option.mem_def, Option.some.injEq, forall_eq']

theorem covered_reach (h : Reach step Lossless Start s) : s.Covered :=
  h.invariant (I := Covered)
    (by
      rintro s ⟨hCalls, hMade, -⟩
      rw [Covered, madeCalls, hCalls, hMade]
      rfl)
    fun _ _ _ hs hok hstep => (covered_step_iff hs hstep).mpr hok

end RunCalls

theorem round6_nullableNonNegative {amount : Option ℚ} {n : ℚ}
    (h : (nullableNonNegative amount).map round6 = some n) : 0 ≤ n := by
  obtain ⟨m, hm, rfl⟩ := Option.map_eq_some_iff.mp h
  obtain ⟨-, hSign⟩ := Option.filter_eq_some_iff.mp hm
  exact RoundedGrid.toGrid_nonneg _ (of_decide_eq_true hSign)

theorem createModelCallRecord_nonneg (input : RecordInput) {n : ℚ}
    (h : (createModelCallRecord input).canonicalCostUsd = some n) : 0 ≤ n := by
  simp only [createModelCallRecord] at h
  split at h
  · obtain hProvider | ⟨-, hCalculated⟩ := Option.or_eq_some_iff.mp h
    · exact round6_nullableNonNegative hProvider
    · exact round6_nullableNonNegative (Option.ite_none_left_eq_some.mp hCalculated).2
  · cases h
    exact le_refl 0

def AnsweredCall.recorded (c : AnsweredCall) : RecordedCall where
  toModelCall := c.record
  named := ⟨by simp [record, truthy, c.model_named], by simp [record, truthy, c.provider_named]⟩
  snapshot := rfl
  canonical_nonneg := fun _ h => createModelCallRecord_nonneg _ h

variable {registry : ModelRegistry} {pricing : Pricing} {id : String}

theorem addStep_actual {call : RecordedCall} {cost : ℚ} (hCost : call.canonicalCostUsd = some cost)
    {t t' : Totals} (h : addStep registry pricing id t (stepOf call.toModelCall) = .ok t') :
    t'.actual = t.actual + cost := by
  obtain ⟨model, hModel⟩ := Option.isSome_iff_exists.mp call.named.1
  obtain ⟨provider, hProvider⟩ := Option.isSome_iff_exists.mp call.named.2
  obtain ⟨snapshot, hSnapshot⟩ := Option.isSome_iff_exists.mp call.snapshot
  have hKnown : knownAmount (stepOf call.toModelCall).canonicalCostUsd = some cost := by
    simp [knownAmount, stepOf, hCost, call.canonical_nonneg cost hCost]
  have hSnapshot : (stepOf call.toModelCall).pricingSnapshot = some snapshot := hSnapshot
  have hActual {actual : ℚ}
      (hOk : calculateStepActualCost (stepOf call.toModelCall) model registry = .ok actual) :
      actual = cost := by
    unfold calculateStepActualCost at hOk
    rw [hKnown, hSnapshot] at hOk
    split at hOk
    · cases hOk
    · split at hOk
      · cases hOk
      · exact (Except.ok.inj hOk).symm
  unfold addStep at h
  simp only [show truthy (stepOf call.toModelCall).model = some model from hModel,
    show truthy (stepOf call.toModelCall).provider = some provider from hProvider] at h
  split at h
  · cases h
  · cases h
  · rename_i hOk
    cases h
    rw [hActual hOk]

theorem foldlM_actual {calls : List RecordedCall} {costs : List ℚ}
    (hCosts : calls.map (fun call => call.canonicalCostUsd) = costs.map some) {t t' : Totals}
    (h : (calls.map fun call => stepOf call.toModelCall).foldlM (addStep registry pricing id) t =
      .ok t') : t'.actual = t.actual + costs.sum := by
  induction calls generalizing costs t with
  | nil =>
    obtain rfl := List.map_eq_nil_iff.mp hCosts.symm
    cases h
    simp
  | cons call calls ih =>
    cases costs with
    | nil => cases hCosts
    | cons cost costs =>
      obtain ⟨hCost, hCosts⟩ := List.cons.inj hCosts
      rw [List.map_cons, List.foldlM_cons] at h
      cases hNext : addStep registry pricing id t (stepOf call.toModelCall) with
      | error e =>
        rw [hNext] at h
        cases h
      | ok next =>
        rw [hNext] at h
        rw [ih hCosts h, addStep_actual hCost hNext, List.sum_cons, add_assoc]

namespace RunCalls

variable {s : RunCalls}

def providerCallsMade (s : RunCalls) : List RecordedCall :=
  s.made.filter fun call => call.providerCall

theorem providerCalls_madeCalls (s : RunCalls) :
    providerCalls s.madeCalls = s.providerCallsMade.map RecordedCall.toModelCall := by
  unfold providerCalls madeCalls providerCallsMade
  rw [List.filter_map]
  rfl

/-- In every run whose steps lose no call, the savings engine prices the provider calls that
the run made, in their order, and the actual cost is the sum of their canonical costs. -/
theorem savings_cover_calls (h : Reach step Lossless Start s) :
    extractStepsFromRun s.usage = s.providerCallsMade.map (fun call => stepOf call.toModelCall) ∧
    ∀ (registry : ModelRegistry) (explicit : Option String) (fee : Field) (costs : List ℚ),
      s.providerCallsMade.map (fun call => call.canonicalCostUsd) = costs.map some →
      (calculateSavingsForRun registry (some s.usage) explicit fee).calculationStatus =
        "verified_modeled" →
      (calculateSavingsForRun registry (some s.usage) explicit fee).actualCost =
        some (round6 costs.sum) := by
  have hSteps : extractStepsFromRun s.usage =
      s.providerCallsMade.map fun call => stepOf call.toModelCall := by
    have hCovered : providerCalls s.usage.modelCalls = _ :=
      (covered_reach h).trans s.providerCalls_madeCalls
    change (providerCalls s.usage.modelCalls).map stepOf = _
    rw [hCovered, List.map_map]
    rfl
  refine ⟨hSteps, fun registry explicit fee costs hCosts hVerified => ?_⟩
  obtain ⟨status, reference, error, hUnknown, hResult⟩ |
      ⟨usage, reference, pricing, totals, hUsage, hTotals, hResult⟩ :=
    calculateSavingsForRun_cases registry (some s.usage) explicit fee
  · rw [hResult] at hVerified
    obtain rfl | rfl := hUnknown
    · exact absurd (show "insufficient_data" = "verified_modeled" from hVerified) (by decide)
    · exact absurd (show "incomplete" = "verified_modeled" from hVerified) (by decide)
  · cases hUsage
    rw [hSteps] at hTotals
    have hActual : totals.actual = costs.sum :=
      (foldlM_actual hCosts hTotals).trans (zero_add _)
    rw [hResult, ← hActual]
    rfl

def dollarCall (step : Nat) : RecordedCall :=
  AnsweredCall.recorded
    { answer := .completion
        { UsagePayload.absent with
          promptTokens := .value (some 10), completionTokens := .value (some 5),
          cost := .value (some 1) }
      pricing := some ⟨some (1 / 1000), some (2 / 1000), none⟩
      promptTokens := 10
      step := some step
      provider := "openai"
      model := "m"
      provider_named := freeCall.provider_named
      model_named := freeCall.model_named }

def fresh : RunCalls := ⟨⟨.executing, some "m", some ⟨some 1, some 1, none⟩, []⟩, [], []⟩

def twoSteps : List Label :=
  [.modelCall (dollarCall 1), .completesStep, .modelCall (dollarCall 2), .completesStep,
    .moves .completed]

/-- Two calls are made and covered, and cost two dollars. -/
theorem savings_cover_twoSteps : ∃ s, run step fresh twoSteps = some s ∧
    s.providerCallsMade.length = 2 ∧
    (calculateSavingsForRun (fun _ => none) (some s.usage) none .undefined).actualCost = some 2 := by
  have hRun : (run step fresh twoSteps).map (fun s =>
      (s.providerCallsMade.length, s.providerCallsMade.map (fun call => call.canonicalCostUsd),
        (calculateSavingsForRun (fun _ => none) (some s.usage) none .undefined).calculationStatus)) =
      some (2, [some 1, some 1], "verified_modeled") := by
    decide +kernel
  obtain ⟨s, hs, hState⟩ := Option.map_eq_some_iff.mp hRun
  obtain ⟨hLength, hState⟩ := Prod.mk.inj hState
  obtain ⟨hCosts, hVerified⟩ := Prod.mk.inj hState
  have hReach : Reach step Lossless Start s :=
    (Reach.start ⟨rfl, rfl, rfl⟩).run hs
      ⟨fun hFull => absurd hFull (by decide), trivial, fun hFull => absurd hFull (by decide),
        trivial, trivial, trivial⟩
  have hActual := (savings_cover_calls hReach).2 (fun _ => none) none .undefined [1, 1] hCosts
    hVerified
  exact ⟨s, hs, hLength, hActual.trans (by decide +kernel)⟩

/-- The run fails after a call that no completed step has saved, and its retry recovers. -/
def recovered : List Label :=
  [.modelCall (dollarCall 1), .completesStep, .modelCall (dollarCall 2), .moves .failed,
    .recovers 0, .modelCall (dollarCall 2), .moves .completed]

/-- Three dollars are spent and two are in the savings. -/
theorem recovered_call_unpriced : ¬ ∀ s, Reach step Anything Start s →
    s.usage.status = .completed →
    extractStepsFromRun s.usage = s.providerCallsMade.map fun call => stepOf call.toModelCall := by
  intro h
  have hRun : (run step fresh recovered).map (fun s =>
      (s.usage.status, (extractStepsFromRun s.usage).length, s.providerCallsMade.length)) =
      some (.completed, 2, 3) := by
    decide +kernel
  obtain ⟨s, hs, hState⟩ := Option.map_eq_some_iff.mp hRun
  obtain ⟨hCompleted, hState⟩ := Prod.mk.inj hState
  obtain ⟨hPriced, hMade⟩ := Prod.mk.inj hState
  have hLength := congrArg List.length (h s (reach_of_run ⟨rfl, rfl, rfl⟩ hs) hCompleted)
  rw [List.length_map, hPriced, hMade] at hLength
  cases hLength

end RunCalls

end OrchestraAI.Economics
