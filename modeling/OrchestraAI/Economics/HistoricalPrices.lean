import OrchestraAI.Economics.CallCoverage
import OrchestraAI.Economics.SavingsArithmetic

/-! # Historical prices

What a registry can still change in the economics of records that have been made. A record with a
canonical cost is never priced again; without one it is, unless its source says that the cost is
unknown.
-/

namespace OrchestraAI.Economics

open FallibleFold
open OrchestraAI.Recovery (truthy)

/-- What `createModelCallRecord` is given. -/
structure CallInput where
  record : RecordInput
  step : Option Nat
  provider : Option String
  model : Option String
  pricingSnapshot : Option Pricing

namespace CallInput

def call (c : CallInput) : ModelCall :=
  { createModelCallRecord c.record with
    step := c.step
    provider := truthy c.provider
    model := truthy c.model
    pricingSnapshot := some (c.pricingSnapshot.getD ⟨none, none, none⟩) }

def Counted (c : CallInput) : Prop :=
  c.call.usage.inputTokens.isSome ∧ c.call.usage.outputTokens.isSome

def Marked (c : CallInput) : Prop := unknownSource c.call.costSource = true

def Settled (c : CallInput) : Prop :=
  c.call.providerCall = true → c.call.canonicalCostUsd = none → c.Counted → c.Marked

variable {c : CallInput} {cost : ℚ} {model : String} {registry registry' : ModelRegistry}

theorem ownCost_eq (h : c.call.canonicalCostUsd = some cost) :
    ownCost (stepOf c.call) = some cost := by
  have hSign : 0 ≤ cost := createModelCallRecord_nonneg c.record h
  have hKnown : knownAmount (stepOf c.call).canonicalCostUsd = some cost := by
    simp [knownAmount, stepOf, h, hSign]
  rw [ownCost, hKnown]
  rfl

theorem tokenValue_nullableNonNegative (value : Option ℚ) (required : Bool) :
    tokenValue (nullableNonNegative value) required ≠ .nan := by
  unfold tokenValue
  split
  · split_ifs <;> exact TokenValue.noConfusion
  · rename_i n hValue
    rw [if_pos (knownAmount_nonneg hValue)]
    exact TokenValue.noConfusion

theorem tokenValue_required {value : Option ℚ} (hNan : tokenValue value true ≠ .nan)
    (h : value.isSome) : ∃ n, tokenValue value true = .number n := by
  cases value with
  | none => cases h
  | some n =>
    unfold tokenValue at hNan ⊢
    dsimp only at hNan ⊢
    split_ifs at hNan ⊢
    · exact ⟨n, rfl⟩
    · exact (hNan rfl).elim

theorem tokenValue_optional {value : Option ℚ} (hNan : tokenValue value false ≠ .nan) :
    ∃ n, tokenValue value false = .number n := by
  cases value with
  | none => exact ⟨0, rfl⟩
  | some n =>
    unfold tokenValue at hNan ⊢
    dsimp only at hNan ⊢
    split_ifs at hNan ⊢
    · exact ⟨n, rfl⟩
    · exact (hNan rfl).elim

theorem stepTokens_counted (h : c.Counted) : ∃ t, stepTokens (stepOf c.call) = .ok t := by
  obtain ⟨input, hInput⟩ := tokenValue_required (tokenValue_nullableNonNegative _ true) h.1
  obtain ⟨output, hOutput⟩ := tokenValue_required (tokenValue_nullableNonNegative _ true) h.2
  obtain ⟨cached, hCached⟩ := tokenValue_optional
    (tokenValue_nullableNonNegative c.record.usage.cachedTokens false)
  obtain ⟨reasoning, hReasoning⟩ := tokenValue_optional
    (tokenValue_nullableNonNegative c.record.usage.reasoningTokens false)
  refine ⟨⟨input, output, cached, reasoning⟩, ?_⟩
  have hInput : tokenValue (stepOf c.call).inputTokens true = .number input := hInput
  have hOutput : tokenValue (stepOf c.call).outputTokens true = .number output := hOutput
  have hCached : tokenValue (stepOf c.call).cachedTokens false = .number cached := hCached
  have hReasoning : tokenValue (stepOf c.call).reasoningTokens false = .number reasoning :=
    hReasoning
  rw [stepTokens, hInput, hOutput, hCached, hReasoning]

theorem counted_of_stepTokens {t : TokenCounts} (h : stepTokens (stepOf c.call) = .ok t) :
    c.Counted := by
  have hSome {value : Option ℚ} {n : ℚ} (hValue : tokenValue value true = .number n) :
      value.isSome := by
    cases value with
    | none => cases hValue
    | some n => rfl
  unfold stepTokens at h
  split at h
  · rename_i hInput hOutput _ _
    exact ⟨hSome hInput, hSome hOutput⟩
  · split_ifs at h

theorem actualCost_congr (h : c.call.canonicalCostUsd = some cost) :
    calculateStepActualCost (stepOf c.call) model registry =
      calculateStepActualCost (stepOf c.call) model registry' := by
  cases hTokens : stepTokens (stepOf c.call) with
  | error e => simp only [calculateStepActualCost, hTokens]
  | ok t =>
    rw [calculateStepActualCost_eq hTokens, calculateStepActualCost_eq hTokens, ownCost_eq h]
    rfl

theorem actualCost_eq (h : c.call.canonicalCostUsd = some cost) (hCounted : c.Counted)
    (hMarked : unknownSource c.call.costSource ≠ true) :
    calculateStepActualCost (stepOf c.call) model registry = .ok cost := by
  obtain ⟨t, hTokens⟩ := stepTokens_counted hCounted
  have hSource : ¬ unknownSource (stepOf c.call).costSource = true := hMarked
  rw [calculateStepActualCost_eq hTokens, ownCost_eq h, if_neg hSource]
  rfl

theorem actualCost_of_settled (h : c.Settled) (hCall : c.call.providerCall = true) :
    calculateStepActualCost (stepOf c.call) model registry =
      calculateStepActualCost (stepOf c.call) model registry' := by
  cases hCost : c.call.canonicalCostUsd with
  | some cost => exact actualCost_congr hCost
  | none =>
    cases hTokens : stepTokens (stepOf c.call) with
    | error e => simp only [calculateStepActualCost, hTokens]
    | ok t =>
      have hMarked : unknownSource (stepOf c.call).costSource = true :=
        h hCall hCost (counted_of_stepTokens hTokens)
      rw [calculateStepActualCost_eq hTokens, calculateStepActualCost_eq hTokens, if_pos hMarked,
        if_pos hMarked]

end CallInput

def SavingsResult.economics (r : SavingsResult) :
    Option ℚ × Option ℚ × Option ℚ × ℚ × SavingsStatus :=
  (r.baselineCost, r.actualCost, r.savings, r.platformFee, r.status)

section Run

variable {registry registry' : ModelRegistry} {run : RunUsage} {calls : List CallInput}

theorem addStep_of_settled (hCalls : ∀ c ∈ calls, c.Settled)
    (hRun : run.modelCalls = calls.map CallInput.call) (pricing : Pricing) (id : String) :
    ∀ step ∈ extractStepsFromRun run, ∀ t,
      addStep registry pricing id t step = addStep registry' pricing id t step := by
  intro step hStep t
  obtain ⟨call, hCall, rfl⟩ := List.mem_map.mp hStep
  rw [hRun] at hCall
  obtain ⟨hMem, hProvider⟩ := List.mem_filter.mp hCall
  obtain ⟨c, hc, rfl⟩ := List.mem_map.mp hMem
  unfold addStep
  cases truthy (stepOf c.call).model with
  | none => rfl
  | some model =>
    cases truthy (stepOf c.call).provider with
    | none => rfl
    | some provider =>
      have hActual : calculateStepActualCost (stepOf c.call) model registry =
          calculateStepActualCost (stepOf c.call) model registry' :=
        CallInput.actualCost_of_settled (hCalls c hc) hProvider
      dsimp only
      rw [hActual]

theorem economics_calculateSavings {pricing : Pricing} {steps : List Step}
    {reference reference' : ReferenceModel} (hId : reference'.modelId = reference.modelId)
    (hSteps : ∀ step ∈ steps, ∀ t, addStep registry pricing reference.modelId t step =
      addStep registry' pricing reference.modelId t step) (fee : Field) :
    (calculateSavings registry (some reference) steps (some pricing) fee).economics =
      (calculateSavings registry' (some reference') steps (some pricing) fee).economics := by
  unfold calculateSavings calculated
  dsimp only
  rw [hId, Option.some_or, Option.some_or]
  dsimp only
  split_ifs
  · rw [foldlM_congr hSteps]
    cases steps.foldlM (addStep registry' pricing reference.modelId) Totals.zero with
    | error error => rfl
    | ok totals => rfl
  · rfl

theorem economics_of_settled (hCalls : ∀ c ∈ calls, c.Settled)
    (hRun : run.modelCalls = calls.map CallInput.call)
    (hSnapshot : run.referencePricingSnapshot.isSome) (explicit : Option String) (fee : Field) :
    (calculateSavingsForRun registry (some run) explicit fee).economics =
      (calculateSavingsForRun registry' (some run) explicit fee).economics := by
  obtain ⟨pricing, hPricing⟩ := Option.isSome_iff_exists.mp hSnapshot
  unfold calculateSavingsForRun getReferenceModel
  dsimp only
  rw [hPricing]
  cases (truthy ((truthy explicit).or (truthy run.referenceModelId))).or
      (truthy run.referenceModelId) with
  | none => split_ifs <;> rfl
  | some requested =>
    dsimp only [Option.map_some]
    split_ifs
    · rfl
    · rfl
    · refine economics_calculateSavings ?_ ?_ fee
      · rfl
      · exact addStep_of_settled hCalls hRun pricing requested

end Run

/-- A canonical cost is never priced again, and with the pricing of the reference model recorded no
registry changes what is billed, as long as a call without a canonical cost says so. -/
theorem never_repriced (registry registry' : ModelRegistry) :
    (∀ (c : CallInput) (cost : ℚ) (model : String), c.call.canonicalCostUsd = some cost →
      calculateStepActualCost (stepOf c.call) model registry =
        calculateStepActualCost (stepOf c.call) model registry' ∧
      (c.Counted → ¬ c.Marked →
        calculateStepActualCost (stepOf c.call) model registry = .ok cost)) ∧
    ∀ (run : RunUsage) (calls : List CallInput), run.modelCalls = calls.map CallInput.call →
      run.referencePricingSnapshot.isSome → (∀ c ∈ calls, c.Settled) →
      ∀ (explicit : Option String) (fee : Field),
        (calculateSavingsForRun registry (some run) explicit fee).economics =
          (calculateSavingsForRun registry' (some run) explicit fee).economics := by
  constructor
  · intro c cost model hCost
    exact ⟨CallInput.actualCost_congr hCost, CallInput.actualCost_eq hCost⟩
  · intro run calls hRun hSnapshot hCalls explicit fee
    exact economics_of_settled hCalls hRun hSnapshot explicit fee

def reportedCall (input output : Option ℚ) : CallInput where
  record :=
    { providerCall := true
      cacheType := none
      usage := ⟨input, output, none, none⟩
      usageSource := none
      providerCostUsd := some 3
      calculatedCostUsd := none
      costSource := none }
  step := some 1
  provider := some "Provider Z"
  model := some "small"
  pricingSnapshot := none

def renamedCall : CallInput where
  record :=
    { providerCall := true
      cacheType := none
      usage := ⟨some 1000, some 500, none, none⟩
      usageSource := none
      providerCostUsd := none
      calculatedCostUsd := none
      costSource := some "provider_reported" }
  step := some 1
  provider := some "Provider Z"
  model := some "small"
  pricingSnapshot := none

def historicalRun (calls : List CallInput) : RunUsage :=
  ⟨.completed, some "large", some largePricing, calls.map CallInput.call⟩

theorem never_repriced_reported :
    calculateStepActualCost (stepOf (reportedCall (some 1000) (some 500)).call) "small" twoModels =
        .ok 3 ∧
      (calculateSavingsForRun twoModels
          (some (historicalRun [reportedCall (some 1000) (some 500)])) none .undefined).economics =
        (calculateSavingsForRun (fun _ => none)
          (some (historicalRun [reportedCall (some 1000) (some 500)])) none .undefined).economics := by
  obtain ⟨hCost, hRun⟩ := never_repriced twoModels fun _ => none
  constructor
  · apply (hCost (reportedCall (some 1000) (some 500)) 3 "small" (by decide +kernel)).2
    · exact ⟨by decide +kernel, by decide +kernel⟩
    · unfold CallInput.Marked
      decide +kernel
  · refine hRun _ [reportedCall (some 1000) (some 500)] rfl rfl ?_ none .undefined
    intro c hc
    rw [List.mem_singleton.mp hc]
    exact fun _ hNone => absurd hNone (by decide +kernel)

/-- Without counts a known charge is no price; a cost that is unknown under another name comes from
the registry. -/
theorem charge_lost_and_repriced :
    (¬ ∀ (c : CallInput) (cost : ℚ) (model : String), c.call.canonicalCostUsd = some cost →
      calculateStepActualCost (stepOf c.call) model twoModels = .ok cost) ∧
    ¬ ∀ (run : RunUsage) (calls : List CallInput), run.modelCalls = calls.map CallInput.call →
      run.referencePricingSnapshot.isSome →
        (calculateSavingsForRun twoModels (some run) none .undefined).economics =
          (calculateSavingsForRun (fun _ => none) (some run) none .undefined).economics := by
  constructor
  · intro h
    have hCost := h (reportedCall none none) 3 "small" (by decide +kernel)
    exact absurd hCost (by decide +kernel)
  · intro h
    have hRun := h (historicalRun [renamedCall]) [renamedCall] rfl rfl
    exact absurd hRun (by decide +kernel)

end OrchestraAI.Economics
