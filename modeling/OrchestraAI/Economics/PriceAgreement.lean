import OrchestraAI.Economics.ProviderCharge
import OrchestraAI.Economics.Savings

/-! # Two prices of one call

The estimate that `_callModel` records and the baseline of the savings engine, for calls
that ran on the reference model and for which the provider reports no charge.
-/

namespace OrchestraAI.Economics

open OrchestraAI.Recovery (truthy)

/-- A registry entry with finite rates for input and output. -/
structure KnownRates where
  inputPer1k : ℚ
  outputPer1k : ℚ
  cachedPer1k : Option ℚ

def KnownRates.pricing (r : KnownRates) : Pricing := ⟨some r.inputPer1k, some r.outputPer1k, r.cachedPer1k⟩

/-- A call with reported counts at these rates, without a charge of the provider. -/
structure UnchargedCall (r : KnownRates) where
  promptTokens : ℚ
  response : ModelResponse
  step : Option Nat
  provider : String
  model : String
  provider_named : provider ≠ ""
  model_named : model ≠ ""
  input_reported : response.usage.inputTokens.observed.isSome
  output_reported : response.usage.outputTokens.observed.isSome
  uncharged : response.providerCostUsd = none

namespace UnchargedCall

variable {r : KnownRates} (c : UnchargedCall r)

def call : ProviderCall := ⟨some r.pricing, c.promptTokens, c.response⟩

def record : ModelCall :=
  { c.call.record with
    step := c.step
    provider := some c.provider
    model := some c.model
    pricingSnapshot := some r.pricing }

def tokens : TokenCounts := c.call.tokens

/-- What `calculateStepBaselineCost` gives for the counts. -/
def baselineCost : ℚ := (normalizeModelCost c.tokens r.pricing).totalUsd

def SamePrice : Prop := c.record.canonicalCostUsd = some c.baselineCost

/-- What the cached tokens would cost more at the input rate than at the default cached rate. -/
def cachedGap : ℚ := c.tokens.cached / 1000 * (r.inputPer1k - defaultPricing.cachedPer1k)

/-- The estimate is not negative, and either there is a cached rate or no rounding boundary lies
within the gap. -/
def PricesAlike : Prop :=
  0 ≤ c.call.tokenCost ∧
    (r.cachedPer1k ≠ none ∨ round6 c.call.tokenCost = round6 (c.call.tokenCost + c.cachedGap))

instance : Decidable c.PricesAlike := inferInstanceAs (Decidable (_ ∧ _))

variable {c}

theorem metered : c.call.Metered :=
  ⟨Option.isSome_iff_exists.mp c.input_reported, Option.isSome_iff_exists.mp c.output_reported,
    r.pricing, rfl, .inl (by simp [KnownRates.pricing])⟩

theorem record_costSource : c.record.costSource = "pricing_snapshot" := by
  obtain ⟨hUsage, hPriced⟩ := ProviderCall.metered_iff.mp c.metered
  have hCost : c.call.response.providerCostUsd = none := c.uncharged
  have hRecord : c.record.costSource = c.call.record.costSource := rfl
  rw [hRecord]
  simp [ProviderCall.record, createModelCallRecord, hUsage, hPriced, hCost, orText]

theorem record_canonical : c.record.canonicalCostUsd =
    if 0 ≤ c.call.tokenCost then some (round6 c.call.tokenCost) else none := by
  have hCost : c.call.response.providerCostUsd = none := c.uncharged
  have hProvider : c.call.record.providerCostUsd = none := by
    simp [ProviderCall.record, createModelCallRecord, hCost, nullableNonNegative]
  have hSource : c.call.record.costSource = "pricing_snapshot" := c.record_costSource
  have hCanonical : c.record.canonicalCostUsd = c.call.record.canonicalCostUsd := rfl
  rw [hCanonical, ProviderCall.record_canonical, hProvider, hSource, Option.none_or,
    if_neg (by decide)]
  obtain ⟨-, hSign, h⟩ | ⟨hNot, h⟩ := c.call.record_calculated_cases
  · rw [h, if_pos hSign]
  · rw [h, if_neg fun hSign => hNot ⟨c.metered, hSign⟩]

theorem baselineCost_eq : c.baselineCost =
    round6 (if r.cachedPer1k = none then c.call.tokenCost + c.cachedGap else c.call.tokenCost) := by
  unfold baselineCost normalizeModelCost cachedGap ProviderCall.tokenCost
  simp only [KnownRates.pricing, call, resolveModelPricing, Option.isSome_some, Bool.true_or,
    if_true, Option.getD_some, tokens]
  cases r.cachedPer1k with
  | none =>
    simp only [Option.getD_none, if_true]
    congr 1
    ring
  | some rate =>
    simp only [Option.getD_some, reduceCtorEq, if_false]
    congr 1
    ring

theorem samePrice_iff : c.SamePrice ↔ c.PricesAlike := by
  unfold SamePrice PricesAlike
  rw [record_canonical, baselineCost_eq]
  by_cases hSign : 0 ≤ c.call.tokenCost
  · cases hRate : r.cachedPer1k with
    | none => simp [hSign]
    | some rate => simp [hSign]
  · simp [hSign]

end UnchargedCall

variable {r : KnownRates}

theorem tokenValue_observed (f : Field) (required : Bool) (h : required = true → f.observed.isSome) :
    tokenValue (nullableNonNegative f.observed) required = .number (f.observed.getD 0) := by
  have hIdem : nullableNonNegative f.observed = f.observed := by
    simp only [nullableNonNegative, Field.observed, Option.filter_filter, Bool.and_self]
  rw [hIdem]
  cases hCount : f.observed with
  | none =>
    rw [hCount] at h
    cases required with
    | true => cases h rfl
    | false => rfl
  | some n => simp [tokenValue, ProviderCall.observed_nonneg hCount]

theorem UnchargedCall.stepTokens (c : UnchargedCall r) :
    stepTokens (stepOf c.record) = .ok c.tokens := by
  have hInput := tokenValue_observed c.response.usage.inputTokens true fun _ => c.input_reported
  have hOutput := tokenValue_observed c.response.usage.outputTokens true fun _ => c.output_reported
  have hCached := tokenValue_observed c.response.usage.cachedTokens false (by simp)
  have hReasoning := tokenValue_observed c.response.usage.reasoningTokens false (by simp)
  obtain ⟨input, hIn⟩ := Option.isSome_iff_exists.mp c.input_reported
  unfold Economics.stepTokens
  simp only [stepOf, record, ProviderCall.record, createModelCallRecord, ProviderCall.observedUsage,
    call, hInput, hOutput, hCached, hReasoning]
  simp [tokens, ProviderCall.tokens, ProviderCall.observedUsage, call, hIn]

theorem addStep_samePrice (registry : ModelRegistry) (id : String) {c : UnchargedCall r}
    (h : c.PricesAlike) {t : Totals} (ht : t.baseline = t.actual) :
    ∃ t', addStep registry r.pricing id t (stepOf c.record) = .ok t' ∧ t'.baseline = t'.actual := by
  have hModel : truthy (stepOf c.record).model = some c.model := by
    simp [stepOf, UnchargedCall.record, truthy, c.model_named]
  have hProvider : truthy (stepOf c.record).provider = some c.provider := by
    simp [stepOf, UnchargedCall.record, truthy, c.provider_named]
  have hBaseline : calculateStepBaselineCost (stepOf c.record) r.pricing = .ok c.baselineCost := by
    simp only [calculateStepBaselineCost, c.stepTokens]
    rfl
  have hSame : c.record.canonicalCostUsd = some c.baselineCost := UnchargedCall.samePrice_iff.mpr h
  have hKnown : knownAmount (stepOf c.record).canonicalCostUsd = some c.baselineCost := by
    have hSign : 0 ≤ c.baselineCost := by
      rw [UnchargedCall.record_canonical, if_pos h.1] at hSame
      rw [← Option.some.inj hSame]
      exact RoundedGrid.toGrid_nonneg _ h.1
    simp [knownAmount, stepOf, hSame, hSign]
  have hActual : calculateStepActualCost (stepOf c.record) c.model registry =
      .ok c.baselineCost := by
    have hSource : unknownSource (stepOf c.record).costSource = false := by
      have hEq : (stepOf c.record).costSource = "pricing_snapshot" := c.record_costSource
      rw [hEq]
      decide
    simp only [calculateStepActualCost, c.stepTokens, hSource, hKnown]
    rfl
  unfold addStep
  simp only [hModel, hProvider, hBaseline, hActual]
  exact ⟨_, rfl, by simp only [ht]⟩

theorem foldlM_samePrice (registry : ModelRegistry) (id : String) {steps : List Step}
    (hSteps : ∀ s ∈ steps, ∃ c : UnchargedCall r, c.PricesAlike ∧ s = stepOf c.record)
    {t : Totals} (ht : t.baseline = t.actual) :
    ∃ t', steps.foldlM (addStep registry r.pricing id) t = .ok t' ∧ t'.baseline = t'.actual := by
  induction steps generalizing t with
  | nil => exact ⟨t, rfl, ht⟩
  | cons s steps ih =>
    obtain ⟨c, hAlike, rfl⟩ := hSteps s List.mem_cons_self
    obtain ⟨next, hNext, hSame⟩ := addStep_samePrice registry id hAlike ht
    obtain ⟨last, hLast, hTotals⟩ := ih (fun s hs => hSteps s (List.mem_cons_of_mem _ hs)) hSame
    refine ⟨last, ?_, hTotals⟩
    rw [List.foldlM_cons, hNext]
    exact hLast

/-- A completed run of which every call ran on the reference model. -/
structure ReferenceRun (r : KnownRates) where
  registry : ModelRegistry
  run : RunUsage
  explicitReferenceModelId : Option String
  model : String
  completed : run.status = .completed
  reference : (truthy explicitReferenceModelId).or (truthy run.referenceModelId) = some model
  priced : run.referencePricingSnapshot.or (getPricingForModel registry model) = some r.pricing
  calls : List (UnchargedCall r)
  onReference : ∀ c ∈ calls, c.model = model
  recorded : run.modelCalls = calls.map UnchargedCall.record

def ReferenceRun.result {r : KnownRates} (u : ReferenceRun r) (fee : Field) : SavingsResult :=
  calculateSavingsForRun u.registry (some u.run) u.explicitReferenceModelId fee

theorem ReferenceRun.steps_eq {r : KnownRates} (u : ReferenceRun r) :
    extractStepsFromRun u.run = u.calls.map fun c => stepOf c.record := by
  have hAll : (u.calls.map UnchargedCall.record).filter (fun call => call.providerCall) =
      u.calls.map UnchargedCall.record := by
    refine List.filter_eq_self.mpr fun call hCall => ?_
    obtain ⟨c, -, rfl⟩ := List.mem_map.mp hCall
    rfl
  rw [extractStepsFromRun, u.recorded, hAll, List.map_map]
  rfl

theorem ReferenceRun.savings {r : KnownRates} (u : ReferenceRun r)
    (h : ∀ c ∈ u.calls, c.PricesAlike) (fee : Field) :
    (u.result fee).savings = some 0 ∧
      (u.calls ≠ [] → (u.result fee).calculationStatus = "verified_modeled") := by
  have hReference : getReferenceModel u.run u.registry
      ((truthy u.explicitReferenceModelId).or (truthy u.run.referenceModelId)) =
        some ⟨u.model, (u.registry u.model).bind fun m => truthy m.provider, "explicit"⟩ := by
    have hNamed : truthy (some u.model) = some u.model := by
      have hMem := u.reference
      obtain hLeft | ⟨-, hRight⟩ := Option.or_eq_some_iff.mp hMem
      · obtain ⟨-, hne⟩ := Option.filter_eq_some_iff.mp hLeft
        simpa [truthy] using hne
      · obtain ⟨-, hne⟩ := Option.filter_eq_some_iff.mp hRight
        simpa [truthy] using hne
    rw [u.reference, getReferenceModel, hNamed]
    rfl
  have hValid : (validatePricing r.pricing).isEmpty = true := rfl
  have hSteps : ∀ s ∈ extractStepsFromRun u.run,
      ∃ c : UnchargedCall r, c.PricesAlike ∧ s = stepOf c.record := by
    rw [u.steps_eq]
    intro s hs
    obtain ⟨c, hc, rfl⟩ := List.mem_map.mp hs
    exact ⟨c, h c hc, rfl⟩
  obtain ⟨totals, hTotals, hSame⟩ := foldlM_samePrice u.registry u.model hSteps
    (show Totals.zero.baseline = Totals.zero.actual from rfl)
  unfold ReferenceRun.result calculateSavingsForRun
  simp only [u.completed, ne_eq, not_true_eq_false, if_false, hReference]
  split
  · rename_i hEmpty
    refine ⟨rfl, fun hCalls => ?_⟩
    rw [u.steps_eq, List.isEmpty_iff, List.map_eq_nil_iff] at hEmpty
    exact absurd hEmpty hCalls
  · simp only [calculateSavings, calculated, u.priced, hValid, if_true, hTotals]
    have hZero : totals.baseline - totals.actual = 0 := by rw [hSame, sub_self]
    constructor
    · simp [addBillingFields, totalsResult, amount, Field.ofNullable, Field.toNumber, hZero, round6]
    · intro _
      simp only [addBillingFields, totalsResult, hZero, determineSavingsStatus]
      split <;> rfl

/-- The recorded cost is the baseline exactly when the estimate is not negative and a missing
cached rate makes no difference that survives rounding; a run of such calls saves nothing. -/
theorem same_price_iff (r : KnownRates) :
    (∀ c : UnchargedCall r, c.SamePrice ↔ c.PricesAlike) ∧
    ∀ (u : ReferenceRun r) (fee : Field), (∀ c ∈ u.calls, c.PricesAlike) →
      (u.result fee).savings = some 0 ∧
        (u.calls ≠ [] → (u.result fee).calculationStatus = "verified_modeled") :=
  ⟨fun _ => UnchargedCall.samePrice_iff, fun u fee h => u.savings h fee⟩

def countsOf (input output cached : ℚ) : ModelResponse where
  usage :=
    { inputTokens := .value (some input)
      outputTokens := .value (some output)
      cachedTokens := .value (some cached)
      reasoningTokens := .undefined
      costUsd := .undefined }
  costUsd := .undefined
  usageSource := none

def ratedCall : UnchargedCall ⟨1 / 1000, 2 / 1000, some (1 / 10000)⟩ where
  promptTokens := 0
  response := countsOf 1000 500 1500
  step := some 1
  provider := "demo"
  model := "m"
  provider_named := by decide
  model_named := by decide
  input_reported := by decide +kernel
  output_reported := by decide +kernel
  uncharged := by decide +kernel

def ratedRun : ReferenceRun ⟨1 / 1000, 2 / 1000, some (1 / 10000)⟩ where
  registry := fun id => if id = "m" then some ⟨some "demo", KnownRates.pricing _⟩ else none
  run := ⟨.completed, some "m", none, [ratedCall.record]⟩
  explicitReferenceModelId := none
  model := "m"
  completed := rfl
  reference := by decide
  priced := rfl
  calls := [ratedCall]
  onReference := by
    intro c hc
    rw [List.mem_singleton.mp hc]
    rfl
  recorded := rfl

theorem same_price_ratedRun : (ratedRun.result .undefined).savings = some 0 ∧
    (ratedRun.result .undefined).calculationStatus = "verified_modeled" := by
  obtain ⟨hSavings, hStatus⟩ := (same_price_iff _).2 ratedRun .undefined (by
    intro c hc
    rw [List.mem_singleton.mp hc]
    decide +kernel)
  exact ⟨hSavings, hStatus (List.cons_ne_nil _ _)⟩

/-- A thousand tokens, all of them cached, at a cent per thousand and no cached rate. -/
def cachedCall : UnchargedCall ⟨1 / 100, 0, none⟩ where
  promptTokens := 0
  response := countsOf 1000 0 1000
  step := some 1
  provider := "demo"
  model := "m"
  provider_named := by decide
  model_named := by decide
  input_reported := by decide +kernel
  output_reported := by decide +kernel
  uncharged := by decide +kernel

/-- Cached tokens without a rate are recorded at the default rate and compared at the input
rate. -/
theorem phantom_savings : ¬ ∀ (r : KnownRates) (c : UnchargedCall r), c.SamePrice := by
  intro h
  exact absurd (UnchargedCall.samePrice_iff.mp (h _ cachedCall)) (by decide +kernel)

end OrchestraAI.Economics
