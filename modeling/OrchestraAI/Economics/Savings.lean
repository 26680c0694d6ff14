import OrchestraAI.Core.StateMachine
import OrchestraAI.Economics.ModelCallRecord
import OrchestraAI.Recovery.Plan

/-! # The savings engine

`savings/savings-engine.js` with `normalizeModelCost` of `cost/breakdown.js`, over exact
rationals. Timestamps and the pricing snapshots of a result are left out; the sources of
prices matter only there.
-/

namespace OrchestraAI.Economics

open OrchestraAI.Core (TaskStatus)
open OrchestraAI.Recovery (truthy)

structure RegisteredModel where
  provider : Option String
  pricing : Pricing

/-- `modelRegistry.models`. -/
abbrev ModelRegistry := String → Option RegisteredModel

structure ModelCall extends ModelCallRecord where
  step : Option Nat
  provider : Option String
  model : Option String
  pricingSnapshot : Option Pricing

structure RunUsage where
  status : TaskStatus
  referenceModelId : Option String
  referencePricingSnapshot : Option Pricing
  modelCalls : List ModelCall

structure ReferenceModel where
  modelId : String
  provider : Option String
  source : String
  deriving DecidableEq

structure Step where
  step : Option Nat
  provider : Option String
  model : Option String
  inputTokens : Option ℚ
  outputTokens : Option ℚ
  cachedTokens : Option ℚ
  reasoningTokens : Option ℚ
  providerCostUsd : Option ℚ
  canonicalCostUsd : Option ℚ
  costSource : String
  pricingSnapshot : Option Pricing
  actualCost : Option ℚ

inductive SavingsStatus
  | verifiedModeled
  | noSavings
  | costIncrease
  | insufficientPricingData
  | incompleteRun
  deriving DecidableEq

def SavingsStatus.text : SavingsStatus → String
  | verifiedModeled => "verified_modeled"
  | noSavings => "no_savings"
  | costIncrease => "cost_increase"
  | insufficientPricingData => "insufficient_pricing_data"
  | incompleteRun => "incomplete_run"

structure StepBreakdown where
  step : Option Nat
  provider : String
  actualModel : String
  referenceModel : String
  actualCost : ℚ
  baselineCost : ℚ
  delta : ℚ

/-- A branch reports the reference model by its id, or whole. -/
inductive Reference
  | null
  | id (modelId : String)
  | model (m : ReferenceModel)
  deriving DecidableEq

/-- What the branches of the engine hand to `addBillingFields`. -/
structure Calculated where
  status : SavingsStatus
  referenceModel : Reference
  baselineCost : Option ℚ
  actualCost : Option ℚ
  savings : Option ℚ
  savingsRate : Option ℚ
  usage : ObservedUsage
  steps : List StepBreakdown
  error : Option String

structure SavingsResult extends Calculated where
  calculationStatus : String
  economicOutcome : Option String
  platformFeePct : ℚ
  eligibleSavings : ℚ
  platformFee : ℚ
  customerFinalCost : Option ℚ
  customerNetSavings : Option ℚ
  economicsStatus : String
  invoiceStatus : String

def Field.ofNullable : Option ℚ → Field
  | none => .null
  | some n => .value (some n)

def defaultPlatformFeePct : ℚ := 1 / 4

def normalizeFeePct (value : Field) : ℚ :=
  match value.toNumber with
  | some n => max 0 (min 1 n)
  | none => defaultPlatformFeePct

/-- `Number.isFinite(Number(value)) ? Number(value) : null`. -/
def amount (value : Option ℚ) : Option ℚ := (Field.ofNullable value).toNumber

def calculationStatusOf : SavingsStatus → String
  | .incompleteRun => "incomplete"
  | .insufficientPricingData => "insufficient_data"
  | _ => "verified_modeled"

def addBillingFields (result : Calculated) (platformFeePct : Field) : SavingsResult :=
  let feePct := normalizeFeePct platformFeePct
  let baseline := amount result.baselineCost
  let actual := amount result.actualCost
  let savings := amount result.savings
  let eligible :=
    match savings with
    | some n => if result.status = .verifiedModeled then max 0 n else 0
    | none => 0
  let platformFee := round6 (eligible * feePct)
  let calculationStatus := calculationStatusOf result.status
  { result with
    baselineCost := baseline
    actualCost := actual
    savings := savings
    calculationStatus := calculationStatus
    economicOutcome :=
      if calculationStatus ≠ "verified_modeled" then none
      else savings.map fun n =>
        if 0 < eligible then "saved" else if n = 0 then "unchanged" else "cost_increase"
    platformFeePct := feePct
    eligibleSavings := round6 eligible
    platformFee := platformFee
    customerFinalCost := actual.map fun a => round6 (a + platformFee)
    customerNetSavings :=
      match baseline, actual with
      | some b, some a => some (round6 (b - a - platformFee))
      | _, _ => none
    economicsStatus :=
      if result.status = .verifiedModeled then "verified_modeled" else "not_eligible"
    invoiceStatus := "not_invoice_reconciled" }

def getReferenceModel (run : RunUsage) (registry : ModelRegistry)
    (explicitReferenceModelId : Option String) : Option ReferenceModel :=
  ((truthy explicitReferenceModelId).or (truthy run.referenceModelId)).map fun requested =>
    ⟨requested, (registry requested).bind fun m => truthy m.provider, "explicit"⟩

def getPricingForModel (registry : ModelRegistry) (modelId : String) : Option Pricing :=
  (registry modelId).map fun m => m.pricing

def validatePricing (pricing : Pricing) : List String :=
  (if pricing.inputPer1k.isSome then [] else ["inputPer1k"]) ++
    if pricing.outputPer1k.isSome then [] else ["outputPer1k"]

/-- What `tokenValue` makes of a number or null. -/
inductive TokenValue
  | nan
  | null
  | number (n : ℚ)
  deriving DecidableEq

def tokenValue (value : Option ℚ) (required : Bool) : TokenValue :=
  match value with
  | none => if required then .null else .number 0
  | some n => if 0 ≤ n then .number n else .nan

structure NormalizedCost where
  inputTokens : ℚ
  cachedInputTokens : ℚ
  outputTokens : ℚ
  reasoningTokens : ℚ
  totalUsd : ℚ

def normalizeModelCost (t : TokenCounts) (pricing : Pricing) : NormalizedCost :=
  let inputPer1k := pricing.inputPer1k.getD 0
  let cachedPer1k := pricing.cachedPer1k.getD inputPer1k
  let outputPer1k := pricing.outputPer1k.getD 0
  let uncached := max 0 (t.input - t.cached)
  let inputCost := uncached / 1000 * inputPer1k
  let cachedCost := t.cached / 1000 * cachedPer1k
  let outputCost := t.output / 1000 * outputPer1k
  let reasoningCost := t.reasoning / 1000 * outputPer1k
  { inputTokens := round6 inputCost
    cachedInputTokens := round6 cachedCost
    outputTokens := round6 outputCost
    reasoningTokens := round6 reasoningCost
    totalUsd := round6 (inputCost + cachedCost + outputCost + reasoningCost + 0) }

structure StepError where
  error : String
  missing : List String
  deriving DecidableEq

def stepTokens (step : Step) : Except StepError TokenCounts :=
  match tokenValue step.inputTokens true, tokenValue step.outputTokens true,
      tokenValue step.cachedTokens false, tokenValue step.reasoningTokens false with
  | .number input, .number output, .number cached, .number reasoning =>
    .ok ⟨input, output, cached, reasoning⟩
  | input, output, cached, reasoning =>
    if input = .nan ∨ output = .nan ∨ cached = .nan ∨ reasoning = .nan then
      .error ⟨"negative_token_values", []⟩
    else
      .error ⟨"insufficient_usage_data", (if input = .null then ["inputTokens"] else []) ++
        if output = .null then ["outputTokens"] else []⟩

def calculateStepBaselineCost (step : Step) (referencePricing : Pricing) : Except StepError ℚ :=
  match stepTokens step with
  | .error e => .error e
  | .ok tokens =>
    let missing := validatePricing referencePricing
    if missing.isEmpty then .ok (normalizeModelCost tokens referencePricing).totalUsd
    else .error ⟨"insufficient_pricing_data", missing⟩

def unknownSource (costSource : String) : Bool :=
  costSource = "unknown" || costSource = "unknown_estimate"

/-- `Number.isFinite(value) && value >= 0`. -/
def knownAmount (value : Option ℚ) : Option ℚ := value.filter (0 ≤ ·)

def calculateStepActualCost (step : Step) (model : String) (registry : ModelRegistry) :
    Except StepError ℚ :=
  match stepTokens step with
  | .error e => .error e
  | .ok tokens =>
    if unknownSource step.costSource then .error ⟨"insufficient_pricing_data", []⟩
    else
      match knownAmount step.canonicalCostUsd, step.pricingSnapshot with
      | some canonical, some _ => .ok canonical
      | _, _ =>
        match knownAmount step.providerCostUsd with
        | some reported => .ok reported
        | none =>
          match (getPricingForModel registry model).filter fun p =>
              p.inputPer1k.isSome && p.outputPer1k.isSome with
          | some pricing => .ok (normalizeModelCost tokens pricing).totalUsd
          | none =>
            match knownAmount step.actualCost with
            | some actual => .ok actual
            | none => .error ⟨"insufficient_pricing_data", []⟩

def stepOf (call : ModelCall) : Step where
  step := call.step
  provider := call.provider
  model := call.model
  inputTokens := call.usage.inputTokens
  outputTokens := call.usage.outputTokens
  cachedTokens := call.usage.cachedTokens
  reasoningTokens := call.usage.reasoningTokens
  providerCostUsd := call.providerCostUsd
  canonicalCostUsd := call.canonicalCostUsd
  costSource := call.costSource
  pricingSnapshot := call.pricingSnapshot
  actualCost := call.canonicalCostUsd

def extractStepsFromRun (run : RunUsage) : List Step :=
  (run.modelCalls.filter fun call => call.providerCall).map stepOf

def determineSavingsStatus (baselineCost savings : ℚ) : SavingsStatus :=
  if baselineCost ≤ 0 then .noSavings
  else if 0 < savings then .verifiedModeled
  else if savings = 0 then .verifiedModeled
  else .costIncrease

def noUsage : ObservedUsage := ⟨none, none, none, none⟩

def withoutAmounts (status : SavingsStatus) (referenceModel : Reference) (error : String) :
    Calculated where
  status := status
  referenceModel := referenceModel
  baselineCost := none
  actualCost := none
  savings := none
  savingsRate := none
  usage := noUsage
  steps := []
  error := some error

structure Totals where
  baseline : ℚ
  actual : ℚ
  input : ℚ
  output : ℚ
  cached : ℚ
  reasoning : ℚ
  steps : List StepBreakdown

def Totals.zero : Totals := ⟨0, 0, 0, 0, 0, 0, []⟩

def stepLabel (step : Step) : String :=
  match step.step with
  | some n => s!"Step {n}"
  | none => "Step null"

def missingText : List String → String
  | [] => ""
  | missing => " (missing: " ++ ", ".intercalate missing ++ ")"

variable (registry : ModelRegistry)

def addStep (referencePricing : Pricing) (referenceModelId : String) (t : Totals) (step : Step) :
    Except String Totals :=
  match truthy step.model, truthy step.provider with
  | some model, some provider =>
    match calculateStepBaselineCost step referencePricing,
        calculateStepActualCost step model registry with
    | .error e, _ => .error s!"{stepLabel step}: {e.error}{missingText e.missing}"
    | .ok _, .error e => .error s!"{stepLabel step} (actual model {model}): {e.error}"
    | .ok baseline, .ok actual =>
      .ok
        { baseline := t.baseline + baseline
          actual := t.actual + actual
          input := t.input + step.inputTokens.getD 0
          output := t.output + step.outputTokens.getD 0
          cached := t.cached + step.cachedTokens.getD 0
          reasoning := t.reasoning + step.reasoningTokens.getD 0
          steps := t.steps ++ [⟨step.step, provider, model, referenceModelId, round6 actual,
            round6 baseline, round6 (baseline - actual)⟩] }
  | _, _ => .ok t

def totalsResult (referenceModel : ReferenceModel) (t : Totals) : Calculated :=
  let savings := t.baseline - t.actual
  { status := determineSavingsStatus t.baseline savings
    referenceModel := .model referenceModel
    baselineCost := some (round6 t.baseline)
    actualCost := some (round6 t.actual)
    savings := some (round6 savings)
    savingsRate := some (if 0 < t.baseline then round6 (savings / t.baseline) else 0)
    usage := ⟨some t.input, some t.output, some t.cached, some t.reasoning⟩
    steps := t.steps
    error := none }

/-- `calculateSavings` up to `addBillingFields`. -/
def calculated (referenceModel : Option ReferenceModel) (steps : List Step)
    (referencePricingSnapshot : Option Pricing) : Calculated :=
  match referenceModel with
  | none => withoutAmounts .insufficientPricingData .null "No reference model available"
  | some reference =>
    let id := reference.modelId
    match referencePricingSnapshot.or (getPricingForModel registry id) with
    | none =>
      withoutAmounts .insufficientPricingData (.id id)
        s!"Reference model {id} not found in registry"
    | some referencePricing =>
      let missing := validatePricing referencePricing
      if missing.isEmpty then
        match steps.foldlM (addStep registry referencePricing id) Totals.zero with
        | .error error => withoutAmounts .insufficientPricingData (.id id) error
        | .ok totals => totalsResult reference totals
      else
        withoutAmounts .insufficientPricingData (.id id)
          (s!"Reference model {id} missing pricing: " ++ ", ".intercalate missing)

def calculateSavings (referenceModel : Option ReferenceModel) (steps : List Step)
    (referencePricingSnapshot : Option Pricing) (platformFeePct : Field) : SavingsResult :=
  addBillingFields (calculated registry referenceModel steps referencePricingSnapshot)
    platformFeePct

def calculateSavingsForRun (run : Option RunUsage) (explicitReferenceModelId : Option String)
    (platformFeePct : Field) : SavingsResult :=
  match run with
  | none =>
    addBillingFields (withoutAmounts .incompleteRun .null "Run is not completed (status: unknown)")
      platformFeePct
  | some run =>
    if run.status ≠ .completed then
      addBillingFields (withoutAmounts .incompleteRun .null
        s!"Run is not completed (status: {run.status.text})") platformFeePct
    else
      let referenceModel := getReferenceModel run registry
        ((truthy explicitReferenceModelId).or (truthy run.referenceModelId))
      let steps := extractStepsFromRun run
      match referenceModel with
      | none =>
        calculateSavings registry none steps run.referencePricingSnapshot platformFeePct
      | some reference =>
        if steps.isEmpty then
          addBillingFields (withoutAmounts .incompleteRun (.model reference)
            "No execution steps with token usage found") platformFeePct
        else
          calculateSavings registry (some reference) steps run.referencePricingSnapshot
            platformFeePct

def SavingsStatus.Unknown (status : SavingsStatus) : Prop :=
  status = .insufficientPricingData ∨ status = .incompleteRun

theorem calculated_cases (referenceModel : Option ReferenceModel) (steps : List Step)
    (snapshot : Option Pricing) :
    (∃ reference error, calculated registry referenceModel steps snapshot =
      withoutAmounts .insufficientPricingData reference error) ∨
    (∃ reference pricing totals, referenceModel = some reference ∧
      snapshot.or (getPricingForModel registry reference.modelId) = some pricing ∧
      steps.foldlM (addStep registry pricing reference.modelId) Totals.zero = .ok totals ∧
      calculated registry referenceModel steps snapshot = totalsResult reference totals) := by
  unfold calculated
  cases referenceModel with
  | none => exact .inl ⟨_, _, rfl⟩
  | some reference =>
    simp only
    cases hPricing : snapshot.or (getPricingForModel registry reference.modelId) with
    | none => exact .inl ⟨_, _, rfl⟩
    | some pricing =>
      simp only
      split
      · cases hTotals : steps.foldlM (addStep registry pricing reference.modelId)
            Totals.zero with
        | error error => exact .inl ⟨_, _, rfl⟩
        | ok totals => exact .inr ⟨reference, pricing, totals, rfl, hPricing, hTotals, rfl⟩
      · exact .inl ⟨_, _, rfl⟩

/-- A turn of the loop skips a step without model or provider, or adds both its costs. -/
theorem addStep_cases {pricing : Pricing} {id : String} {t t' : Totals} {step : Step}
    (h : addStep registry pricing id t step = .ok t') :
    ((truthy step.model = none ∨ truthy step.provider = none) ∧ t' = t) ∨
    ∃ model provider tokens baseline actual, truthy step.model = some model ∧
      truthy step.provider = some provider ∧ stepTokens step = .ok tokens ∧
      calculateStepBaselineCost step pricing = .ok baseline ∧
      calculateStepActualCost step model registry = .ok actual ∧
      t' =
        { baseline := t.baseline + baseline
          actual := t.actual + actual
          input := t.input + step.inputTokens.getD 0
          output := t.output + step.outputTokens.getD 0
          cached := t.cached + step.cachedTokens.getD 0
          reasoning := t.reasoning + step.reasoningTokens.getD 0
          steps := t.steps ++ [⟨step.step, provider, model, id, round6 actual, round6 baseline,
            round6 (baseline - actual)⟩] } := by
  unfold addStep at h
  split at h
  · rename_i model provider hModel hProvider
    split at h
    · cases h
    · cases h
    · rename_i baseline actual hBaseline hActual
      cases hTokens : stepTokens step with
      | error e =>
        rw [calculateStepBaselineCost, hTokens] at hBaseline
        cases hBaseline
      | ok tokens =>
        exact .inr ⟨model, provider, tokens, baseline, actual, hModel, hProvider, rfl, hBaseline,
          hActual, (Except.ok.inj h).symm⟩
  · rename_i hSkipped
    refine .inl ⟨?_, (Except.ok.inj h).symm⟩
    cases hModel : truthy step.model with
    | none => exact .inl rfl
    | some model =>
      cases hProvider : truthy step.provider with
      | none => exact .inr rfl
      | some provider => exact (hSkipped model provider hModel hProvider).elim

theorem calculateSavingsForRun_cases (run : Option RunUsage) (explicit : Option String)
    (fee : Field) :
    (∃ status reference error, status.Unknown ∧
      calculateSavingsForRun registry run explicit fee =
        addBillingFields (withoutAmounts status reference error) fee) ∨
    (∃ usage reference pricing totals, run = some usage ∧
      (extractStepsFromRun usage).foldlM (addStep registry pricing reference.modelId)
        Totals.zero = .ok totals ∧
      calculateSavingsForRun registry run explicit fee =
        addBillingFields (totalsResult reference totals) fee) := by
  unfold calculateSavingsForRun
  cases run with
  | none => exact .inl ⟨_, _, _, .inr rfl, rfl⟩
  | some run =>
    simp only
    split
    · exact .inl ⟨_, _, _, .inr rfl, rfl⟩
    · have hCalculated (reference : Option ReferenceModel) :=
        calculated_cases registry reference (extractStepsFromRun run)
          run.referencePricingSnapshot
      cases getReferenceModel run registry
          ((truthy explicit).or (truthy run.referenceModelId)) with
      | none =>
        obtain ⟨reference, error, h⟩ | ⟨reference, _, totals, hNone, _⟩ := hCalculated none
        · exact .inl ⟨_, reference, error, .inl rfl, congrArg (addBillingFields · fee) h⟩
        · cases hNone
      | some reference =>
        simp only
        split
        · exact .inl ⟨_, _, _, .inr rfl, rfl⟩
        · obtain ⟨reference', error, h⟩ | ⟨reference', pricing, totals, _, _, hTotals, h⟩ :=
            hCalculated (some reference)
          · exact .inl ⟨_, reference', error, .inl rfl, congrArg (addBillingFields · fee) h⟩
          · exact .inr ⟨run, reference', pricing, totals, rfl, hTotals,
              congrArg (addBillingFields · fee) h⟩

end OrchestraAI.Economics
