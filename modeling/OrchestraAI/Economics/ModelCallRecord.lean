import OrchestraAI.Library.RoundedGrid
import OrchestraAI.Library.Slot
import Mathlib.Data.Rat.Floor

/-! # The record of a model call

What a provider's answer says about its cost, `CostEstimator` of
`cost/cost-estimator.js` and `createModelCallRecord` of
`economics/canonical-record.js`, over exact rationals.
-/

namespace OrchestraAI.Economics

open RoundedGrid

/-- A field of an answer, with the finite number that `Number` makes of a value, if any. -/
abbrev Field := Slot (Option ℚ)

namespace Field

/-- `Number(field)`, unless it is not finite. -/
def toNumber : Field → Option ℚ
  | .undefined => none
  | .null => some 0
  | .value number => number

def observed (f : Field) : Option ℚ := f.toNumber.filter (0 ≤ ·)

end Field

structure Usage where
  inputTokens : Field
  outputTokens : Field
  cachedTokens : Field
  reasoningTokens : Field
  costUsd : Field

structure ModelResponse where
  usage : Usage
  costUsd : Field
  usageSource : Option String

def ModelResponse.providerCostUsd (r : ModelResponse) : Option ℚ :=
  Field.observed (r.usage.costUsd.orElse r.costUsd)

/-- What the registry knows of the rates of a model, in dollars per thousand tokens. -/
structure Pricing where
  inputPer1k : Option ℚ
  outputPer1k : Option ℚ
  cachedPer1k : Option ℚ

inductive PricingSource
  | registry
  | default
  deriving DecidableEq

structure Rates where
  inputPer1k : ℚ
  outputPer1k : ℚ
  cachedPer1k : ℚ
  source : PricingSource

def defaultPricing : Rates := ⟨1 / 1000, 3 / 1000, 2 / 10000, .default⟩

def resolveModelPricing (pricing : Option Pricing) : Rates :=
  match pricing with
  | none => defaultPricing
  | some p =>
    if p.inputPer1k.isSome || p.outputPer1k.isSome then
      { inputPer1k := p.inputPer1k.getD defaultPricing.inputPer1k
        outputPer1k := p.outputPer1k.getD defaultPricing.outputPer1k
        cachedPer1k := p.cachedPer1k.getD defaultPricing.cachedPer1k
        source := .registry }
    else defaultPricing

structure TokenCounts where
  input : ℚ
  output : ℚ
  cached : ℚ
  reasoning : ℚ

structure CostEstimate where
  inputCost : ℚ
  cachedCost : ℚ
  outputCost : ℚ
  reasoningCost : Option ℚ
  total : ℚ
  pricingSource : PricingSource

def estimateModelCost (pricing : Option Pricing) (t : TokenCounts) : CostEstimate :=
  let rates := resolveModelPricing pricing
  let uncachedInput := max 0 (t.input - t.cached)
  let inputCost := uncachedInput / 1000 * rates.inputPer1k
  let cachedCost := t.cached / 1000 * rates.cachedPer1k
  let outputCost := t.output / 1000 * rates.outputPer1k
  let reasoningCost := t.reasoning / 1000 * rates.outputPer1k
  { inputCost := inputCost
    cachedCost := cachedCost
    outputCost := outputCost
    reasoningCost := if 0 < t.reasoning then some reasoningCost else none
    total := inputCost + cachedCost + outputCost + reasoningCost
    pricingSource := rates.source }

/-- `Math.round(n * 1e6) / 1e6`. -/
def round6 (n : ℚ) : ℚ := toGrid 1000000 n

def nullableNonNegative (value : Option ℚ) : Option ℚ := value.filter (0 ≤ ·)

structure ObservedUsage where
  inputTokens : Option ℚ
  outputTokens : Option ℚ
  cachedTokens : Option ℚ
  reasoningTokens : Option ℚ

structure RecordInput where
  providerCall : Bool
  cacheType : Option String
  usage : ObservedUsage
  usageSource : Option String
  providerCostUsd : Option ℚ
  calculatedCostUsd : Option ℚ
  costSource : Option String

structure ModelCallRecord where
  providerCall : Bool
  cacheType : Option String
  usage : ObservedUsage
  usageSource : String
  providerCostUsd : Option ℚ
  calculatedCostUsd : Option ℚ
  canonicalCostUsd : Option ℚ
  costSource : String

/-- `a || b` for a text that may be missing. -/
def orText (a : Option String) (b : String) : String :=
  match a with
  | none | some "" => b
  | some t => t

def usageSourceFor (input : RecordInput) (usage : ObservedUsage) : String :=
  orText input.usageSource <|
    if !input.providerCall && input.cacheType.isSome then "cache_hit"
    else if usage.inputTokens.isSome && usage.outputTokens.isSome then "provider_reported"
    else if usage.inputTokens.isSome || usage.outputTokens.isSome then "provider_reported_partial"
    else "unknown"

def createModelCallRecord (input : RecordInput) : ModelCallRecord :=
  let usage : ObservedUsage :=
    { inputTokens := nullableNonNegative input.usage.inputTokens
      outputTokens := nullableNonNegative input.usage.outputTokens
      cachedTokens := nullableNonNegative input.usage.cachedTokens
      reasoningTokens := nullableNonNegative input.usage.reasoningTokens }
  let calculatedCostUsd := (nullableNonNegative input.calculatedCostUsd).map round6
  let providerCostUsd := (nullableNonNegative input.providerCostUsd).map round6
  let costSource :=
    if input.providerCall then
      orText input.costSource <|
        if providerCostUsd.isSome then "provider_reported"
        else if calculatedCostUsd.isSome then "pricing_snapshot"
        else "unknown"
    else
      match input.cacheType with
      | some cacheType => cacheType ++ "_cache_hit"
      | none => "no_provider_call"
  { providerCall := input.providerCall
    cacheType := input.cacheType
    usage := usage
    usageSource := usageSourceFor input usage
    providerCostUsd := providerCostUsd
    calculatedCostUsd := calculatedCostUsd
    canonicalCostUsd :=
      if input.providerCall then
        providerCostUsd.or (if costSource = "unknown" ∨ costSource = "unknown_estimate" then none
          else calculatedCostUsd)
      else some 0
    costSource := costSource }

end OrchestraAI.Economics
