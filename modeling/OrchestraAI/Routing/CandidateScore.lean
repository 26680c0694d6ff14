import OrchestraAI.Economics.ModelCallRecord
import OrchestraAI.Library.ComparatorSort
import OrchestraAI.Recovery.Plan

/-! # What a candidate is worth

`decisions/switching-cost.js` and what routing reads of `scoreCandidate` of
`intelligence/router-intelligence.js`, and the objective of
`decisions/routing-objective.js`, over exact rationals. The explanatory texts of an objective are
left out.
-/

namespace OrchestraAI.Routing

open OrchestraAI.Economics (Field)
open OrchestraAI.Recovery (truthy)
open ComparatorSort

/-- `v` is given and `Number(v)` is finite. -/
def known : Field → Option ℚ
  | .value number => number
  | .undefined | .null => none

/-- `isKnownRate`. -/
def rate (f : Field) : Option ℚ := (known f).filter (0 ≤ ·)

def round6 (x : ℚ) : ℚ := RoundedGrid.toGrid 1000000 x

structure ModelDefinition where
  id : String
  provider : Option String
  status : Option String
  capabilities : List String
  contextWindow : Field
  inputPer1k : Field
  outputPer1k : Field
  cachedPer1k : Field
  quality : Field
  reliability : Field
  avgLatencyMs : Field

structure RouterWeights (α : Type) where
  qualityWeight : α
  costWeight : α
  latencyWeight : α
  reliabilityWeight : α
  contextFitWeight : α

structure RunPolicy where
  requireKnownProvider : Bool
  allowUnknownPricing : Bool
  requiredCapabilities : List String
  qualityFloor : Field
  latencyTargetMs : Field
  minReliability : Field
  preferredModel : Option String
  hardBudget : Bool
  budgetEnforcement : Option String
  allowSwitching : Option Bool
  maxRetries : Field
  routerWeights : Option (RouterWeights Field)
  expectedContinuationCostUsd : Field
  expectedToolCalls : Field
  toolCostPerCall : Field
  latencyCostPerMsUsd : Field

inductive Exclusion
  | contextWindow
  | budget
  deriving DecidableEq

structure Candidate where
  modelId : String
  provider : Option String
  score : ℚ
  quality : ℚ
  cost : ℚ
  latency : ℚ
  reliability : ℚ
  contextFit : ℚ
  switchCost : ℚ
  avgLatencyMs : Field
  outputPer1k : Field
  estimatedCost : Option ℚ
  retryCost : Option ℚ
  predictedSuccess : Option ℚ
  taskFitScore : Option ℚ
  expectedLatencyMs : Option ℚ
  excluded : Option Exclusion

def estimateProviderCostUsd (model : ModelDefinition) (inputTokens outputTokens cachedTokens : ℚ) :
    Option ℚ :=
  let cached := max 0 (min inputTokens cachedTokens)
  let uncached := max 0 (inputTokens - cached)
  match rate model.inputPer1k, rate model.outputPer1k, rate model.cachedPer1k with
  | some inputRate, some outputRate, cachedRate =>
    if 0 < cached ∧ cachedRate = none then none
    else some (max 0 (round6 (uncached / 1000 * inputRate + cached / 1000 * cachedRate.getD 0 +
      max 0 outputTokens / 1000 * outputRate)))
  | _, _, _ => none

def estimateToolContinuationCostUsd (policy : RunPolicy) : ℚ :=
  match policy.expectedContinuationCostUsd.observed with
  | some cost => cost
  | none =>
    match policy.expectedToolCalls.toNumber, policy.toolCostPerCall.observed with
    | some calls, some perCall => if 0 < calls then round6 (calls * perCall) else 0
    | _, _ => 0

def estimateLatencyPenaltyUsd (expectedLatencyMs : Field) (policy : RunPolicy) : ℚ :=
  match policy.latencyCostPerMsUsd.toNumber, expectedLatencyMs.toNumber with
  | some perMs, some lat => if 0 < perMs ∧ 0 < lat then round6 (lat * perMs) else 0
  | _, _ => 0

def successFloor : ℚ := 1 / 20

/-- The empirical prediction, else the fit to the task, else the registry's quality. -/
def successForObjective (c : Candidate) : ℚ :=
  max successFloor (min 1 ((c.predictedSuccess.or c.taskFitScore).getD c.quality))

structure Objective where
  expectedTotalCostUsd : Option ℚ
  costPerSuccessUsd : Option ℚ
  objectiveValue : Option ℚ
  successUsed : ℚ
  switching : ℚ

def computeObjective (c : Candidate) (switchCosts : String → Option ℚ) (policy : RunPolicy) :
    Objective :=
  let switching := max 0 ((switchCosts c.modelId).getD c.switchCost)
  let tool := estimateToolContinuationCostUsd policy
  let lat := estimateLatencyPenaltyUsd
    (c.expectedLatencyMs.elim c.avgLatencyMs fun ms => .value (some ms)) policy
  let total := match c.estimatedCost.getD 0, c.retryCost with
    | provider, some retry => some (round6 (provider + retry + switching + tool + lat))
    | _, none => none
  let success := successForObjective c
  let perSuccess := total.map fun cost => round6 (cost / success)
  ⟨total, perSuccess, perSuccess.or total, success, switching⟩

/-- `attachObjectives`. -/
structure Scored extends Candidate where
  objective : Objective

def attachObjectives (cs : List Candidate) (switchCosts : String → Option ℚ) (policy : RunPolicy) :
    List Scored :=
  cs.map fun c => ⟨c, computeObjective c switchCosts policy⟩

def objectiveKey (c : Scored) : WithTop ℚ :=
  match c.objective.objectiveValue with
  | some value => (value : ℚ)
  | none => ⊤

def compareObjective (localeCompare : String → String → Ordering) : Scored → Scored → Ordering :=
  compareLex (compareOn objectiveKey)
    (compareLex (fun a b => compare b.score a.score) fun a b => localeCompare a.modelId b.modelId)

def selectByObjective (localeCompare : String → String → Ordering) (cs : List Scored) :
    Option Scored :=
  let eligible := cs.filter fun c => c.excluded.isNone
  let pool := if eligible.isEmpty then cs else eligible
  (sortBy (compareObjective localeCompare) pool).head?

structure RoutingState where
  currentTokens : ℚ
  maximumTokens : ℚ
  cacheablePrefixTokens : ℚ
  /-- The remaining budget, if it is finite. -/
  remainingBudget : Option ℚ
  currentModel : Option String
  currentProvider : Option String
  modelLatency : ℚ
  /-- The output rate of the current model in the run's pricing snapshots. -/
  currentOutputPer1k : ℚ
  switchCount : Nat
  timeSinceLastSwitch : ℚ
  policy : RunPolicy

def RoutingState.utilization (state : RoutingState) : ℚ :=
  if 0 < state.maximumTokens then state.currentTokens / state.maximumTokens else 0

structure SwitchingCostCalculator where
  baseContextReconstructionCost : ℚ
  cacheLossCostPerToken : ℚ
  tokenResendCostPerToken : ℚ
  providerOverheadCost : ℚ
  stateTranslationCost : ℚ
  riskPenaltyMultiplier : ℚ

/-- `calculate(..).total`. -/
def SwitchingCostCalculator.total (rates : SwitchingCostCalculator) (state : RoutingState)
    (toProvider : Option String) (toModelLatency : Field) : ℚ :=
  let contextReconstruction := rates.baseContextReconstructionCost * (1 + state.utilization)
  let cacheLoss :=
    if 0 < state.cacheablePrefixTokens then
      state.cacheablePrefixTokens * rates.cacheLossCostPerToken
    else 0
  let tokenResend :=
    if 0 < state.currentTokens then state.currentTokens * rates.tokenResendCostPerToken else 0
  let providerOverhead :=
    match truthy state.currentProvider, truthy toProvider with
    | some fromProvider, some toProvider =>
      if fromProvider ≠ toProvider then rates.providerOverheadCost else 0
    | _, _ => 0
  let latencyIncrease := toModelLatency.toNumber.getD 0 - state.modelLatency
  let latencyPenalty := if 0 < latencyIncrease then latencyIncrease / 1000 * (1 / 10000) else 0
  let baseTotal := contextReconstruction + cacheLoss + tokenResend + providerOverhead +
    latencyPenalty + rates.stateTranslationCost
  max 0 (baseTotal + baseTotal * (rates.riskPenaltyMultiplier - 1))

def calculateNetBenefit (qualityGain costSavingUsd latencyGainMs switchingCostUsd : ℚ) : ℚ :=
  max (-10) (min 10 (qualityGain + 1 / 5 * (costSavingUsd / (1 / 100)) +
    3 / 20 * (latencyGainMs / 5000) - 1 / 5 * (switchingCostUsd / (1 / 100))))

structure ModelStickinessManager where
  cooldownPeriodMs : ℚ
  maxSwitchesPerTask : Nat
  hysteresisFactor : ℚ

/-- `canSwitch(..).allowed`. -/
def ModelStickinessManager.canSwitch (manager : ModelStickinessManager) (state : RoutingState)
    (netBenefit switchingCost : ℚ) : Bool :=
  state.switchCount < manager.maxSwitchesPerTask &&
    manager.cooldownPeriodMs ≤ state.timeSinceLastSwitch &&
    max 0 switchingCost * manager.hysteresisFactor ≤ netBenefit

structure TaskProfile where
  requiresTools : Bool
  confidence : ℚ

structure LatencyStats where
  count : Nat
  p50 : Option ℚ
  mean : Option ℚ

/-- What the performance store predicts of a model for the task at hand. -/
structure ModelHistory where
  predicted : ℚ
  attempts : Nat
  latency : LatencyStats

def clamp01 (x : ℚ) : ℚ := max 0 (min 1 x)

def round3 (x : ℚ) : ℚ := RoundedGrid.toGrid 1000 x

def round4 (x : ℚ) : ℚ := RoundedGrid.toGrid 10000 x

def toolCapabilityScore (model : ModelDefinition) (profile : TaskProfile) : Option ℚ :=
  if !profile.requiresTools then
    if "tools" ∈ model.capabilities then some (4 / 5) else none
  else if "tools" ∈ model.capabilities then some (9 / 10)
  else if "structured" ∈ model.capabilities then some (1 / 2)
  else some (1 / 5)

/-- The fit of a context to the window, if it is known, and whether it is exceeded. -/
def contextFitScore (model : ModelDefinition) (needTokens : ℚ) : Option ℚ × Bool :=
  let window := model.contextWindow.toNumber.getD 0
  let need := max 0 needTokens
  let util := need / window
  if ¬ 0 < window then (none, false)
  else if need ≤ 0 then (some (4 / 5), false)
  else if window < need then (some 0, true)
  else (some (round3 (if util ≤ 17 / 20 then 1 - util * (3 / 10) else max (1 / 10) (1 - util))), false)

def estimateCostUsd (model : ModelDefinition) (inputTokens outputTokens cachedTokens : ℚ) :
    Option ℚ :=
  match rate model.inputPer1k, rate model.outputPer1k, rate model.cachedPer1k with
  | some inputRate, some outputRate, cachedRate =>
    if 0 < cachedTokens ∧ cachedRate = none then none
    else some (round4 (max 0 (inputTokens - cachedTokens) / 1000 * inputRate +
      max 0 cachedTokens / 1000 * cachedRate.getD 0 + outputTokens / 1000 * outputRate))
  | _, _, _ => none

def expectedLatencyMs (model : ModelDefinition) (history : Option ModelHistory) : Option ℚ :=
  let observed := history.bind fun h =>
    if 3 ≤ h.latency.count then h.latency.p50.or h.latency.mean else none
  observed.or (known model.avgLatencyMs)

structure CandidateScore where
  attempts : Nat
  taskFitScore : Option ℚ
  toolCapabilityScore : Option ℚ
  expectedCostUsd : Option ℚ
  expectedLatencyMs : Option ℚ
  excluded : Option Exclusion

def budgetExcluded (expCost remaining : Option ℚ) (policy : RunPolicy) : Bool :=
  match expCost, remaining with
  | some expCost, some remaining =>
    remaining < expCost && (policy.hardBudget || remaining ≤ 1 / 100)
  | _, _ => false

def scoreCandidate (model : ModelDefinition) (profile : TaskProfile)
    (history : Option ModelHistory) (state : RoutingState) : CandidateScore :=
  let expCost := estimateCostUsd model state.currentTokens 1000
    (min state.currentTokens state.cacheablePrefixTokens)
  { attempts := history.elim 0 ModelHistory.attempts
    taskFitScore :=
      match history with
      | some h => some (round3 h.predicted)
      | none =>
        if 1 / 2 ≤ profile.confidence then
          (known model.quality).map fun q => round3 (1 / 2 + clamp01 q * (3 / 10))
        else none
    toolCapabilityScore := toolCapabilityScore model profile
    expectedCostUsd := expCost
    expectedLatencyMs := expectedLatencyMs model history
    excluded :=
      if (contextFitScore model state.currentTokens).2 then some .contextWindow
      else if budgetExcluded expCost state.remainingBudget state.policy then some .budget
      else none }

end OrchestraAI.Routing
