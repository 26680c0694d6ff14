import OrchestraAI.Execution.Constraints
import OrchestraAI.Routing.CandidateScore

/-! # The model router

`impl/model-router.js` over exact rationals. The factors, texts and expected costs of a decision
and the log of the stages are left out.
-/

namespace OrchestraAI.Routing

open OrchestraAI.Economics (Field)
open Text (isSpace)
open OrchestraAI.Recovery (truthy)
open ComparatorSort

inductive RoutingError
  | noModels
  | insufficientPricing
  | qualityConstraint
  | latencyConstraint
  | budgetConstraint
  deriving DecidableEq

structure Router where
  config : RouterWeights ℚ
  maxRetries : Field
  switchingCosts : SwitchingCostCalculator
  stickiness : ModelStickinessManager
  /-- The performance store, by the identifier of a model. -/
  intelligence : Option (String → ModelHistory)
  localeCompare : String → String → Ordering

section Eligibility

variable (state : RoutingState)

def available (model : ModelDefinition) : Prop := model.status ≠ some "unavailable"

instance : DecidablePred available := fun _ => inferInstanceAs (Decidable (_ ≠ _))

def hasProvider (model : ModelDefinition) : Bool :=
  !(model.provider.getD "").toList.all isSpace

def hasOptimizerPricing (model : ModelDefinition) : Bool :=
  (rate model.inputPer1k).isSome && (rate model.outputPer1k).isSome &&
    (max 0 state.cacheablePrefixTokens ≤ 0 || (rate model.cachedPer1k).isSome)

def exceedsWindow (model : ModelDefinition) : Bool :=
  let window := model.contextWindow.toNumber.getD 0
  0 < window && 0 < state.currentTokens && window < state.currentTokens

def hasCapabilities (model : ModelDefinition) : Bool :=
  state.policy.requiredCapabilities.all (· ∈ model.capabilities)

def capabilityStage (pool : List ModelDefinition) : List ModelDefinition :=
  let survivors := pool.filter fun m => !exceedsWindow state m && hasCapabilities state m
  if survivors.isEmpty && pool.all (exceedsWindow state) then pool else survivors

def constraintStage (error : RoutingError) (bound : Option ℚ) (ok : ℚ → ModelDefinition → Bool)
    (pool : List ModelDefinition) : Except RoutingError (List ModelDefinition) :=
  match bound with
  | none => .ok pool
  | some b => if (pool.filter (ok b)).isEmpty then .error error else .ok (pool.filter (ok b))

def positive (f : Field) : Option ℚ := f.toNumber.filter (0 < ·)

def qualityStage : List ModelDefinition → Except RoutingError (List ModelDefinition) :=
  constraintStage .qualityConstraint (positive state.policy.qualityFloor)
    fun floor m => m.quality.toNumber.any (floor ≤ ·)

def latencyStage : List ModelDefinition → Except RoutingError (List ModelDefinition) :=
  constraintStage .latencyConstraint (positive state.policy.latencyTargetMs)
    fun target m => m.avgLatencyMs.toNumber.any (· ≤ target)

def reliabilityStage (pool : List ModelDefinition) : List ModelDefinition :=
  match positive state.policy.minReliability with
  | none => pool
  | some minRel =>
    let survivors := pool.filter fun m =>
      m.reliability.toNumber.any (minRel ≤ ·) || some m.id = state.policy.preferredModel
    if survivors.isEmpty then pool else survivors

/-- `Math.max(0, Math.min(inputTokens, cacheablePrefixTokens))`. -/
def RoutingState.cachedTokens : ℚ :=
  max 0 (min (max 0 state.currentTokens) state.cacheablePrefixTokens)

def exceedsBudget (model : ModelDefinition) : Bool :=
  match state.remainingBudget,
    estimateProviderCostUsd model (max 0 state.currentTokens) 1000 state.cachedTokens with
  | some rem, some est =>
    rem < est && (state.policy.hardBudget || state.policy.budgetEnforcement = some "hard" ||
      rem ≤ 1 / 100)
  | _, _ => false

def budgetStage (pool : List ModelDefinition) : Except RoutingError (List ModelDefinition) :=
  let survivors := pool.filter fun m => !exceedsBudget state m
  if survivors.isEmpty && !pool.isEmpty then .error .budgetConstraint else .ok survivors

def runEligibility (list : List ModelDefinition) : Except RoutingError (List ModelDefinition) :=
  let availablePool := list.filter fun m => available m
  if availablePool.isEmpty then .error .noModels
  else
    let mapped := availablePool.filter fun m =>
      hasProvider m || !state.policy.requireKnownProvider
    let priced := mapped.filter fun m =>
      state.policy.allowUnknownPricing || hasOptimizerPricing state m
    if priced.isEmpty then .error .insufficientPricing
    else
      (qualityStage state (capabilityStage state priced)).bind fun pool =>
        (latencyStage state pool).bind fun pool => budgetStage state (reliabilityStage state pool)

end Eligibility

section Scores

variable (router : Router) (profile : TaskProfile) (state : RoutingState)

def weightsFor : RouterWeights ℚ :=
  match state.policy.routerWeights with
  | none => router.config
  | some w =>
    { qualityWeight := w.qualityWeight.observed.getD router.config.qualityWeight
      costWeight := w.costWeight.observed.getD router.config.costWeight
      latencyWeight := w.latencyWeight.observed.getD router.config.latencyWeight
      reliabilityWeight := w.reliabilityWeight.observed.getD router.config.reliabilityWeight
      contextFitWeight := w.contextFitWeight.observed.getD router.config.contextFitWeight }

def estimateModelCost (model : ModelDefinition) : Option ℚ :=
  let inputTokens := max 0 state.currentTokens
  let cachedTokens := state.cachedTokens
  match rate model.inputPer1k, rate model.outputPer1k, rate model.cachedPer1k with
  | some inputRate, some outputRate, cachedRate =>
    if 0 < cachedTokens ∧ cachedRate = none then none
    else some (max 0 (max 0 (inputTokens - cachedTokens) / 1000 * inputRate +
      cachedTokens / 1000 * cachedRate.getD 0 + 1000 / 1000 * outputRate))
  | _, _, _ => none

structure Overlay where
  adjustment : ℚ
  predictedSuccess : Option ℚ
  taskFitScore : Option ℚ
  toolCapabilityScore : Option ℚ
  expectedLatencyMs : Option ℚ
  excluded : Option Exclusion

/-- `_intelligenceOverlay`. -/
def intelligenceOverlay (model : ModelDefinition) : Overlay :=
  let history := router.intelligence.map fun perf => perf model.id
  let scored := scoreCandidate model profile history state
  let window := model.contextWindow.toNumber.getD 0
  let empirical := match scored.taskFitScore with
    | some fit => if history.isSome ∧ 3 ≤ scored.attempts then (fit - 7 / 10) * (2 / 5) else 0
    | none => 0
  let pressure :=
    if 0 < window ∧ window * (3 / 5) < state.currentTokens then
      match contextFitScore model state.currentTokens with
      | (some fit, false) => (fit - 7 / 10) * (1 / 5)
      | _ => 0
    else 0
  let tools := match scored.toolCapabilityScore with
    | some tool => if profile.requiresTools then (tool - 1 / 2) * (1 / 10) else 0
    | none => 0
  let latency := match scored.expectedLatencyMs with
    | some ms =>
      if history.isSome ∧ (known model.avgLatencyMs).isNone then
        (1 / 2 - min 1 (ms / 8000)) * (1 / 20)
      else 0
    | none => 0
  let budget := scored.excluded = some .budget
  { adjustment :=
      if budget then 0
      else max (-(3 / 10)) (min (3 / 10) (round3 (empirical + pressure + tools + latency)))
    predictedSuccess := scored.taskFitScore
    taskFitScore := scored.taskFitScore
    toolCapabilityScore := scored.toolCapabilityScore
    expectedLatencyMs := scored.expectedLatencyMs
    excluded := if budget then some .budget else none }

structure ModelScore where
  total : ℚ
  quality : ℚ
  cost : ℚ
  latency : ℚ
  reliability : ℚ
  contextFit : ℚ
  switchCost : ℚ
  overlay : Option Overlay

def switchCostTo (modelId : String) (provider : Option String) (avgLatencyMs : Field) : ℚ :=
  if some modelId = state.currentModel then 0
  else router.switchingCosts.total state provider avgLatencyMs

def scoreModel (model : ModelDefinition) : ModelScore :=
  let weights := weightsFor router state
  if exceedsWindow state model then ⟨0, 0, 0, 0, 0, 0, 0, none⟩
  else
    let switchCost := switchCostTo router state model.id model.provider model.avgLatencyMs
    let quality := ((known model.quality).map clamp01).getD (1 / 2)
    let costKnown := (known model.inputPer1k).isSome &&
      (state.cacheablePrefixTokens ≤ 0 || (known model.cachedPer1k).isSome)
    let costScore := match rate model.outputPer1k with
      | some outputRate => if costKnown then max 0 (1 - outputRate / (1 / 100)) else 1 / 2
      | none => 1 / 2
    let latencyScore := ((rate model.avgLatencyMs).map fun ms => max 0 (1 - ms / 5000)).getD (1 / 2)
    let reliability := ((known model.reliability).map clamp01).getD (1 / 2)
    let contextFit := max 0 (1 - state.utilization)
    let raw := (quality * weights.qualityWeight + costScore * weights.costWeight +
      latencyScore * weights.latencyWeight + reliability * weights.reliabilityWeight +
      contextFit * weights.contextFitWeight) * (1 - min (3 / 10) (switchCost * 10))
    let overlay := intelligenceOverlay router profile state model
    { total := if overlay.excluded.isSome then 0 else clamp01 (clamp01 raw + overlay.adjustment)
      quality := quality
      cost := costScore
      latency := latencyScore
      reliability := reliability
      contextFit := contextFit
      switchCost := switchCost
      overlay := some overlay }

def maxAttempts : Nat :=
  let maxRetries : Economics.Field := (state.policy.maxRetries.orElse router.maxRetries).orElse (.value (some 2))
  match maxRetries.toNumber with
  | some n => ⌊max 0 (min 5 n) + 1⌋₊
  | none => 0

def retryCostUsd (model : ModelDefinition) : Option ℚ :=
  match estimateModelCost state model, model.reliability.toNumber with
  | some cost, some r =>
    if 0 ≤ r ∧ r ≤ 1 then
      some (max 0 (cost *
        (((List.range (maxAttempts router state)).map fun attempt => (1 - r) ^ attempt).sum - 1)))
    else none
  | _, _ => none

def evaluateCandidate (model : ModelDefinition) : Candidate :=
  let score := scoreModel router profile state model
  { modelId := model.id
    provider := model.provider
    score := score.total
    quality := score.quality
    cost := score.cost
    latency := score.latency
    reliability := score.reliability
    contextFit := score.contextFit
    switchCost := score.switchCost
    avgLatencyMs := model.avgLatencyMs.orElse .null
    outputPer1k := model.outputPer1k.orElse .null
    estimatedCost := estimateModelCost state model
    retryCost := retryCostUsd router state model
    predictedSuccess := score.overlay.bind Overlay.predictedSuccess
    taskFitScore := score.overlay.bind Overlay.taskFitScore
    expectedLatencyMs := (score.overlay.bind Overlay.expectedLatencyMs).or (known model.avgLatencyMs)
    excluded := score.overlay.elim (some .contextWindow) Overlay.excluded }

def compareScore : Candidate → Candidate → Ordering :=
  compareLex (fun a b => compare b.score a.score)
    fun a b => router.localeCompare a.modelId b.modelId

structure Evaluation where
  candidates : List Candidate
  currentScore : ℚ

def evaluateCandidates (models : List ModelDefinition) : Evaluation where
  candidates := sortBy (compareScore router) (models.map (evaluateCandidate router profile state))
  currentScore := models.foldl (fun score m =>
    if some m.id = state.currentModel then (scoreModel router profile state m).total else score) 0

def switchCosts (cs : List Candidate) (modelId : String) : Option ℚ :=
  (cs.reverse.find? (·.modelId = modelId)).map fun c =>
    switchCostTo router state c.modelId c.provider c.avgLatencyMs

inductive DecisionType
  | modelSelection
  | modelRetention
  | modelSwitch
  deriving DecidableEq

inductive SelectionReason
  | userPreference
  | optimized
  | stickiness
  deriving DecidableEq

structure RoutingResult where
  selectedModel : String
  decision : DecisionType
  selectionReason : SelectionReason
  optimizationBypassed : Bool
  deriving DecidableEq

def unhealthy (incumbent : Option ModelDefinition) : Bool :=
  incumbent.elim true fun m => (truthy m.status).any (· ≠ "healthy")

def maySwitch (best : Scored) (currentScore : ℚ) : Bool :=
  let switchingCost := router.switchingCosts.total state best.provider best.avgLatencyMs
  let netBenefit := calculateNetBenefit (best.score - currentScore)
    (state.currentOutputPer1k - best.outputPer1k.toNumber.getD 0)
    ((best.avgLatencyMs.toNumber.map fun ms => state.modelLatency - ms).getD 0) switchingCost
  router.stickiness.canSwitch state netBenefit (1 / 5 * (switchingCost / (1 / 100)))

def preferredIn (pool : List ModelDefinition) : Option ModelDefinition :=
  (truthy state.policy.preferredModel).bind fun id => pool.find? fun m => m.id = id ∧ available m

def scoredCandidates (pool : List ModelDefinition) : List Scored :=
  let candidates := (evaluateCandidates router profile state pool).candidates
  attachObjectives candidates (switchCosts router state candidates) state.policy

def incumbentDef (list pool : List ModelDefinition) (current : String) : Option ModelDefinition :=
  (pool.find? (·.id = current)).or (list.find? (·.id = current))

def route (list : List ModelDefinition) : Except RoutingError RoutingResult :=
  if list.isEmpty then .error .noModels
  else
    (runEligibility state list).bind fun pool =>
      match scoredCandidates router profile state pool with
      | [] => .error .noModels
      | scoreLeader :: rest =>
        let objectiveWinner :=
          (selectByObjective router.localeCompare (scoreLeader :: rest)).getD scoreLeader
        match preferredIn state pool, truthy state.currentModel with
        | some preferred, none => .ok ⟨preferred.id, .modelSelection, .userPreference, true⟩
        | none, none => .ok ⟨objectiveWinner.modelId, .modelSelection, .optimized, false⟩
        | some preferred, some current =>
          if preferred.id ≠ current then
            .ok ⟨preferred.id, .modelSelection, .userPreference, true⟩
          else .ok ⟨preferred.id, .modelSelection, .optimized, false⟩
        | none, some current =>
          if objectiveWinner.modelId = current then
            -- the incumbent is the cheapest, with or without the highest score
            if scoreLeader.modelId ≠ current then
              .ok ⟨current, .modelRetention, .optimized, false⟩
            else .ok ⟨current, .modelSelection, .optimized, false⟩
          else if unhealthy (incumbentDef list pool current) then
            .ok ⟨objectiveWinner.modelId, .modelSwitch, .optimized, false⟩
          else if state.policy.allowSwitching = some false then
            .ok ⟨current, .modelRetention, .userPreference, true⟩
          else if maySwitch router state objectiveWinner
              (evaluateCandidates router profile state pool).currentScore then
            .ok ⟨objectiveWinner.modelId, .modelSwitch, .optimized, false⟩
          else .ok ⟨current, .modelRetention, .stickiness, false⟩

end Scores

end OrchestraAI.Routing
