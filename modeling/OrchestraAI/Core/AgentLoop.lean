import Mathlib.Data.List.DropRight
import Mathlib.Data.List.Sort
import OrchestraAI.Core.LoopOperations

/-! # The agent loop

`_executeRun` of `core/orchestrator.js` with everything it awaits, from the setup of an
episode to its end, and the gated `execute` of the tool executor, as a program over the
state of one episode. Waits with nothing between them are one. The marks of tool effects,
the checkpoints, the telemetry and the routing records are left out.
-/

namespace OrchestraAI.Core

open OrchestraAI.State (ModelStatus)

structure Settings where
  maxSteps : Nat
  maxToolCalls : Nat
  maxRetries : Nat
  /-- `ctrl.mode` is `live`. -/
  live : Bool
  /-- The provider registry has an adapter for the run. -/
  hasAdapter : Bool
  /-- The adapter has `stream`. -/
  streams : Bool
  /-- `contentRetentionAllowed`. -/
  retention : Bool
  /-- A `persistHook` is set. -/
  persists : Bool
  allowCompaction : Bool
  isModelAllowed : ModelId → Bool
  budgetWarningThreshold : ℚ
  budgetCriticalThreshold : ℚ
  contextWarningThreshold : ℚ
  userMessage : String
  /-- `ctrl.providerId`. -/
  providerId : String
  /-- `_heuristicToolCall` of the user message. -/
  heuristicToolCall : Option ToolRequest

namespace Loop

variable (c : Settings)

def addContext (tokens : List Nat) : Loop Unit := do
  update fun d => { d with currentTokens := d.currentTokens + tokens.sum }
  emitAll (tokens.map fun _ => .contextAdded)
  let v ← look
  when (4 / 5 ≤ v.data.utilization) (emit .contextLimitWarning)
  ofExcept (← wait .contextAdded)

def searchMemory : Loop (List String) := do
  emit .memoryRead
  wait .memoryRead
  emit .memoryRead
  ofExcept (← wait .memorySearched)

def compressContext (target : Nat) : Loop Nat := do
  let reclaimed ← ofExcept (← wait (.compressed target))
  update fun d => { d with currentTokens := d.currentTokens - reclaimed.sum }
  emitAll (reclaimed.map fun _ => .contextCompressed)
  pure reclaimed.sum

/-- `Math.ceil(text.length / 4)`. -/
def estimateTokens (text : String) : Nat := (text.length + 3) / 4

def buildContext : Loop Unit := do
  emit .contextBuilt
  ofExcept (← wait .contextBuilt)
  addContext [estimateTokens c.userMessage]
  when c.retention do
    let found ← searchMemory
    when (!found.isEmpty) (addContext ((found.take 3).map fun snippet => estimateTokens snippet + 20))
  emit .contextBuilt

def mapped (m : ModelDef) : Bool := !c.live || m.nativeId.isSome

def noModels (models : List ModelDef) : String :=
  let unmapped := (models.filter fun m =>
    c.live && c.isModelAllowed m.id && m.status ≠ .unavailable && m.nativeId.isNone).length
  if unmapped = 0 then
    "No available models: registry is empty or all models are blocked/unavailable"
  else
    s!"No available models: {unmapped} candidate(s) lack a provider-native mapping for live execution"

def recallMemory : Loop Unit :=
  when c.retention do
    let _ ← attempt searchMemory

def selectModel : Loop Unit := do
  let models ← ofExcept (← wait .models)
  let allowed := models.filter fun m =>
    c.isModelAllowed m.id && m.status ≠ .unavailable && mapped c m
  if allowed.isEmpty then .throw (loopError "no_models" (noModels c models))
  else do
    let plan ← attempt do
      recallMemory c
      ofExcept (← wait (.promptCompiled []))
    update fun d => { d with currentTokens := max d.currentTokens (plan.toOption.getD 0) }
    let routing ← ofExcept (← wait (.routed allowed))
    update fun d =>
      d.setCurrentModel routing.selectedModel (allowed.find? fun m => m.id = routing.selectedModel)
    emit .modelSelected
    emit .routingEvaluated

def definitionOf (id : ModelId) (candidates : List ModelDef) : Loop (Option ModelDef) :=
  match candidates.find? fun m => m.id = id with
  | some m => pure (some m)
  | none => do ofExcept (← wait (.model (some id)))

def applyModelSwitch (toModel : ModelId) (candidates : List ModelDef) (routing : Routing)
    (force : Bool) : Loop Bool := do
  let definition ← definitionOf toModel candidates
  if !force && !routing.allowed && !routing.fallback then do
    emit .modelSwitchRejected
    pure false
  else do
    let invalidated ← ofExcept (← wait .prefixInvalidated)
    when invalidated (emit .cacheInvalidated)
    addCost routing.switchingCost
    update fun d => d.setCurrentModel toModel definition
    emit .modelSwitched
    emit .costUpdated
    pure true

def failover (exclude : List ModelId) : Loop Bool := do
  let v ← look
  let models ← ofExcept (← wait .models)
  let healthy := models.filter fun m =>
    m.status = .healthy && c.isModelAllowed m.id && m.id ∉ exclude &&
      some m.id ≠ v.data.currentModel && mapped c m
  if healthy.isEmpty then pure false
  else do
    let routing ← ofExcept (← wait (.routed healthy))
    let _ ← applyModelSwitch routing.selectedModel healthy routing true
    pure true

def failoverLargerContext : Loop Bool := do
  let v ← look
  let current ← ofExcept (← wait (.model v.data.currentModel))
  let models ← ofExcept (← wait .models)
  let v ← look
  let currentWindow :=
    match current with
    | some m => if m.contextWindow = 0 then v.data.maximumTokens else m.contextWindow
    | none => v.data.maximumTokens
  let bigger := (models.filter fun m =>
    m.status = .healthy && c.isModelAllowed m.id && some m.id ≠ v.data.currentModel &&
      currentWindow < m.contextWindow).insertionSort fun a b => a.contextWindow ≤ b.contextWindow
  if bigger.isEmpty then pure false
  else do
    let routing ← ofExcept (← wait (.routed (bigger.take 3)))
    applyModelSwitch routing.selectedModel bigger routing true

def handleBudgetExceeded : Loop Bool := do
  Prog.op .reportBudgetExceeded Prog.done
  let models ← ofExcept (← wait .models)
  let v ← look
  let current ← ofExcept (← wait (.model v.data.currentModel))
  let v ← look
  let cheaperModels := (models.filter fun m =>
    m.status = .healthy && c.isModelAllowed m.id && some m.id ≠ v.data.currentModel &&
      cheaper m.outputPer1k (current.bind ModelDef.outputPer1k)).insertionSort
        fun a b => a.outputPer1k.getD 0 ≤ b.outputPer1k.getD 0
  if cheaperModels.isEmpty then pure false
  else do
    let routing ← ofExcept (← wait (.routed (cheaperModels.take 3)))
    applyModelSwitch routing.selectedModel cheaperModels routing false

def buildPrompt : Loop Nat := do
  recallMemory c
  let v ← look
  ofExcept (← wait (.promptCompiled (v.data.history.rtake 10)))

/-- The context-limit guard before the call: one compression, then `context_exhausted`. -/
def fitPrompt (modelId : ModelId) (definition : ModelDef) (promptTokens : Nat) : Loop Nat := do
  let v ← look
  let window :=
    if definition.contextWindow = 0 then v.data.maximumTokens else definition.contextWindow
  if 0 < window ∧ window < promptTokens then do
    let reclaimed ← attempt (compressContext (window / 2))
    let promptTokens ← buildPrompt c
    if window < promptTokens then
      .throw (loopError "context_exhausted"
        s!"Prompt ({promptTokens} tokens) exceeds {modelId} context window ({window})")
    else do
      when (reclaimed.toOption.any (0 < ·)) (emit .contextCompressed)
      pure promptTokens
  else pure promptTokens

/-- `ctrl.providerModel`, or what the registry has of the model. -/
def resolveModel (modelId : Option ModelId) : Loop ModelDef := do
  let v ← look
  match v.data.providerModel with
  | some m => pure m
  | none =>
    match ← ofExcept (← wait (.model modelId)) with
    | some m => pure m
    | none =>
      let named := modelId.getD "null"
      .throw (loopError "no_models" s!"Model {named} not found in registry")

/-- The budget guard before the call: a cheaper model, or `budget_exceeded`. -/
def guardBudget (modelId : Option ModelId) (definition : ModelDef) (promptTokens : Nat) :
    Loop (Option ModelId × ModelDef) := do
  let v ← look
  if v.budget.isBudgetExceeded || v.budget.isLatencyExceeded then do
    let switched ← handleBudgetExceeded c
    if !switched then .throw (loopError "budget_exceeded" "Budget exceeded before provider call")
    else do
      let v ← look
      let refreshed ← resolveModel v.data.currentModel
      let window := refreshed.contextWindow
      if 0 < window ∧ window < promptTokens then
        let named := v.data.currentModel.getD "null"
        .throw (loopError "context_exhausted"
          s!"Prompt ({promptTokens} tokens) exceeds {named} context window ({window}) after budget failover")
      else pure (v.data.currentModel, refreshed)
  else pure (modelId, definition)

def emptyCompletion : Completion where
  text := ""
  toolCalls := []
  provider := none
  model := none
  response :=
    { usage := ⟨.value (some 0), .value (some 0), .value (some 0), .undefined, .undefined⟩
      costUsd := .undefined
      usageSource := none }

def readStream (model : Option ModelId) (history : List Turn) :
    Nat → Option Completion → Loop Completion
  | 0, final => pure (final.getD emptyCompletion)
  | n + 1, final => do
    let part ← ofExcept (← wait (.streamed model history n))
    when part.delta (emit .responseDelta)
    readStream model history n (part.final.or final)

def callProvider (model : Option ModelId) (history : List Turn) : Loop (Completion × Quote) := do
  if c.live && c.streams then do
    let (parts, quote) ← wait .streamOpened
    let answer ← readStream model history parts none
    pure (answer, quote)
  else do
    let (answer, quote) ← ofExcept (← wait (.completed model history))
    when (answer.text ≠ "") (emit .responseDelta)
    pure (answer, quote)

def localRecord (cacheType : String) : Economics.ModelCallRecord :=
  Economics.createModelCallRecord
    { providerCall := false
      cacheType := some cacheType
      usage := ⟨none, none, none, none⟩
      usageSource := none
      providerCostUsd := none
      calculatedCostUsd := none
      costSource := none }

def replay (step : Nat) (modelId : Option ModelId) (definition : ModelDef) (cacheType : String)
    (answer : ModelResult) : Loop ModelResult := do
  update fun d =>
    d.addModelCall ⟨step, definition.provider, modelId.getD "", localRecord cacheType⟩
  emit .cacheHit
  pure answer

def chargeAll : List ℚ → Loop Unit
  | [] => pure ()
  | amount :: amounts => do
    addCost amount
    chargeAll amounts

def charges (call : Economics.ProviderCall) : List ℚ :=
  (call.charge ⟨0, .empty, []⟩).costHistory.map Economics.CostEntry.amount

def account (step : Nat) (modelId : Option ModelId) (definition : ModelDef) (promptTokens : Nat)
    (answer : Completion) (quote : Quote) : Loop Unit := do
  let call : Economics.ProviderCall := ⟨quote.pricing, promptTokens, answer.response⟩
  update fun d =>
    d.addModelCall ⟨step, answer.provider.getD definition.provider,
      (answer.model.or modelId).getD "", call.record⟩
  chargeAll (charges call)
  Prog.op (.addLatency quote.latencyMs) Prog.done
  emit .modelCallCompleted
  emit (if 0 < call.tokens.cached then .cacheHit else .cacheMiss)
  emit .costUpdated

def cached (step : Nat) (modelId : Option ModelId) (definition : ModelDef) :
    Loop (Option ModelResult) := do
  if c.retention then do
    match ← ofExcept (← wait .cacheRead) with
    | some answer =>
      if answer.text = "" then pure none
      else do
        let result ← replay step modelId definition "local_response" answer
        addCost 0
        emit .costUpdated
        pure (some result)
    | none => pure none
  else pure none

/-- The semantic cache serves no continuation, no entry of the run itself and none of another
model. -/
def reuse (step : Nat) (continuation : Bool) (modelId : Option ModelId) (definition : ModelDef) :
    Loop (Option ModelResult) := do
  if c.retention && !continuation then do
    match ← wait .semanticLookedUp with
    | none => pure none
    | some hit =>
      if (hit.modelUsed.isNone || hit.modelUsed = modelId) && !hit.ownEntry then do
        let result ← replay step modelId definition "semantic" hit.toModelResult
        pure (some result)
      else do
        emit .cacheMiss
        pure none
  else pure none

def request (step : Nat) (continuation : Bool) (modelId : Option ModelId) (definition : ModelDef)
    (promptTokens : Nat) : Loop ModelResult := do
  let v ← look
  Loop.call (.model step modelId)
  let (answer, quote) ← callProvider c modelId (v.data.history.rtake 10)
  account step modelId definition promptTokens answer quote
  when c.retention do ofExcept (← wait .cacheWritten)
  when (c.retention && !continuation && answer.text ≠ "" && answer.toolCalls.isEmpty)
    (wait .semanticStored)
  pure ⟨answer.text, answer.toolCalls⟩

/-- The call once model and prompt are settled: from a cache, or from the provider. -/
def answerCall (step : Nat) (continuation : Bool) (modelId : Option ModelId)
    (definition : ModelDef) (promptTokens : Nat) : Loop ModelResult := do
  match ← cached c step modelId definition with
  | some result => pure result
  | none =>
    if !c.hasAdapter then .throw ⟨⟨none, "No provider registry configured", false⟩, false⟩
    else
      match ← reuse c step continuation modelId definition with
      | some result => pure result
      | none => request c step continuation modelId definition promptTokens

def callModel (step : Nat) (continuation : Bool) : Loop ModelResult := do
  let v ← look
  if v.abort then .throw (loopError "cancelled" "cancelled")
  else do
    let modelId := v.data.currentModel
    let named := modelId.getD "null"
    let definition ← resolveModel modelId
    if c.live && definition.nativeId.isNone then
      .throw (loopError "model_resolution"
        s!"Model '{named}' has no provider-native mapping for live execution; refusing to substitute another model")
    else do
      let estimate ← buildPrompt c
      let promptTokens ← fitPrompt c named definition estimate
      let (modelId, definition) ← guardBudget c modelId definition promptTokens
      update fun d => { d with currentTokens := max d.currentTokens promptTokens }
      answerCall c step continuation modelId definition promptTokens

def cancelledResult : ToolResult := ⟨false, some "cancelled", "Tool execution cancelled"⟩

def noHandler (name : String) : ToolResult :=
  ⟨false, some "not_found", s!"No handler registered for tool {name}"⟩

/-- The inner `execute`, from the lookup of the tool on. -/
def run (call : ToolRequest) : Loop ToolResult := do
  match ← wait (.admitted call) with
  | .refused result => pure result
  | .needsApproval result => do
    emitAll [.toolApprovalRequired, .approvalRequested]
    pure result
  | .stored result => do
    emit .toolCompleted
    pure result
  | .cleared hasHandler => do
    let v ← look
    if v.abort then pure cancelledResult
    else if !hasHandler then pure (noHandler call.name)
    else do
      emit .toolStarted
      Loop.call (.tool call)
      match ← wait (.handled call) with
      | .ok (result, cost) => do
        emit .toolCompleted
        update fun d => d.recordCall true
        addCost cost
        pure result
      | .error result => do
        emit .toolFailed
        update fun d => d.recordCall false
        pure result

/-- The gated `execute`: it holds while the run is paused, and verifies afterwards. -/
def execute (call : ToolRequest) : Loop ToolResult := do
  Prog.op .holdForPause Prog.done
  let _ ← wait .held
  let result ← run call
  emitAll (← wait .verified)
  pure result

def runCalls : List ToolRequest → Loop Unit
  | [] => pure ()
  | call :: calls => do
    update fun d => { d with toolCalls := d.toolCalls + 1 }
    let res ← execute call
    update fun d => d.say (.tool call.id call.name res.evidence)
    addContext [estimateTokens res.evidence + 20]
    when (c.retention && res.success) do
      emit .memoryWritten
      ofExcept (← wait .memoryWritten)
    runCalls calls

/-- At most four answers are followed, and three calls of each; `none` stops the step. -/
def toolLoop (step : Nat) : Nat → ModelResult → Loop (Option ModelResult)
  | 0, result => pure (some result)
  | guard + 1, result =>
    if result.toolCalls.isEmpty then pure (some result)
    else do
      let v ← look
      if v.abort then pure none
      else if c.maxToolCalls ≤ v.data.toolCalls then
        .throw (loopError "tool_budget" "Tool call budget exhausted")
      else do
        let calls := result.toolCalls.take 3
        update fun d => d.say (.assistant result.text calls)
        transition .waitingForTool
        emitAll (calls.map fun _ => .toolSelected)
        runCalls c calls
        toObserving
        emit .executionStepCompleted
        transition .executing
        toolLoop step guard (← callModel c step true)

def assist (step : Nat) (result : ModelResult) : Loop ModelResult := do
  let v ← look
  match c.heuristicToolCall with
  | none => pure result
  | some call =>
    if result.toolCalls.isEmpty && !v.data.heuristicToolUsed && step ≤ 2 then do
      update fun d => { d with heuristicToolUsed := true }
      transition .waitingForTool
      emit .toolSelected
      update fun d => { d with toolCalls := d.toolCalls + 1 }
      update fun d => d.say (.assistant result.text [call])
      let res ← execute call
      update fun d => d.say (.tool call.id call.name res.evidence)
      addContext [estimateTokens res.evidence + 20]
      toObserving
      transition .executing
      callModel c step true
    else pure result

def lower (text : String) : List Char := text.toList.map Char.toLower

def mentions (words : List String) (text : String) : Bool :=
  (lower text).tails.any fun rest => words.any fun word => word.toList.isPrefixOf rest

def finishes : String → Bool := mentions ["complete", "done", "no further", "finished"]

def remembers (text : String) : Bool :=
  (lower text).tails.any fun rest =>
    ["remember", "preference", "always", "never", "convention"].any fun word =>
      word.toList.isPrefixOf rest &&
        ((rest.drop word.length).dropWhile Text.isSpace).head? = some ':'

def evaluateCompletion (d : LoopData) (result : ModelResult) : Option String :=
  if d.recentToolCalls.contains false && !finishes result.text then none
  else if !result.toolCalls.isEmpty then none
  else if Text.trim result.text.toList = [] then none
  else some result.text

def finishStep (result : ModelResult) : Loop Bool := do
  toObserving
  update fun d => { d with assistantMessages := d.assistantMessages ++ [result.text] }
  update fun d => d.say (.assistant result.text [])
  emit .responseDone
  let v ← look
  when c.persists (wait .persisted)
  when (c.retention && result.text ≠ "" && remembers result.text) do
    emit .memoryWritten
    ofExcept (← wait .durableWritten)
  match evaluateCompletion v.data result with
  | some summary => do
    completeRun (some summary)
    pure false
  | none => do
    transition .executing
    pure true

def backoffMs (retries : Nat) : Nat := min 5000 (500 * 2 ^ (retries - 1))

def recoverStep (error : LoopError) : Loop Bool := do
  let v ← look
  if v.abort then pure false
  else if error.code = some "context_exhausted" then do
    if ← failoverLargerContext c then do
      emit .executionRetry
      pure true
    else .throw error
  else if error.failoverEligible then do
    update fun d => { d with triedModels := d.triedModels ++ d.currentModel.toList }
    emit .modelUnavailable
    when (error.code = some "model_unavailable") (wait .unavailableMarked)
    let tried ← look
    if ← failover c tried.data.triedModels then do
      emit .executionRetry
      pure true
    else if error.code = some "model_unavailable" then do
      let now ← look
      let failed := v.data.currentModel.getD "null"
      let provider := (now.data.providerModel.map ModelDef.provider).getD c.providerId
      let reason := cut 200 error.message
      .throw (loopError "model_unavailable"
        s!"Model '{failed}' is not accessible via {provider} ({reason}) and no viable alternative models remain")
    else do
      let v ← look
      if v.data.retries < c.maxRetries then do
        update fun d => { d with retries := d.retries + 1 }
        emit .executionRetry
        wait (.backoff (backoffMs (v.data.retries + 1)))
        let v ← look
        pure !v.abort
      else .throw error
  else .throw error

/-- One step of the agent; `false` stops the loop. -/
def executeStep (step : Nat) : Loop Bool := do
  Prog.op .startStep Prog.done
  emit .executionStepStarted
  match ← attempt (callModel c step false) with
  | .error error => recoverStep c error
  | .ok result =>
    match ← toolLoop c step 4 result with
    | none => pure false
    | some result => do
      let v ← look
      if v.abort then pure false
      else finishStep c (← assist c step result)

inductive Trigger
  | budgetCritical
  | contextCritical
  | modelUnavailable

def criticalTriggers (v : View) : List Trigger :=
  let ratio := if 0 < v.budget.maximumCost then v.budget.currentSpend / v.budget.maximumCost else 0
  (if c.budgetCriticalThreshold ≤ ratio then [.budgetCritical] else []) ++
    (if 95 / 100 ≤ v.data.utilization then [.contextCritical] else []) ++
    (if v.data.modelHealth = .unavailable then [.modelUnavailable] else [])

def budgetWarns (v : View) : Bool :=
  decide (v.budget.maximumCost * c.budgetWarningThreshold ≤ v.budget.currentSpend) &&
    !v.budget.isBudgetExceeded

def nearLimit (v : View) : Bool := c.contextWarningThreshold ≤ v.data.utilization

def handleOptimization : Trigger → Loop Unit
  | .modelUnavailable => do
    let _ ← failover c []
  | .contextCritical => do
    let v ← look
    let reclaimed ← compressContext (v.data.maximumTokens / 2)
    let v ← look
    if reclaimed = 0 ∧ 1 ≤ v.data.utilization then
      .throw (loopError "context_exhausted" "Context budget exhausted and nothing left to compress")
    else pure ()
  | .budgetCritical => do
    let _ ← handleBudgetExceeded c

def handleTriggers : List Trigger → Loop Unit
  | [] => pure ()
  | trigger :: triggers => do
    emit .optimizationTriggered
    handleOptimization c trigger
    emit .optimizationCompleted
    handleTriggers triggers

def checkOptimizationTriggers : Loop Unit := do
  let v ← Prog.op .evaluate Prog.done
  handleTriggers c (criticalTriggers c v)
  when (budgetWarns c v) (emit .budgetWarning)
  when (nearLimit c v) do
    emit .contextLimitWarning
    if c.allowCompaction then do
      let now ← look
      let _ ← compressContext (now.data.maximumTokens * 3 / 5)
    else emit .optimizationTriggered

/-- The check at the top of the loop; `false` returns from the loop. -/
def admitStep : Loop Bool := do
  let v ← look
  if v.abort then do
    cancelledRun "cancelled during execution"
    pure false
  else if v.terminal then pure false
  else if v.budget.isBudgetExceeded || v.budget.isLatencyExceeded then do
    let switched ← handleBudgetExceeded c
    if !switched then
      .throw (loopError "budget_exceeded" "Budget exceeded and no cheaper model available")
    else do
      let v ← look
      pure !(v.abort || v.terminal)
  else pure true

def goesOn : Loop Bool := do
  let v ← look
  if v.abort then do
    cancelledRun "cancelled during execution"
    pure false
  else pure !v.terminal

/-- The steps after `steps`, of which there may be so many; `none` is a return from
`_executeRun`. -/
def runSteps : Nat → Nat → Loop (Option Nat)
  | 0, steps => pure (some steps)
  | left + 1, steps => do
    if ← admitStep c then do
      update fun d => { d with totalSteps := max d.totalSteps (steps + 1) }
      let shouldContinue ← executeStep c (steps + 1)
      checkOptimizationTriggers c
      if !shouldContinue then pure (some (steps + 1))
      else if ← goesOn then runSteps left (steps + 1)
      else pure none
    else pure none

def closeRun (steps : Nat) : Loop Unit := do
  let v ← look
  if v.terminal || v.abort then pure ()
  else if c.maxSteps ≤ steps then
    match v.data.assistantMessages.getLast? with
    | some text => completeRun (some text)
    | none =>
      let maxSteps := c.maxSteps
      .throw (loopError "step_limit"
        s!"Step limit ({maxSteps}) reached without a model response")
  else completeRun none

/-- How an episode is entered: a retry with a model resumes after a step. -/
structure Entry where
  resume : Bool
  startStep : Nat

def enter (entry : Entry) : Loop Unit :=
  if entry.resume then do
    emit .planning
    transition .executing
  else do
    transition .planning
    emit .taskStarted
    emit .planning

def setUp (entry : Entry) : Loop Unit := do
  enter entry
  let v ← look
  if v.budget.isBudgetExceeded then .throw (loopError "budget_exceeded" "Budget already exhausted")
  else if entry.resume then pure ()
  else do
    transition .contextBuild
    buildContext c
    transition .modelSelect
    selectModel c
    transition .executing

def executeRun (entry : Entry) : Loop Unit := do
  setUp c entry
  update fun d => { d with totalSteps := max d.totalSteps entry.startStep }
  match ← runSteps c (c.maxSteps - entry.startStep) entry.startStep with
  | none => pure ()
  | some steps => closeRun c steps

/-- `_executeRun` with its catch and its finally. -/
def episode (entry : Entry) : Loop Unit := do
  (executeRun c entry).tryCatch fun error => do
    wait .rejected
    Prog.op (.failRun error.toRunError) Prog.done
  wait .closing
  Prog.op .settle Prog.done

end Loop

end OrchestraAI.Core
