import Mathlib.Algebra.Order.Ring.Unbundled.Rat
import OrchestraAI.Core.StateMachine
import OrchestraAI.Library.ObjectHeap
import OrchestraAI.Library.OrderedMap

/-! # The runtime state of a run

`state/runtime-state.js`: the sub-states, their mutators and `toSnapshot`. Arrays
and records that a snapshot hands out without copying live on the heap and are
held by address; what `slice` and the spread copy is held by value. Times are
milliseconds.
-/

namespace OrchestraAI.State

open ObjectHeap
open OrchestraAI.Core (TaskStatus)

inductive ModelStatus
  | healthy
  | degraded
  | unavailable
  deriving DecidableEq, Repr

def ModelStatus.text : ModelStatus → String
  | healthy => "healthy"
  | degraded => "degraded"
  | unavailable => "unavailable"

abbrev Word := {s : String // s ≠ ""}

structure TaskState where
  taskId : String
  objective : String
  taskType : String
  complexity : String
  priority : String
  status : TaskStatus
  progress : ℚ
  successProbability : ℚ
  createdAt : ℚ
  updatedAt : ℚ
  metadata : Val

structure ModelState where
  currentModel : Option String
  currentProvider : Option String
  candidateModels : Addr
  modelContextLimit : ℚ
  modelHealth : ModelStatus
  modelLatency : ℚ
  modelReliability : ℚ
  modelSelectionReason : String
  lastModelChange : Option ℚ
  modelSwitchCount : ℚ
  modelStickinessScore : ℚ

structure ContextState where
  currentTokens : ℚ
  maximumTokens : ℚ
  tokenBudget : ℚ
  contextItems : Addr
  compressedItems : Addr
  discardedItems : Addr
  contextVersion : ℚ
  cacheablePrefixTokens : ℚ
  cacheState : Word

structure MemoryState where
  workingMemoryRefs : Addr
  persistentMemoryRefs : Addr
  memoryReads : ℚ
  memoryWrites : ℚ

structure ToolState where
  availableTools : List Val
  activeTools : List String
  recentToolCalls : List Val
  toolHealth : OrderedMap String ℚ
  toolFailures : OrderedMap String ℚ
  toolLatency : OrderedMap String ℚ
  toolCosts : OrderedMap String ℚ

structure BudgetState where
  maximumCost : ℚ
  currentSpend : ℚ
  estimatedRemainingCost : ℚ
  maximumLatency : ℚ
  elapsedLatency : ℚ
  costBreakdown : OrderedMap String ℚ
  costHistory : List Val

structure ExecutionState where
  currentStep : Nat
  totalSteps : Nat
  stepHistory : List Val
  retries : ℚ
  failures : ℚ
  executionStatus : Word
  checkpoints : List Val
  lastCheckpoint : Val

/-- The policy holds the fields of its `toJSON` in order; nothing here writes them. -/
structure RuntimeState where
  runId : String
  status : TaskStatus
  task : TaskState
  model : ModelState
  context : ContextState
  memory : MemoryState
  tools : ToolState
  budget : BudgetState
  execution : ExecutionState
  policy : List (String × Val)
  createdAt : ℚ
  updatedAt : ℚ
  metadata : Val
  ownerId : Option String
  orgId : Option String
  projectId : Option String
  referenceModelId : Option String
  referencePricingSnapshot : Val
  economics : Val
  privacyMode : String
  executionMode : String
  modelCalls : List Val

/-- `new PolicyState().toJSON()` on a heap that the six lists of a new run already occupy. -/
def defaultPolicy : Heap × List (String × Val) :=
  ([.array [], .array [], .array [], .array [], .array [], .array [], .record [],
      .record [("maxCost", .num (1 / 10)), ("warningThreshold", .num (8 / 10))],
      .record [("maxLatencyMs", .num 300000), ("warningThresholdMs", .num 240000)], .array []],
    [("allowedProviders", .ref 8), ("allowedModels", .ref 9), ("allowedTools", .ref 10),
      ("blockedProviders", .ref 11), ("blockedModels", .ref 12), ("blockedTools", .ref 13),
      ("privacyConstraints", .ref 14), ("costConstraints", .ref 15), ("latencyConstraints", .ref 16),
      ("capabilityRequirements", .ref 17), ("modelStickinessThreshold", .num (7 / 10)),
      ("modelSwitchingThreshold", .num (15 / 100)), ("contextUtilizationThreshold", .num (8 / 10)),
      ("maxRetries", .num 3), ("retryBackoffMs", .num 1000)])

/-- `new RuntimeState(taskObjective)` with the default configuration. -/
def RuntimeState.new (runId taskId taskObjective : String) (now : ℚ) : Heap × RuntimeState :=
  ([.record [], .array [], .array [], .array [], .array [], .array [], .array [], .record []] ++
      defaultPolicy.1,
    { runId
      status := .created
      task :=
        { taskId, objective := taskObjective, taskType := "general", complexity := "medium"
          priority := "normal", status := .created, progress := 0, successProbability := 1 / 2
          createdAt := now, updatedAt := now, metadata := .ref 0 }
      model :=
        { currentModel := none, currentProvider := none, candidateModels := 1
          modelContextLimit := 0, modelHealth := .healthy, modelLatency := 0, modelReliability := 1
          modelSelectionReason := "", lastModelChange := none, modelSwitchCount := 0
          modelStickinessScore := 1 }
      context :=
        { currentTokens := 0, maximumTokens := 128000, tokenBudget := 128000, contextItems := 2
          compressedItems := 3, discardedItems := 4, contextVersion := 0
          cacheablePrefixTokens := 0, cacheState := ⟨"COLD", by decide⟩ }
      memory :=
        { workingMemoryRefs := 5, persistentMemoryRefs := 6, memoryReads := 0, memoryWrites := 0 }
      tools :=
        { availableTools := [], activeTools := [], recentToolCalls := [], toolHealth := .empty
          toolFailures := .empty, toolLatency := .empty, toolCosts := .empty }
      budget :=
        { maximumCost := 1 / 10, currentSpend := 0, estimatedRemainingCost := 0
          maximumLatency := 300000, elapsedLatency := 0, costBreakdown := .empty, costHistory := [] }
      execution :=
        { currentStep := 0, totalSteps := 0, stepHistory := [], retries := 0, failures := 0
          executionStatus := ⟨"idle", by decide⟩, checkpoints := [], lastCheckpoint := .null }
      policy := defaultPolicy.2
      createdAt := now
      updatedAt := now
      metadata := .ref 7
      ownerId := none
      orgId := none
      projectId := none
      referenceModelId := none
      referencePricingSnapshot := .null
      economics := .null
      privacyMode := "standard"
      executionMode := "demo"
      modelCalls := [] })

/-- `slice(-n)`. -/
def sliceLast {α : Type} (n : Nat) (xs : List α) : List α := xs.drop (xs.length - n)

/-- `toSnapshot`: the sub-states' `toJSON` documents, which keep the live arrays and records. -/
def RuntimeState.toSnapshot (s : RuntimeState) : RuntimeState :=
  { s with
    tools := { s.tools with recentToolCalls := sliceLast 10 s.tools.recentToolCalls }
    budget := { s.budget with costHistory := sliceLast 50 s.budget.costHistory }
    execution :=
      { s.execution with
        stepHistory := sliceLast 20 s.execution.stepHistory
        checkpoints := sliceLast 10 s.execution.checkpoints }
    modelCalls := sliceLast 200 s.modelCalls }

def optional : Option String → Val
  | none => .null
  | some s => .str s

/-- `x || null` of an optional string. -/
def orNull (s : Option String) : Val := optional (s.filter (· ≠ ""))

/-- `Object.fromEntries` of a map of amounts. -/
def amounts (m : OrderedMap String ℚ) : Part := .record (m.entries.map fun e => (e.1, .num e.2))

def TaskState.toJSON (s : TaskState) : Section :=
  .record
    [("taskId", .val (.str s.taskId)), ("objective", .val (.str s.objective)),
      ("taskType", .val (.str s.taskType)), ("complexity", .val (.str s.complexity)),
      ("priority", .val (.str s.priority)), ("status", .val (.str s.status.text)),
      ("progress", .val (.num s.progress)),
      ("successProbability", .val (.num s.successProbability)),
      ("createdAt", .val (.num s.createdAt)), ("updatedAt", .val (.num s.updatedAt)),
      ("metadata", .val s.metadata)]

def ModelState.toJSON (s : ModelState) : Section :=
  .record
    [("currentModel", .val (optional s.currentModel)),
      ("currentProvider", .val (optional s.currentProvider)),
      ("candidateModels", .val (.ref s.candidateModels)),
      ("modelContextLimit", .val (.num s.modelContextLimit)),
      ("modelHealth", .val (.str s.modelHealth.text)), ("modelLatency", .val (.num s.modelLatency)),
      ("modelReliability", .val (.num s.modelReliability)),
      ("modelSelectionReason", .val (.str s.modelSelectionReason)),
      ("lastModelChange", .val ((s.lastModelChange.map Val.num).getD .null)),
      ("modelSwitchCount", .val (.num s.modelSwitchCount)),
      ("modelStickinessScore", .val (.num s.modelStickinessScore))]

def ContextState.toJSON (s : ContextState) : Section :=
  .record
    [("currentTokens", .val (.num s.currentTokens)), ("maximumTokens", .val (.num s.maximumTokens)),
      ("tokenBudget", .val (.num s.tokenBudget)), ("contextItems", .val (.ref s.contextItems)),
      ("compressedItems", .val (.ref s.compressedItems)),
      ("discardedItems", .val (.ref s.discardedItems)),
      ("contextVersion", .val (.num s.contextVersion)),
      ("cacheablePrefixTokens", .val (.num s.cacheablePrefixTokens)),
      ("cacheState", .val (.str s.cacheState))]

def MemoryState.toJSON (s : MemoryState) : Section :=
  .record
    [("workingMemoryRefs", .val (.ref s.workingMemoryRefs)),
      ("persistentMemoryRefs", .val (.ref s.persistentMemoryRefs)),
      ("memoryReads", .val (.num s.memoryReads)), ("memoryWrites", .val (.num s.memoryWrites))]

def ToolState.toJSON (s : ToolState) : Section :=
  .record
    [("availableTools", .list s.availableTools), ("activeTools", .list (s.activeTools.map Val.str)),
      ("recentToolCalls", .list s.recentToolCalls), ("toolHealth", amounts s.toolHealth),
      ("toolFailures", amounts s.toolFailures), ("toolLatency", amounts s.toolLatency),
      ("toolCosts", amounts s.toolCosts)]

def BudgetState.getRemainingBudget (s : BudgetState) : ℚ := max 0 (s.maximumCost - s.currentSpend)

def BudgetState.toJSON (s : BudgetState) : Section :=
  .record
    [("maximumCost", .val (.num s.maximumCost)), ("currentSpend", .val (.num s.currentSpend)),
      ("estimatedRemainingCost", .val (.num s.estimatedRemainingCost)),
      ("remainingBudget", .val (.num s.getRemainingBudget)),
      ("maximumLatency", .val (.num s.maximumLatency)),
      ("elapsedLatency", .val (.num s.elapsedLatency)), ("costBreakdown", amounts s.costBreakdown),
      ("costHistory", .list s.costHistory)]

def ExecutionState.toJSON (s : ExecutionState) : Section :=
  .record
    [("currentStep", .val (.num s.currentStep)), ("totalSteps", .val (.num s.totalSteps)),
      ("stepHistory", .list s.stepHistory), ("retries", .val (.num s.retries)),
      ("failures", .val (.num s.failures)), ("executionStatus", .val (.str s.executionStatus)),
      ("checkpoints", .list s.checkpoints), ("lastCheckpoint", .val s.lastCheckpoint)]

/-- The document of a snapshot, its fields in the order of `toSnapshot`. -/
def RuntimeState.toJSON (s : RuntimeState) : Doc :=
  [("runId", .part (.val (.str s.runId))), ("status", .part (.val (.str s.status.text))),
    ("task", s.task.toJSON), ("model", s.model.toJSON), ("context", s.context.toJSON),
    ("memory", s.memory.toJSON), ("tools", s.tools.toJSON), ("budget", s.budget.toJSON),
    ("execution", s.execution.toJSON), ("policy", .part (.record s.policy)),
    ("createdAt", .part (.val (.num s.createdAt))), ("updatedAt", .part (.val (.num s.updatedAt))),
    ("metadata", .part (.val s.metadata)), ("ownerId", .part (.val (orNull s.ownerId))),
    ("orgId", .part (.val (orNull s.orgId))), ("projectId", .part (.val (orNull s.projectId))),
    ("referenceModelId", .part (.val (orNull s.referenceModelId))),
    ("referencePricingSnapshot", .part (.val s.referencePricingSnapshot)),
    ("economics", .part (.val s.economics)), ("privacyMode", .part (.val (.str s.privacyMode))),
    ("executionMode", .part (.val (.str s.executionMode))), ("modelCalls", .part (.list s.modelCalls))]

end OrchestraAI.State
