import Mathlib.Algebra.Order.Ring.Unbundled.Rat
import Mathlib.Data.Rat.Floor
import OrchestraAI.Core.StateMachine
import OrchestraAI.Library.LabelledSystem
import OrchestraAI.Library.OrderedMap
import OrchestraAI.Library.TextUnits

/-! # Forked and duplicated runs

`forkRun` and `duplicateRun` of `core/orchestrator.js` with the constructor of
`state/runtime-state.js`. Both read properties that no run has.
-/

namespace OrchestraAI.Core.Forks

open LabelledSystem

structure RunConfig where
  mode : Option Text
  provider : Option Text
  taskType : Option Text
  maxSteps : Option ℚ
  maxToolCalls : Option ℚ
  maxRetries : Option ℚ
  defaultBudgetUsd : Option ℚ
  defaultMaxContextTokens : Option ℚ
  runTimeoutMs : Option ℚ

structure PolicyState where
  allowedModels : List Text
  allowedTools : List Text
  blockedModels : List Text
  blockedTools : List Text

namespace PolicyState

/-- `new PolicyState()`. -/
def new : PolicyState := ⟨[], [], [], []⟩

def isModelAllowed (p : PolicyState) (modelId : Text) : Bool :=
  modelId ∉ p.blockedModels ∧ (p.allowedModels = [] ∨ modelId ∈ p.allowedModels)

def isToolAllowed (p : PolicyState) (toolName : Text) : Bool :=
  toolName ∉ p.blockedTools ∧ (p.allowedTools = [] ∨ toolName ∈ p.allowedTools)

end PolicyState

/-- A property that the constructor does not set is `undefined`. -/
structure MemoryState where
  workingMemoryRefs : List Text
  persistentMemoryRefs : List Text
  working : Option (List Text)
  longterm : Option (List Text)

/-- The resolved limits that are attached to the control record. -/
structure RunLimits where
  maxSteps : ℤ
  maxToolCalls : ℤ

/-- A run with what `createRun` attaches to its control record. -/
structure RuntimeState where
  runId : Text
  objective : Text
  taskType : Text
  status : TaskStatus
  currentModel : Option Text
  memory : MemoryState
  maximumCost : ℚ
  maximumLatency : ℚ
  maximumTokens : ℚ
  policy : PolicyState
  ownerId : Option Text
  orgId : Option Text
  projectId : Option Text
  referenceModelId : Option Text
  privacyMode : Text
  config : Option RunConfig
  limits : Option RunLimits

structure Request where
  taskType : Option Text
  maxCost : Option ℚ
  maxLatencyMs : Option ℚ
  maxContextTokens : Option ℚ
  ownerId : Option Text
  orgId : Option Text
  projectId : Option Text
  referenceModelId : Option Text
  privacyMode : Option Text

def privacyModes : List Text := ["metadata_only", "standard", "zero_retention"].map String.toList

/-- `new RuntimeState(taskObjective, config)`. -/
def RuntimeState.new (runId taskObjective : Text) (config : Request) : RuntimeState where
  runId := runId
  objective := taskObjective
  taskType := config.taskType.getD "general".toList
  status := .created
  currentModel := none
  memory := ⟨[], [], none, none⟩
  maximumCost := config.maxCost.getD (1 / 10)
  maximumLatency := config.maxLatencyMs.getD 300000
  maximumTokens := config.maxContextTokens.getD 128000
  policy := .new
  ownerId := config.ownerId.map (Text.sliceUnits 128)
  orgId := config.orgId.map (Text.sliceUnits 128)
  projectId := config.projectId.map (Text.sliceUnits 128)
  referenceModelId := config.referenceModelId.map (Text.sliceUnits 200)
  privacyMode := (config.privacyMode.filter (· ∈ privacyModes)).getD "standard".toList
  config := none
  limits := none

structure Settings where
  maxSteps : ℚ
  maxToolCalls : ℤ
  /-- Whether there is a registry of models. -/
  modelRegistry : Bool

structure Orchestrator where
  config : Settings
  activeRuns : OrderedMap Text RuntimeState

/-- `runConfigFor(ctrl, globalConfig)`. -/
def Orchestrator.runConfig (o : Orchestrator) (r : RuntimeState) : RunLimits :=
  r.limits.getD ⟨max 1 (min 50 ⌊o.config.maxSteps⌋), o.config.maxToolCalls⟩

inductive Failure
  | notFound
  | terminal (status : TaskStatus)
  /-- A property of `undefined` is read, or a method that is none is called. -/
  | typeError

def defined {α : Type} (property : Option α) : Except Failure α :=
  match property with
  | none => .error .typeError
  | some value => .ok value

/-- What `forkRun` and `duplicateRun` have in common. The registry gives its models as a promise, which
has no `find`. -/
def copyRun (title : Text) (o : Orchestrator) (runId newId : Text) : Except Failure Orchestrator :=
  match o.activeRuns.get runId with
  | none => .error .notFound
  | some src =>
    if src.status.terminal then .error (.terminal src.status)
    else do
      let config ← defined src.config
      let _ ← defined src.memory.working
      let _ ← defined src.memory.longterm
      let taskMode := config.taskType.getD "general".toList
      let run := RuntimeState.new newId (Text.sliceUnits 200 (title ++ src.objective))
        ⟨none, config.defaultBudgetUsd, config.runTimeoutMs, config.defaultMaxContextTokens, none, none,
          none, none, none⟩
      if src.currentModel.isSome ∧ o.config.modelRegistry then .error .typeError
      else
        .ok { o with
          activeRuns := o.activeRuns.set newId
            { run with taskType := taskMode, objective := src.objective } }

def forkRun : Orchestrator → Text → Text → Except Failure Orchestrator := copyRun "Fork of ".toList

def duplicateRun : Orchestrator → Text → Text → Except Failure Orchestrator :=
  copyRun "Duplicate of ".toList

/-- What happens to a run sets the properties that it has, in whatever way, and adds none. -/
def changed (r t : RuntimeState) : RuntimeState :=
  { t with
    memory := { t.memory with working := r.memory.working, longterm := r.memory.longterm }
    config := r.config }

inductive Label
  | createRun (runId taskObjective : Text) (config : Request) (policy : PolicyState) (limits : RunLimits)
  | change (runId : Text) (t : RuntimeState)
  | leave (runId : Text)
  | forkRun (runId newId : Text)
  | duplicateRun (runId newId : Text)

def copied (o : Orchestrator) : Except Failure Orchestrator → Orchestrator
  | .ok t => t
  | .error _ => o

def step (o : Orchestrator) : Label → Option Orchestrator
  | .createRun runId taskObjective config policy limits =>
    some { o with
      activeRuns := o.activeRuns.set runId
        { RuntimeState.new runId taskObjective config with policy, limits := some limits } }
  | .change runId t =>
    (o.activeRuns.get runId).map fun r =>
      { o with activeRuns := o.activeRuns.set runId (changed r t) }
  | .leave runId => some { o with activeRuns := o.activeRuns.delete runId }
  | .forkRun runId newId => some (copied o (forkRun o runId newId))
  | .duplicateRun runId newId => some (copied o (duplicateRun o runId newId))

def Start (o : Orchestrator) : Prop := o.activeRuns = .empty

/-- The identity is the same, what is blocked stays blocked, and the limits are not larger. -/
structure Keeps (o : Orchestrator) (parent child : RuntimeState) : Prop where
  ownerId : child.ownerId = parent.ownerId
  orgId : child.orgId = parent.orgId
  projectId : child.projectId = parent.projectId
  privacyMode : child.privacyMode = parent.privacyMode
  referenceModelId : child.referenceModelId = parent.referenceModelId
  tools : ∀ toolName, parent.policy.isToolAllowed toolName = false →
    child.policy.isToolAllowed toolName = false
  models : ∀ modelId, parent.policy.isModelAllowed modelId = false →
    child.policy.isModelAllowed modelId = false
  budget : child.maximumCost ≤ parent.maximumCost
  steps : (o.runConfig child).maxSteps ≤ (o.runConfig parent).maxSteps
  toolCalls : (o.runConfig child).maxToolCalls ≤ (o.runConfig parent).maxToolCalls

def Copies (copy : Orchestrator → Text → Text → Except Failure Orchestrator) (o : Orchestrator)
    (runId newId : Text) (parent : RuntimeState) : Prop :=
  ∃ t child, copy o runId newId = .ok t ∧ t.activeRuns.get newId = some child ∧ Keeps o parent child ∧
    t.activeRuns.get runId = some parent

def Bare (o : Orchestrator) : Prop :=
  ∀ runId r, o.activeRuns.get runId = some r → r.config = none

variable {o t : Orchestrator} {r : RuntimeState} {title runId newId : Text} {l : Label}

theorem copyRun_typeError (ho : Bare o) (hLive : o.activeRuns.get runId = some r)
    (hStatus : r.status.terminal = false) : copyRun title o runId newId = .error .typeError := by
  rw [copyRun, hLive]
  dsimp only
  rw [if_neg (Bool.eq_false_iff.mp hStatus), ho runId r hLive]
  rfl

theorem copyRun_error (ho : Bare o) : ∃ failure, copyRun title o runId newId = .error failure := by
  cases hGet : o.activeRuns.get runId with
  | none => exact ⟨.notFound, by rw [copyRun, hGet]⟩
  | some r =>
    cases hStatus : r.status.terminal with
    | true => exact ⟨.terminal r.status, by rw [copyRun, hGet]; exact if_pos hStatus⟩
    | false => exact ⟨.typeError, copyRun_typeError ho hGet hStatus⟩

theorem Bare.set (ho : Bare o) (hr : r.config = none) :
    Bare { o with activeRuns := o.activeRuns.set runId r } := by
  intro id s hGet
  rw [OrderedMap.get_set] at hGet
  split at hGet
  · cases hGet
    exact hr
  · exact ho id s hGet

theorem Bare.copied (ho : Bare o) : Bare (copied o (copyRun title o runId newId)) := by
  obtain ⟨failure, hError⟩ : ∃ failure, copyRun title o runId newId = .error failure :=
    copyRun_error ho
  rw [hError]
  exact ho

theorem Bare.step (ho : Bare o) (h : step o l = some t) : Bare t := by
  cases l with
  | createRun =>
    cases h
    exact ho.set rfl
  | change runId s =>
    obtain ⟨r, hGet, rfl⟩ := Option.map_eq_some_iff.mp h
    exact ho.set (ho runId r hGet)
  | leave runId =>
    cases h
    intro id s hGet
    rw [OrderedMap.get_delete] at hGet
    split at hGet
    · cases hGet
    · exact ho id s hGet
  | forkRun =>
    cases h
    exact ho.copied
  | duplicateRun =>
    cases h
    exact ho.copied

theorem not_copies {copy : Orchestrator → Text → Text → Except Failure Orchestrator} {failure : Failure}
    (h : copy o runId newId = .error failure) : ¬ Copies copy o runId newId r := by
  rintro ⟨t, child, hOk, -⟩
  rw [h] at hOk
  cases hOk

/-- Neither call copies a live run, whatever has happened before: the configuration that it reads is
`undefined`. -/
theorem never_copies (hRun : Reach step Anything Start o) (hLive : o.activeRuns.get runId = some r)
    (hStatus : r.status.terminal = false) (newId : Text) :
    forkRun o runId newId = .error .typeError ∧ duplicateRun o runId newId = .error .typeError ∧
      ¬ Copies forkRun o runId newId r ∧ ¬ Copies duplicateRun o runId newId r := by
  have ho : Bare o := by
    apply hRun.invariant
    · intro s hs id r hGet
      rw [hs] at hGet
      cases hGet
    · exact fun _ _ _ hBare _ hStep => hBare.step hStep
  have hFork : forkRun o runId newId = .error .typeError := copyRun_typeError ho hLive hStatus
  have hDuplicate : duplicateRun o runId newId = .error .typeError := copyRun_typeError ho hLive hStatus
  exact ⟨hFork, hDuplicate, not_copies hFork, not_copies hDuplicate⟩

def request : Request := ⟨none, none, none, none, some "user-1".toList, none, none, none, none⟩

def createOne : Label := .createRun "run-1".toList "fix the bug".toList request .new ⟨12, 20⟩

def idle : Orchestrator := ⟨⟨12, 20, true⟩, .empty⟩

def ownRun : RuntimeState :=
  { RuntimeState.new "run-1".toList "fix the bug".toList request with limits := some ⟨12, 20⟩ }

def one : Orchestrator := { idle with activeRuns := idle.activeRuns.set "run-1".toList ownRun }

theorem never_copies_one : ¬ Copies forkRun one "run-1".toList "run-2".toList ownRun :=
  (never_copies (.next (l := createOne) (.start (s := idle) rfl) trivial rfl) rfl rfl
    "run-2".toList).2.2.1

/-- The run was created, and neither call copies it. -/
theorem one_not_copied : step idle createOne = some one ∧
    ¬ Copies forkRun one "run-1".toList "run-2".toList ownRun ∧
    ¬ Copies duplicateRun one "run-1".toList "run-2".toList ownRun := by
  have hFork : forkRun one "run-1".toList "run-2".toList = .error .typeError := rfl
  have hDuplicate : duplicateRun one "run-1".toList "run-2".toList = .error .typeError := rfl
  exact ⟨rfl, not_copies hFork, not_copies hDuplicate⟩

end OrchestraAI.Core.Forks
