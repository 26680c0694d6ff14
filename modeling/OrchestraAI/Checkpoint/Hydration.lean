import OrchestraAI.Checkpoint.Copies
import OrchestraAI.Checkpoint.Manager
import OrchestraAI.Library.GroupedFold
import OrchestraAI.Library.ObjectHeap

/-! # Hydrating a run from its execution-state document

`execution/execution-state.js`: the document of a runtime state and its control
record, its way through JSON, and the state built from it. Fields of the document
that no hydration reads are left out, and `config` is the empty one.
-/

namespace OrchestraAI.Checkpoint

open FallibleFold ObjectHeap OrchestraAI.State OrchestraAI.State.RuntimeState
open OrchestraAI.Core (TaskStatus)
open OrchestraAI.Recovery (truthy)

def EXECUTION_STATE_VERSION : Nat := 1

structure ExecutionDoc where
  version : Nat
  runId : String
  status : TaskStatus
  cursor : Nat
  runtime : RuntimeState
  control : ControlSnapshot

def isTruthy : Val → Bool
  | .null => false
  | .bool b => b
  | .num q => q ≠ 0
  | .str s => s ≠ ""
  | .ref _ => true

/-- `x || null`. -/
def orNullVal (v : Val) : Val := if isTruthy v then v else .null

def buildExecutionState (h : Heap) (rs : RuntimeState) (ctrl : ControlRecord) :
    Heap × ExecutionDoc :=
  let control := captureControlSnapshot h ctrl
  (control.1,
    { version := EXECUTION_STATE_VERSION
      runId := rs.runId
      status := rs.status
      cursor := rs.execution.currentStep
      runtime :=
        { rs.toSnapshot with
          ownerId := truthy rs.ownerId
          orgId := truthy rs.orgId
          projectId := truthy rs.projectId
          referenceModelId := truthy rs.referenceModelId
          referencePricingSnapshot := orNullVal rs.referencePricingSnapshot
          economics := orNullVal rs.economics }
      control := control.2 })

/-- `JSON.parse(JSON.stringify(snapshot))`: every object anew, the rest as it is. -/
def reloadSnapshot (h : Heap) (limit : Nat) (s : RuntimeState) : Option (Heap × RuntimeState) := do
  let (k, taskMetadata) ← clone h limit h s.task.metadata
  let (k, candidateModels) ← cloneRef h limit k s.model.candidateModels
  let (k, contextItems) ← cloneRef h limit k s.context.contextItems
  let (k, compressedItems) ← cloneRef h limit k s.context.compressedItems
  let (k, discardedItems) ← cloneRef h limit k s.context.discardedItems
  let (k, workingMemoryRefs) ← cloneRef h limit k s.memory.workingMemoryRefs
  let (k, persistentMemoryRefs) ← cloneRef h limit k s.memory.persistentMemoryRefs
  let (k, availableTools) ← cloneList h limit k s.tools.availableTools
  let (k, recentToolCalls) ← cloneList h limit k s.tools.recentToolCalls
  let (k, costHistory) ← cloneList h limit k s.budget.costHistory
  let (k, stepHistory) ← cloneList h limit k s.execution.stepHistory
  let (k, checkpoints) ← cloneList h limit k s.execution.checkpoints
  let (k, lastCheckpoint) ← clone h limit k s.execution.lastCheckpoint
  let (k, policy) ← cloneList h limit k (s.policy.map Prod.snd)
  let (k, metadata) ← clone h limit k s.metadata
  let (k, referencePricingSnapshot) ← clone h limit k s.referencePricingSnapshot
  let (k, economics) ← clone h limit k s.economics
  let (k, modelCalls) ← cloneList h limit k s.modelCalls
  return (k,
    { s with
      task := { s.task with metadata := taskMetadata }
      model := { s.model with candidateModels }
      context := { s.context with contextItems, compressedItems, discardedItems }
      memory := { s.memory with workingMemoryRefs, persistentMemoryRefs }
      tools := { s.tools with availableTools, recentToolCalls }
      budget := { s.budget with costHistory }
      execution := { s.execution with stepHistory, checkpoints, lastCheckpoint }
      policy := (s.policy.map Prod.fst).zip policy
      metadata
      referencePricingSnapshot
      economics
      modelCalls })

def reloadDoc (h : Heap) (limit : Nat) (doc : ExecutionDoc) : Option (Heap × ExecutionDoc) := do
  let (k, runtime) ← reloadSnapshot h limit doc.runtime
  let (k, messages) ← cloneList h limit k doc.control.messages
  let (k, history) ← cloneList h limit k doc.control.history
  return (k, { doc with runtime, control := { doc.control with messages, history } })

/-- What `generateId` returns in the constructors. -/
structure FreshIds where
  runId : String
  taskId : String

def moved (n : Nat) : Val → Val
  | .ref a => .ref (a + n)
  | v => v

/-- `new RuntimeState(objective)` on a heap that is in use; its objects hold no references. -/
def createRuntimeState (h : Heap) (fresh : FreshIds) (objective : String) (now : ℚ) :
    Heap × RuntimeState :=
  let new := RuntimeState.new fresh.runId fresh.taskId objective now
  let n := h.length
  (h ++ new.1,
    { new.2 with
      task := { new.2.task with metadata := moved n new.2.task.metadata }
      model := { new.2.model with candidateModels := new.2.model.candidateModels + n }
      context :=
        { new.2.context with
          contextItems := new.2.context.contextItems + n
          compressedItems := new.2.context.compressedItems + n
          discardedItems := new.2.context.discardedItems + n }
      memory :=
        { new.2.memory with
          workingMemoryRefs := new.2.memory.workingMemoryRefs + n
          persistentMemoryRefs := new.2.memory.persistentMemoryRefs + n }
      policy := new.2.policy.map fun p => (p.1, moved n p.2)
      metadata := moved n new.2.metadata })

/-- `{ ...v }`. -/
def spreadCopy (h : Heap) (v : Val) : Heap × Val := (h ++ [.record (spread h v)], .ref h.length)

/-- The section copies that follow `applySnapshotToRuntime`. -/
def hydrateSections (h : Heap) (rs s : RuntimeState) : Heap × RuntimeState :=
  let taskMetadata :=
    match s.task.metadata with
    | .ref _ | .null => spreadCopy h s.task.metadata
    | _ => (h, rs.task.metadata)
  let candidateModels := copyArray taskMetadata.1 s.model.candidateModels rs.model.candidateModels
  let contextItems :=
    copyArray candidateModels.1 s.context.contextItems rs.context.contextItems
  let compressedItems :=
    copyArray contextItems.1 s.context.compressedItems rs.context.compressedItems
  let discardedItems :=
    sliceArray compressedItems.1 s.context.discardedItems rs.context.discardedItems
  let workingMemoryRefs :=
    copyArray discardedItems.1 s.memory.workingMemoryRefs rs.memory.workingMemoryRefs
  let persistentMemoryRefs :=
    copyArray workingMemoryRefs.1 s.memory.persistentMemoryRefs rs.memory.persistentMemoryRefs
  let costHistory := copies persistentMemoryRefs.1 (sliceLast 50 s.budget.costHistory)
  let stepHistory := copies costHistory.1 s.execution.stepHistory
  let modelCalls := copies stepHistory.1 (sliceLast 200 s.modelCalls)
  (modelCalls.1,
    { rs with
      -- the status text is no finite number, so `task.status` keeps what was applied
      task :=
        { rs.task with
          progress := s.task.progress
          successProbability := s.task.successProbability
          metadata := taskMetadata.2 }
      model :=
        { rs.model with
          currentModel := s.model.currentModel
          currentProvider := s.model.currentProvider
          candidateModels := candidateModels.2
          modelContextLimit := s.model.modelContextLimit
          modelHealth := s.model.modelHealth
          modelLatency := s.model.modelLatency
          modelReliability := s.model.modelReliability
          modelSelectionReason := s.model.modelSelectionReason
          modelSwitchCount := s.model.modelSwitchCount
          modelStickinessScore := s.model.modelStickinessScore }
      context :=
        { rs.context with
          currentTokens := s.context.currentTokens
          contextItems := contextItems.2
          compressedItems := compressedItems.2
          discardedItems := discardedItems.2
          contextVersion := s.context.contextVersion
          cacheState := s.context.cacheState
          cacheablePrefixTokens := s.context.cacheablePrefixTokens }
      memory :=
        { rs.memory with
          workingMemoryRefs := workingMemoryRefs.2
          persistentMemoryRefs := persistentMemoryRefs.2 }
      budget :=
        { rs.budget with
          currentSpend := s.budget.currentSpend
          maximumCost := s.budget.maximumCost
          elapsedLatency := s.budget.elapsedLatency
          maximumLatency := s.budget.maximumLatency
          costBreakdown := s.budget.costBreakdown
          costHistory := costHistory.2 }
      execution :=
        { rs.execution with
          currentStep := s.execution.currentStep
          totalSteps := s.execution.totalSteps
          stepHistory := stepHistory.2
          retries := s.execution.retries
          failures := s.execution.failures
          executionStatus := s.execution.executionStatus }
      modelCalls := modelCalls.2 })

inductive HydrationError
  /-- Cannot read properties of null (reading 'slice'). -/
  | sliceOfNull
  /-- Converting circular structure to JSON. -/
  | circularStructure
  deriving DecidableEq, Repr

/-- `id.slice(0, n) || null`. -/
def sliceTo (n : Nat) (id : String) : Option String :=
  truthy (some (String.ofList (id.toList.take n)))

/-- `id.slice(n) || null`. -/
def sliceFrom (n : Nat) (id : String) : Option String :=
  truthy (some (String.ofList (id.toList.drop n)))

/-- `null !== undefined`, so the test before the slice lets `null` through. -/
def hydrateId (slice : String → Option String) : Option String →
    Except HydrationError (Option String)
  | none => .error .sliceOfNull
  | some id => .ok (slice id)

def hydratePricing (h : Heap) (live pricing : Val) : Heap × Val :=
  if isTruthy pricing then spreadCopy h pricing else (h, live)

def hydrateEconomics (h : Heap) (limit : Nat) (live economics : Val) :
    Except HydrationError (Heap × Val) :=
  if isTruthy economics then
    match clone h limit h economics with
    | none => .error .circularStructure
    | some r => .ok r
  else .ok (h, live)

def hydrateTopLevel (limit : Nat) (hydrated : Heap × RuntimeState) (s : RuntimeState) :
    Except HydrationError (Heap × RuntimeState) := do
  let ownerId ← hydrateId (sliceTo 128) s.ownerId
  let orgId ← hydrateId (sliceFrom 128) s.orgId
  let projectId ← hydrateId (sliceFrom 128) s.projectId
  let referenceModelId ← hydrateId (sliceFrom 200) s.referenceModelId
  let pricing :=
    hydratePricing hydrated.1 hydrated.2.referencePricingSnapshot s.referencePricingSnapshot
  let economics ← hydrateEconomics pricing.1 limit hydrated.2.economics s.economics
  return (economics.1,
    { hydrated.2 with
      ownerId
      orgId
      projectId
      referenceModelId
      referencePricingSnapshot := pricing.2
      economics := economics.2
      privacyMode := (truthy (some s.privacyMode)).getD hydrated.2.privacyMode
      executionMode := (truthy (some s.executionMode)).getD hydrated.2.executionMode })

/-- The objects of the document are in `h`. -/
def hydrateRuntimeState (limit : Nat) (h : Heap) (doc : ExecutionDoc) (fresh : FreshIds) (now : ℚ) :
    Except HydrationError (Heap × RuntimeState) :=
  let created := createRuntimeState h fresh doc.runtime.task.objective now
  let applied := applySnapshotToRuntime created.1 created.2 doc.runtime now
  hydrateTopLevel limit (hydrateSections applied.1 applied.2 doc.runtime) doc.runtime

def policyListNames : List String :=
  ["allowedProviders", "allowedModels", "allowedTools", "blockedProviders", "blockedModels",
    "blockedTools"]

def policyLists (n : Nat) (h : Heap) (s : RuntimeState) :
    List (String × Option ObjectHeap.Text) :=
  policyListNames.map fun name => (name, (OrderedMap.lookup name s.policy).bind (text h n))

/-- The fields that make a hydrated state the run that was serialized. -/
structure SameRun (n : Nat) (h : Heap) (rs : RuntimeState) (k : Heap) (r : RuntimeState) :
    Prop where
  runId : r.runId = rs.runId
  ownerId : r.ownerId = rs.ownerId
  orgId : r.orgId = rs.orgId
  projectId : r.projectId = rs.projectId
  referenceModelId : r.referenceModelId = rs.referenceModelId
  privacyMode : r.privacyMode = rs.privacyMode
  status : r.status = rs.status
  policyLists : policyLists n k r = policyLists n h rs
  currentSpend : r.budget.currentSpend = rs.budget.currentSpend
  maximumCost : r.budget.maximumCost = rs.budget.maximumCost
  currentStep : r.execution.currentStep = rs.execution.currentStep
  modelCalls : r.modelCalls.map (text k n) = rs.modelCalls.map (text h n)

/-- The document, its objects in `k`, hydrates to the run of the state `rs` of `h`. -/
def HydratesTo (limit : Nat) (h : Heap) (rs : RuntimeState) (k : Heap) (doc : ExecutionDoc)
    (fresh : FreshIds) (now : ℚ) : Prop :=
  ∃ l r, hydrateRuntimeState limit k doc fresh now = .ok (l, r) ∧ SameRun limit h rs l r

variable {limit : Nat} {h k : Heap} {doc : ExecutionDoc} {fresh : FreshIds} {now : ℚ}
  {r : RuntimeState}

theorem hydrateId_ok {slice : String → Option String} {id id' : Option String}
    (hOk : hydrateId slice id = .ok id') : ∃ s, id = some s ∧ id' = slice s := by
  cases id with
  | none => cases hOk
  | some s =>
    cases hOk
    exact ⟨s, rfl, rfl⟩

theorem hydrateSections_last (h : Heap) (rs s : RuntimeState) :
    ∃ m, h <+: m ∧ (hydrateSections h rs s).1 = (copies m (sliceLast 200 s.modelCalls)).1 ∧
      (hydrateSections h rs s).2.modelCalls = (copies m (sliceLast 200 s.modelCalls)).2 := by
  dsimp only [hydrateSections]
  refine ⟨_, ?_, rfl, rfl⟩
  refine List.IsPrefix.trans ?_ (prefix_copies ..)
  refine List.IsPrefix.trans ?_ (prefix_copies ..)
  refine List.IsPrefix.trans ?_ (prefix_copyArray ..)
  refine List.IsPrefix.trans ?_ (prefix_copyArray ..)
  refine List.IsPrefix.trans ?_ (prefix_sliceArray ..)
  refine List.IsPrefix.trans ?_ (prefix_copyArray ..)
  refine List.IsPrefix.trans ?_ (prefix_copyArray ..)
  refine List.IsPrefix.trans ?_ (prefix_copyArray ..)
  split
  · exact List.prefix_append ..
  · exact List.prefix_append ..
  · exact List.prefix_rfl

theorem hydrateSections_modelCalls {n : Nat} {s : RuntimeState} (hPrefix : h <+: k)
    (hCalls : ∀ v ∈ s.modelCalls, IsRecord h v) (rs : RuntimeState) :
    SameRecords n h (sliceLast 200 s.modelCalls) (hydrateSections k rs s).1
      (hydrateSections k rs s).2.modelCalls := by
  obtain ⟨m, hLast, hHeap, hCopies⟩ := hydrateSections_last k rs s
  obtain ⟨m', us, hEq, -, hSame⟩ := copies_same_extends (n := n) (hPrefix.trans hLast)
    fun v hv => hCalls v (mem_of_mem_sliceLast (n := 200) hv)
  rw [hHeap, hCopies, hEq]
  exact hSame

theorem prefix_hydratePricing (h : Heap) (live pricing : Val) :
    h <+: (hydratePricing h live pricing).1 := by
  rw [hydratePricing]
  split
  · exact List.prefix_append ..
  · exact List.prefix_rfl

theorem prefix_hydrateEconomics {live economics : Val} {e : Heap × Val}
    (hOk : hydrateEconomics h limit live economics = .ok e) : h <+: e.1 := by
  rw [hydrateEconomics] at hOk
  split at hOk
  · split at hOk
    · cases hOk
    · rename_i hClone
      cases hOk
      exact (clone_spec hClone).grown
  · cases hOk
    exact List.prefix_rfl

/-- What is written at the top level: every id was there, and of one of them only the slice keeps
the front. -/
structure TopLevel (hydrated : Heap × RuntimeState) (s : RuntimeState) (k : Heap)
    (r : RuntimeState) : Prop where
  ownerId : ∃ id, s.ownerId = some id ∧ r.ownerId = sliceTo 128 id
  orgId : ∃ id, s.orgId = some id ∧ r.orgId = sliceFrom 128 id
  projectId : ∃ id, s.projectId = some id ∧ r.projectId = sliceFrom 128 id
  referenceModelId : ∃ id, s.referenceModelId = some id ∧ r.referenceModelId = sliceFrom 200 id
  privacyMode : r.privacyMode = (truthy (some s.privacyMode)).getD hydrated.2.privacyMode
  grown : hydrated.1 <+: k
  runId : r.runId = hydrated.2.runId
  status : r.status = hydrated.2.status
  policy : r.policy = hydrated.2.policy
  budget : r.budget = hydrated.2.budget
  execution : r.execution = hydrated.2.execution
  modelCalls : r.modelCalls = hydrated.2.modelCalls

theorem hydrateTopLevel_ok {hydrated : Heap × RuntimeState} {s : RuntimeState}
    (hOk : hydrateTopLevel limit hydrated s = .ok (k, r)) : TopLevel hydrated s k r := by
  obtain ⟨ownerId, hOwner, hOk⟩ := bind_eq_ok hOk
  obtain ⟨orgId, hOrg, hOk⟩ := bind_eq_ok hOk
  obtain ⟨projectId, hProject, hOk⟩ := bind_eq_ok hOk
  obtain ⟨referenceModelId, hReference, hOk⟩ := bind_eq_ok hOk
  obtain ⟨economics, hEconomics, hOk⟩ := bind_eq_ok hOk
  cases hOk
  exact ⟨hydrateId_ok hOwner, hydrateId_ok hOrg, hydrateId_ok hProject, hydrateId_ok hReference,
    rfl, (prefix_hydratePricing ..).trans (prefix_hydrateEconomics hEconomics), rfl, rfl, rfl, rfl,
    rfl, rfl⟩

/-- A hydration that does not throw: the accounting is that of the document, the id and the policy
are those of a new run. -/
structure Hydrated (n : Nat) (h : Heap) (doc : ExecutionDoc) (fresh : FreshIds) (now : ℚ) (k : Heap)
    (r : RuntimeState) : Prop where
  grown : (createRuntimeState h fresh doc.runtime.task.objective now).1 <+: k
  runId : r.runId = fresh.runId
  policy : r.policy = (createRuntimeState h fresh doc.runtime.task.objective now).2.policy
  status : r.status = doc.runtime.status
  privacyMode : r.privacyMode = (truthy (some doc.runtime.privacyMode)).getD "standard"
  currentSpend : r.budget.currentSpend = doc.runtime.budget.currentSpend
  maximumCost : r.budget.maximumCost = doc.runtime.budget.maximumCost
  currentStep : r.execution.currentStep = doc.runtime.execution.currentStep
  modelCalls : SameRecords n h (sliceLast 200 doc.runtime.modelCalls) k r.modelCalls

theorem hydrate_ok {n : Nat} (hCalls : ∀ v ∈ doc.runtime.modelCalls, IsRecord h v)
    (hOk : hydrateRuntimeState limit h doc fresh now = .ok (k, r)) :
    Hydrated n h doc fresh now k r := by
  have hTop := hydrateTopLevel_ok hOk
  have hCreated : h <+: (createRuntimeState h fresh doc.runtime.task.objective now).1 :=
    List.prefix_append ..
  have hApplied := prefix_applySnapshotToRuntime
    (createRuntimeState h fresh doc.runtime.task.objective now).1
    (createRuntimeState h fresh doc.runtime.task.objective now).2 doc.runtime now
  have hSections :=
    (hydrateSections_modelCalls (n := n) (hCreated.trans hApplied) hCalls _).later hTop.grown
  constructor
  · obtain ⟨m, hLast, hHeap, -⟩ := hydrateSections_last
      (applySnapshotToRuntime (createRuntimeState h fresh doc.runtime.task.objective now).1
        (createRuntimeState h fresh doc.runtime.task.objective now).2 doc.runtime now).1
      (applySnapshotToRuntime (createRuntimeState h fresh doc.runtime.task.objective now).1
        (createRuntimeState h fresh doc.runtime.task.objective now).2 doc.runtime now).2 doc.runtime
    have hCopies := prefix_copies m (sliceLast 200 doc.runtime.modelCalls)
    rw [← hHeap] at hCopies
    exact ((hApplied.trans hLast).trans hCopies).trans hTop.grown
  · exact hTop.runId
  · exact hTop.policy
  · exact hTop.status
  · exact hTop.privacyMode
  · rw [hTop.budget]
    rfl
  · rw [hTop.budget]
    rfl
  · rw [hTop.execution]
    rfl
  · rw [hTop.modelCalls]
    exact hSections

structure WithinLimits (rs : RuntimeState) : Prop where
  ownerId : ∀ id ∈ rs.ownerId, id.toList.length ≤ 128
  orgId : ∀ id ∈ rs.orgId, id.toList.length ≤ 128
  projectId : ∀ id ∈ rs.projectId, id.toList.length ≤ 128
  referenceModelId : ∀ id ∈ rs.referenceModelId, id.toList.length ≤ 200

theorem truthy_eq_some {word : Option String} {s : String} (h : truthy word = some s) :
    word = some s ∧ s ≠ "" := by
  obtain ⟨hWord, hNonempty⟩ := Option.filter_eq_some_iff.mp h
  exact ⟨hWord, by simpa using hNonempty⟩

theorem sliceTo_of_length_le {n : Nat} {id : String} (hId : id ≠ "") (h : id.toList.length ≤ n) :
    sliceTo n id = some id := by
  rw [sliceTo, List.take_of_length_le h, String.ofList_toList]
  exact Option.filter_eq_some_iff.mpr ⟨rfl, by simpa using hId⟩

theorem sliceFrom_of_length_le {n : Nat} {id : String} (h : id.toList.length ≤ n) :
    sliceFrom n id = none := by
  rw [sliceFrom, List.drop_eq_nil_of_le h]
  rfl

theorem sliceFrom_ne {n : Nat} (hn : 0 < n) {id : String} (hId : id ≠ "") :
    sliceFrom n id ≠ some id := by
  intro h
  obtain ⟨hSlice, -⟩ := truthy_eq_some h
  have hList : id.toList.drop n = id.toList := by
    have := congrArg String.toList (Option.some.inj hSlice)
    rwa [String.toList_ofList] at this
  have hLength := congrArg List.length hList
  rw [List.length_drop] at hLength
  have hEmpty : id.toList = [] := List.eq_nil_of_length_eq_zero (by omega)
  exact hId (String.toList_eq_nil_iff.mp hEmpty)

theorem arrayAt_append (h os : Heap) (i : Nat) : arrayAt (h ++ os) (i + h.length) = arrayAt os i := by
  simp only [arrayAt, List.getElem?_append_right (Nat.le_add_left ..), Nat.add_sub_cancel]

theorem createRuntimeState_lists (h : Heap) (fresh : FreshIds) (objective : String) (now : ℚ) :
    ∀ name ∈ policyListNames, ∃ a,
      OrderedMap.lookup name (createRuntimeState h fresh objective now).2.policy = some (.ref a) ∧
        arrayAt (createRuntimeState h fresh objective now).1 a = some [] := by
  intro name hName
  simp only [policyListNames, List.mem_cons, List.not_mem_nil, or_false] at hName
  rcases hName with rfl | rfl | rfl | rfl | rfl | rfl
  · exact ⟨8 + h.length, rfl, arrayAt_append h _ 8⟩
  · exact ⟨9 + h.length, rfl, arrayAt_append h _ 9⟩
  · exact ⟨10 + h.length, rfl, arrayAt_append h _ 10⟩
  · exact ⟨11 + h.length, rfl, arrayAt_append h _ 11⟩
  · exact ⟨12 + h.length, rfl, arrayAt_append h _ 12⟩
  · exact ⟨13 + h.length, rfl, arrayAt_append h _ 13⟩

/-- What becomes of the run of `rs` when its hydration does not throw. -/
structure Salvaged (n : Nat) (h : Heap) (rs : RuntimeState) (fresh : FreshIds) (k : Heap)
    (r : RuntimeState) : Prop where
  ownerId : r.ownerId = rs.ownerId
  status : r.status = rs.status
  privacyMode : rs.privacyMode ≠ "" → r.privacyMode = rs.privacyMode
  currentSpend : r.budget.currentSpend = rs.budget.currentSpend
  maximumCost : r.budget.maximumCost = rs.budget.maximumCost
  currentStep : r.execution.currentStep = rs.execution.currentStep
  modelCalls : SameRecords n h (sliceLast 200 rs.modelCalls) k r.modelCalls
  runId : r.runId = fresh.runId
  orgId : r.orgId = none
  projectId : r.projectId = none
  referenceModelId : r.referenceModelId = none
  policyLists : ∀ name ∈ policyListNames, ∃ a,
    OrderedMap.lookup name r.policy = some (.ref a) ∧ arrayAt k a = some []

/-- The owner and the accounting come back; the organization, the project, the reference model,
the id of the run and the lists of its policy do not. -/
theorem hydrate_salvages {n : Nat} {rs : RuntimeState} {ctrl : ControlRecord}
    (hLimits : WithinLimits rs) (hCalls : ∀ v ∈ rs.modelCalls, IsRecord h v)
    (hOk : hydrateRuntimeState limit (buildExecutionState h rs ctrl).1
      (buildExecutionState h rs ctrl).2 fresh now = .ok (k, r)) : Salvaged n h rs fresh k r := by
  have hGrown : h <+: (buildExecutionState h rs ctrl).1 := by
    dsimp only [buildExecutionState, captureControlSnapshot]
    exact (prefix_copies ..).trans (prefix_copies ..)
  have hRuntime : (buildExecutionState h rs ctrl).2.runtime.modelCalls =
      sliceLast 200 rs.modelCalls := by
    simp only [buildExecutionState, RuntimeState.toSnapshot]
  have hSlice : ∀ v ∈ sliceLast 200 rs.modelCalls, IsRecord h v := fun v hv =>
    hCalls v (mem_of_mem_sliceLast (n := 200) hv)
  have hHydrated := hydrate_ok (n := n)
    (fun v hv => isRecord_of_prefix hGrown (hSlice v (hRuntime ▸ hv))) hOk
  have hModelCalls := hHydrated.modelCalls
  rw [hRuntime, sliceLast_sliceLast] at hModelCalls
  have hTop := hydrateTopLevel_ok hOk
  obtain ⟨owner, hOwner, hOwner'⟩ := hTop.ownerId
  obtain ⟨org, hOrg, hOrg'⟩ := hTop.orgId
  obtain ⟨project, hProject, hProject'⟩ := hTop.projectId
  obtain ⟨reference, hReference, hReference'⟩ := hTop.referenceModelId
  obtain ⟨hOwner, hNonempty⟩ := truthy_eq_some hOwner
  constructor
  · rw [hOwner', sliceTo_of_length_le hNonempty (hLimits.ownerId owner hOwner), hOwner]
  · exact hHydrated.status
  · intro hMode
    have hTruthy : truthy (some rs.privacyMode) = some rs.privacyMode :=
      Option.filter_eq_some_iff.mpr ⟨rfl, by simpa using hMode⟩
    rw [hHydrated.privacyMode]
    exact congrArg (fun mode : Option String => mode.getD "standard") hTruthy
  · exact hHydrated.currentSpend
  · exact hHydrated.maximumCost
  · exact hHydrated.currentStep
  · exact (sameRecords_extends hSlice hGrown).trans hModelCalls
  · exact hHydrated.runId
  · rw [hOrg', sliceFrom_of_length_le (hLimits.orgId org (truthy_eq_some hOrg).1)]
  · rw [hProject', sliceFrom_of_length_le (hLimits.projectId project (truthy_eq_some hProject).1)]
  · rw [hReference',
      sliceFrom_of_length_le (hLimits.referenceModelId reference (truthy_eq_some hReference).1)]
  · intro name hName
    obtain ⟨a, hLookup, hArray⟩ := createRuntimeState_lists _ fresh _ now name hName
    rw [hHydrated.policy]
    exact ⟨a, hLookup, arrayAt_of_prefix hHydrated.grown hArray⟩

/-- A document that carries the organization of a state does not hydrate to its run: without an
organization the hydration throws, and with one it is lost. -/
theorem not_hydratesTo {rs : RuntimeState} (hOrg : doc.runtime.orgId = truthy rs.orgId) :
    ¬ HydratesTo limit h rs k doc fresh now := by
  rintro ⟨l, r, hOk, hSame⟩
  obtain ⟨id, hId, hLost⟩ := (hydrateTopLevel_ok hOk).orgId
  obtain ⟨hWas, hNonempty⟩ := truthy_eq_some (hOrg.symm.trans hId)
  exact sliceFrom_ne (by decide) hNonempty (hLost.symm.trans (hSame.orgId.trans hWas))

theorem reloadSnapshot_orgId {s s' : RuntimeState} (h₀ : reloadSnapshot h limit s = some (k, s')) :
    s'.orgId = s.orgId := by
  rw [reloadSnapshot] at h₀
  iterate 18 obtain ⟨_, -, h₀⟩ := Option.bind_eq_some_iff.mp h₀
  cases h₀
  rfl

theorem reloadDoc_orgId {doc' : ExecutionDoc} (h₀ : reloadDoc h limit doc = some (k, doc')) :
    doc'.runtime.orgId = doc.runtime.orgId := by
  obtain ⟨⟨k₁, runtime⟩, hRuntime, h₀⟩ := Option.bind_eq_some_iff.mp h₀
  iterate 2 obtain ⟨_, -, h₀⟩ := Option.bind_eq_some_iff.mp h₀
  cases h₀
  exact reloadSnapshot_orgId hRuntime

/-- No document hydrates to the run it was built from, neither as it is nor by way of JSON. -/
theorem hydration_never_faithful (limit : Nat) (h : Heap) (rs : RuntimeState) (ctrl : ControlRecord)
    (fresh : FreshIds) (now : ℚ) :
    ¬ HydratesTo limit h rs (buildExecutionState h rs ctrl).1 (buildExecutionState h rs ctrl).2
        fresh now ∧
      ∀ k doc, reloadDoc (buildExecutionState h rs ctrl).1 limit
        (buildExecutionState h rs ctrl).2 = some (k, doc) → ¬ HydratesTo limit h rs k doc fresh now :=
  ⟨not_hydratesTo rfl, fun _ _ hReload => not_hydratesTo (reloadDoc_orgId hReload)⟩

/-- A run of nobody's: its ids are null, and `null.slice` throws. -/
theorem hydration_throws_without_owner :
    ¬ ∀ (limit : Nat) (h : Heap) (rs : RuntimeState) (ctrl : ControlRecord) (fresh : FreshIds)
      (now : ℚ), WithinLimits rs →
        HydratesTo limit h rs (buildExecutionState h rs ctrl).1 (buildExecutionState h rs ctrl).2
            fresh now ∧
          ∃ k doc, reloadDoc (buildExecutionState h rs ctrl).1 limit
            (buildExecutionState h rs ctrl).2 = some (k, doc) ∧
              HydratesTo limit h rs k doc fresh now := by
  intro hFaithful
  let run := RuntimeState.new "run-1" "task-1" "fix the parser" 0
  have hLimits : WithinLimits run.2 := ⟨nofun, nofun, nofun, nofun⟩
  obtain ⟨⟨l, r, hOk, -⟩, -⟩ :=
    hFaithful 100 run.1 run.2 ControlRecord.new.2 ⟨"run-2", "task-2"⟩ 1000 hLimits
  have hThrown : (hydrateRuntimeState 100 (buildExecutionState run.1 run.2 ControlRecord.new.2).1
      (buildExecutionState run.1 run.2 ControlRecord.new.2).2 ⟨"run-2", "task-2"⟩ 1000) =
        .error .sliceOfNull := rfl
  rw [hThrown] at hOk
  cases hOk

end OrchestraAI.Checkpoint
