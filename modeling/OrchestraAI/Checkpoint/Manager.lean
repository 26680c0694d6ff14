import Mathlib.Algebra.Ring.Rat
import OrchestraAI.Recovery.Plan
import OrchestraAI.State.Operations

/-! # Checkpoints

`checkpoint/checkpoint-manager.js` and `captureCheckpoint` of
`core/recovery-service.js` for the checkpoints of one run. SHA-256, the nesting
limit of `JSON.stringify` and the two limits of the manager are parameters. Next
to each stored checkpoint stand the heap and the state it was captured from,
which only the theorems read.

The control record of a run: `captureControlSnapshot` and `restoreControlSnapshot` of
`checkpoint/checkpoint-manager.js`, and what `core/orchestrator.js` does to the
fields they copy. Every control record that the code builds has all of these
fields, so the tests for missing ones hold by type. The arrays of latency samples
hold numbers; they are held by address in a list of their own.
-/

namespace OrchestraAI.Checkpoint

open ObjectHeap OrchestraAI.State
open OrchestraAI.Recovery (ValidationCode)

def CHECKPOINT_VERSION : Nat := 1
def CHECKPOINT_MAX_AGE_MS : Nat := 7 * 24 * 60 * 60 * 1000

structure Config (δ : Type) where
  sha256Hex : ObjectHeap.Text → δ
  nestingLimit : Nat
  maxCheckpoints : Nat

/-- A checkpoint whose snapshot has the type of a runtime state. -/
structure ExecutionCheckpoint (δ : Type) where
  checkpointId : String
  version : Nat
  runId : String
  type : String
  timestamp : Nat
  stateSnapshot : RuntimeState
  stepNumber : Nat
  idempotencyKey : String
  completed : Bool
  completedAt : Option Nat
  integrity : δ

structure Refusal where
  code : ValidationCode
  error : String
  deriving DecidableEq, Repr

variable {δ : Type}

/-- `JSON.stringify([runId, type, stepNumber, stateSnapshot])`. -/
def integrityText (c : Config δ) (h : Heap) (runId type : String) (stepNumber : Nat)
    (snapshot : RuntimeState) : Option ObjectHeap.Text :=
  arrayText [some [.str runId], some [.str type], some [.num stepNumber],
    snapshot.toJSON.text h c.nestingLimit]

/-- The digest of a snapshot; `JSON.stringify` throws where there is none. -/
def checkpointIntegrity (c : Config δ) (h : Heap) (runId type : String) (stepNumber : Nat)
    (snapshot : RuntimeState) : Option δ :=
  (integrityText c h runId type stepNumber snapshot).map c.sha256Hex

def validateCheckpoint [DecidableEq δ] (c : Config δ) (h : Heap) (checkpoint : Option (ExecutionCheckpoint δ))
    (runId : String) (now : Nat) (maxAgeMs : Nat := CHECKPOINT_MAX_AGE_MS) :
    Except Refusal (ExecutionCheckpoint δ) :=
  match checkpoint with
  | none => .error ⟨.missing, "Checkpoint not found"⟩
  | some cp =>
    if runId ≠ "" ∧ cp.runId ≠ runId then
      .error ⟨.runMismatch, "Checkpoint belongs to a different run"⟩
    else if cp.version < 1 ∨ cp.version > CHECKPOINT_VERSION then
      .error ⟨.badVersion, s!"Unsupported checkpoint version: {cp.version}"⟩
    else if cp.completed = false then
      .error ⟨.incomplete, "Checkpoint was never marked completed"⟩
    else if now - cp.timestamp > maxAgeMs then
      .error ⟨.stale, "Checkpoint is older than the automatic-resume horizon"⟩
    else if checkpointIntegrity c h cp.runId cp.type cp.stepNumber cp.stateSnapshot ≠
        some cp.integrity then
      .error ⟨.corrupt, "Checkpoint integrity check failed"⟩
    else .ok cp

/-- The fields that `{ ...v }` copies. -/
def spread (h : Heap) : Val → List (String × Val)
  | .ref a =>
    match h[a]? with
    | some (.record fields) => fields
    | some (.array elems) => elems.zipIdx.map fun e => (toString e.2, e.1)
    | none => []
  | .str s => s.toList.zipIdx.map fun e => (toString e.2, .str e.1.toString)
  | .null | .bool _ | .num _ => []

/-- `vs.map(v => ({ ...v }))`: the new records and the references to them. -/
def copies (h : Heap) (vs : List Val) : Heap × List Val :=
  (h ++ vs.map fun v => .record (spread h v),
    (List.range vs.length).map fun i => .ref (h.length + i))

def newArray (h : Heap) (vs : List Val) : Heap × Addr := (h ++ [.array vs], h.length)

/-- `xs.map(x => ({ ...x }))` as the value of a field, if `xs` is an array. -/
def copyArray (h : Heap) (source live : Addr) : Heap × Addr :=
  match arrayAt h source with
  | none => (h, live)
  | some vs => newArray (copies h vs).1 (copies h vs).2

/-- `xs.slice(-50)` as the value of a field, if `xs` is an array. -/
def sliceArray (h : Heap) (source live : Addr) : Heap × Addr :=
  match arrayAt h source with
  | none => (h, live)
  | some vs => newArray h (sliceLast 50 vs)

/-- `{ ...metadata }` as the value of a field, if `metadata` is an object. -/
def copyRecord (h : Heap) (source live : Val) : Heap × Val :=
  match source with
  | .ref _ => (h ++ [.record (spread h source)], .ref h.length)
  | _ => (h, live)

structure Copied where
  candidateModels : Addr
  contextItems : Addr
  compressedItems : Addr
  discardedItems : Addr
  workingMemoryRefs : Addr
  persistentMemoryRefs : Addr
  costHistory : List Val
  stepHistory : List Val
  modelCalls : List Val
  metadata : Val

/-- The assignments of `applySnapshotToRuntime`; its tests for finite numbers and for non-empty
words hold by type. -/
def restoreFields (live snapshot : RuntimeState) (copied : Copied) (now : ℚ) : RuntimeState :=
  { live with
    status := snapshot.status
    task :=
      { live.task with
        status := snapshot.task.status
        progress := snapshot.task.progress
        successProbability := snapshot.task.successProbability }
    model :=
      { live.model with
        currentModel := snapshot.model.currentModel
        currentProvider := snapshot.model.currentProvider
        candidateModels := copied.candidateModels
        modelContextLimit := snapshot.model.modelContextLimit
        modelHealth := snapshot.model.modelHealth
        modelLatency := snapshot.model.modelLatency
        modelReliability := snapshot.model.modelReliability
        modelSelectionReason := snapshot.model.modelSelectionReason
        modelSwitchCount := snapshot.model.modelSwitchCount
        modelStickinessScore := snapshot.model.modelStickinessScore }
    context :=
      { live.context with
        currentTokens := snapshot.context.currentTokens
        contextItems := copied.contextItems
        compressedItems := copied.compressedItems
        discardedItems := copied.discardedItems
        contextVersion := snapshot.context.contextVersion
        cacheState := snapshot.context.cacheState }
    memory :=
      { live.memory with
        workingMemoryRefs := copied.workingMemoryRefs
        persistentMemoryRefs := copied.persistentMemoryRefs }
    budget :=
      { live.budget with
        currentSpend := snapshot.budget.currentSpend
        maximumCost := snapshot.budget.maximumCost
        elapsedLatency := snapshot.budget.elapsedLatency
        maximumLatency := snapshot.budget.maximumLatency
        costBreakdown := snapshot.budget.costBreakdown
        costHistory := copied.costHistory }
    execution :=
      { live.execution with
        currentStep := snapshot.execution.currentStep
        totalSteps := snapshot.execution.totalSteps
        stepHistory := copied.stepHistory
        retries := snapshot.execution.retries
        failures := snapshot.execution.failures
        executionStatus := snapshot.execution.executionStatus }
    modelCalls := copied.modelCalls
    metadata := copied.metadata
    updatedAt := now }

def applySnapshotToRuntime (h : Heap) (live snapshot : RuntimeState) (now : ℚ) :
    Heap × RuntimeState :=
  let candidateModels := copyArray h snapshot.model.candidateModels live.model.candidateModels
  let contextItems :=
    copyArray candidateModels.1 snapshot.context.contextItems live.context.contextItems
  let compressedItems :=
    copyArray contextItems.1 snapshot.context.compressedItems live.context.compressedItems
  let discardedItems :=
    sliceArray compressedItems.1 snapshot.context.discardedItems live.context.discardedItems
  let workingMemoryRefs :=
    copyArray discardedItems.1 snapshot.memory.workingMemoryRefs live.memory.workingMemoryRefs
  let persistentMemoryRefs :=
    copyArray workingMemoryRefs.1 snapshot.memory.persistentMemoryRefs
      live.memory.persistentMemoryRefs
  let costHistory := copies persistentMemoryRefs.1 (sliceLast 50 snapshot.budget.costHistory)
  let stepHistory := copies costHistory.1 snapshot.execution.stepHistory
  let modelCalls := copies stepHistory.1 (sliceLast 200 snapshot.modelCalls)
  let metadata := copyRecord modelCalls.1 snapshot.metadata live.metadata
  (metadata.1, restoreFields live snapshot
    ⟨candidateModels.2, contextItems.2, compressedItems.2, discardedItems.2, workingMemoryRefs.2,
      persistentMemoryRefs.2, costHistory.2, stepHistory.2, modelCalls.2, metadata.2⟩ now)

structure Stored (δ : Type) where
  checkpoint : ExecutionCheckpoint δ
  heapAtCapture : Heap
  stateAtCapture : RuntimeState

structure System (δ : Type) where
  heap : Heap
  live : RuntimeState
  checkpoints : List (Stored δ)
  idempotencyKeys : List String

inductive Label
  | op (op : Op)
  | captureCheckpoint (checkpointId type : String) (stepNumber : Option Nat) (now : Nat)

/-- `new ExecutionCheckpoint(..)` followed by `markCompleted`. -/
def completedCheckpoint (live : RuntimeState) (checkpointId type : String) (stepNumber now : Nat)
    (integrity : δ) : ExecutionCheckpoint δ :=
  { checkpointId, version := CHECKPOINT_VERSION, runId := live.runId, type, timestamp := now
    stateSnapshot := live.toSnapshot, stepNumber
    idempotencyKey := s!"{live.runId}:{type}:{stepNumber}:{now}", completed := true
    completedAt := some now, integrity }

/-- `createCheckpoint` on the list of the run: the oldest checkpoint makes room. -/
def System.store (c : Config δ) (s : System δ) (stored : Stored δ) : System δ :=
  let checkpoints := s.checkpoints ++ [stored]
  let keys := s.idempotencyKeys ++ [stored.checkpoint.idempotencyKey]
  if checkpoints.length > c.maxCheckpoints then
    { s with
      checkpoints := checkpoints.tail
      idempotencyKeys :=
        keys.filter fun k => (checkpoints.head?.map (·.checkpoint.idempotencyKey)) ≠ some k }
  else { s with checkpoints, idempotencyKeys := keys }

/-- A snapshot without a text makes the capture fail; a known key is not stored again. -/
def System.captureCheckpoint (c : Config δ) (s : System δ) (checkpointId type : String)
    (extraStep : Option Nat) (now : Nat) : System δ :=
  let stepNumber := extraStep.getD s.live.execution.currentStep
  match checkpointIntegrity c s.heap s.live.runId type stepNumber s.live.toSnapshot with
  | none => s
  | some integrity =>
    let checkpoint := completedCheckpoint s.live checkpointId type stepNumber now integrity
    if checkpoint.idempotencyKey ∈ s.idempotencyKeys then s
    else s.store c ⟨checkpoint, s.heap, s.live⟩

def System.step (c : Config δ) (s : System δ) : Label → Option (System δ)
  | .op op => (effect s.heap s.live op).map fun e => { s with heap := e.heap s.heap, live := e.live }
  | .captureCheckpoint checkpointId type stepNumber now =>
    some (s.captureCheckpoint c checkpointId type stepNumber now)

open ObjectHeap OrchestraAI.State

/-- `new Set(names)` and its `add` keep the order of insertion. -/
abbrev NameSet := OrderedMap String Unit

def NameSet.add (s : NameSet) (name : String) : NameSet := s.set name ()

def NameSet.ofArray (names : List String) : NameSet := names.foldl NameSet.add .empty

structure Tokens where
  input : ℚ
  output : ℚ
  cached : ℚ
  reasoning : ℚ
  deriving DecidableEq

abbrev NumberArrays := List (List ℚ)

structure Latency where
  currentStepMs : ℚ
  avgStepMs : ℚ
  modelMs : ℚ
  toolMs : ℚ
  totalMs : ℚ
  samples : Addr
  modelSamples : Addr
  toolSamples : Addr

structure ControlRecord where
  messages : List Val
  history : List Val
  tokens : Tokens
  toolCalls : Nat
  retries : Nat
  triedModels : NameSet
  completedCheckpoints : Nat
  heuristicToolUsed : Bool
  lastUserMessage : String
  latency : Latency

/-- The control record that `createRun` builds, and its three sample arrays. -/
def ControlRecord.new : NumberArrays × ControlRecord :=
  ([[], [], []],
    { messages := []
      history := []
      tokens := ⟨0, 0, 0, 0⟩
      toolCalls := 0
      retries := 0
      triedModels := .empty
      completedCheckpoints := 0
      heuristicToolUsed := false
      lastUserMessage := ""
      latency := ⟨0, 0, 0, 0, 0, 0, 1, 2⟩ })

structure ControlSnapshot where
  messages : List Val
  history : List Val
  tokens : Tokens
  toolCalls : Nat
  retries : Nat
  triedModels : List String
  completedCheckpoints : Nat
  heuristicToolUsed : Bool
  lastUserMessage : String
  latency : Latency

/-- The spread of `ctrl.latency` copies its figures and shares its arrays. -/
def captureControlSnapshot (h : Heap) (ctrl : ControlRecord) : Heap × ControlSnapshot :=
  let messages := copies h (sliceLast 300 ctrl.messages)
  let history := copies messages.1 (sliceLast 300 ctrl.history)
  (history.1,
    { messages := messages.2
      history := history.2
      tokens := ctrl.tokens
      toolCalls := ctrl.toolCalls
      retries := ctrl.retries
      triedModels := ctrl.triedModels.keys
      completedCheckpoints := ctrl.completedCheckpoints
      heuristicToolUsed := ctrl.heuristicToolUsed
      lastUserMessage := (ctrl.lastUserMessage.take 4000).toString
      latency := ctrl.latency })

/-- In `{ ...ctrl.latency, ...snap.latency }` the captured fields win, and they are all there. -/
def restoreControlSnapshot (h : Heap) (ctrl : ControlRecord) (snap : ControlSnapshot) :
    Heap × ControlRecord :=
  let messages := copies h snap.messages
  let history := copies messages.1 snap.history
  (history.1,
    { ctrl with
      messages := messages.2
      history := history.2
      tokens := snap.tokens
      toolCalls := snap.toolCalls
      retries := snap.retries
      triedModels := .ofArray snap.triedModels
      completedCheckpoints := snap.completedCheckpoints
      heuristicToolUsed := snap.heuristicToolUsed
      lastUserMessage := snap.lastUserMessage
      latency := snap.latency })

inductive ControlOp
  /-- `startRun` with the text of the user. -/
  | userMessage (id content : String) (now : ℚ)
  | assistantMessage (id content : String) (now : ℚ)
  /-- `ctrl.history.push(turn)` of a tool turn. -/
  | toolTurn (turn : List (String × Val))
  | countTokens (input output cached : ℚ)
  | modelLatency (latencyMs : ℚ)
  | stepLatency (stepMs : ℚ)
  | totalLatency (totalMs : ℚ)
  | toolCall
  | heuristicToolCall
  | retry
  | resetRetries
  | tryModel (failedModel : String)
  /-- `triedModels = new Set(); retries = 0`. -/
  | firstStart

structure ControlEffect where
  allocs : List Obj
  numbers : NumberArrays
  ctrl : ControlRecord

/-- `samples.push(ms)`, and `shift()` beyond forty. -/
def pushSample (numbers : NumberArrays) (a : Addr) (ms : ℚ) : Option NumberArrays :=
  numbers[a]?.map fun xs =>
    numbers.set a (if (xs ++ [ms]).length > 40 then (xs ++ [ms]).tail else xs ++ [ms])

def ControlRecord.modelLatency (numbers : NumberArrays) (ctrl : ControlRecord) (latencyMs : ℚ) :
    Option ControlEffect := do
  let numbers ← pushSample numbers ctrl.latency.modelSamples latencyMs
  let numbers ← pushSample numbers ctrl.latency.samples latencyMs
  let samples ← numbers[ctrl.latency.samples]?
  return ⟨[], numbers,
    { ctrl with
      latency :=
        { ctrl.latency with
          modelMs := latencyMs
          avgStepMs := samples.sum / samples.length } }⟩

def ControlRecord.pushMessage (h : Heap) (ctrl : ControlRecord) (id role content : String)
    (now : ℚ) : List Obj × ControlRecord :=
  ([.record [("id", .str id), ("role", .str role), ("content", .str content), ("ts", .num now)],
      .record [("role", .str role), ("content", .str content)]],
    { ctrl with
      messages := ctrl.messages ++ [.ref h.length]
      history := ctrl.history ++ [.ref (h.length + 1)] })

/-- What an operation does; `none` where the sample arrays are missing. -/
def controlEffect (h : Heap) (numbers : NumberArrays) (ctrl : ControlRecord) :
    ControlOp → Option ControlEffect
  | .userMessage id content now =>
    let pushed := { ctrl with lastUserMessage := content }.pushMessage h id "user" content now
    some ⟨pushed.1, numbers, pushed.2⟩
  | .assistantMessage id content now =>
    let pushed := ctrl.pushMessage h id "assistant" content now
    some ⟨pushed.1, numbers, pushed.2⟩
  | .toolTurn turn =>
    some ⟨[.record turn], numbers, { ctrl with history := ctrl.history ++ [.ref h.length] }⟩
  | .countTokens input output cached =>
    some ⟨[], numbers,
      { ctrl with
        tokens :=
          { ctrl.tokens with
            input := ctrl.tokens.input + input
            output := ctrl.tokens.output + output
            cached := ctrl.tokens.cached + cached } }⟩
  | .modelLatency latencyMs => ctrl.modelLatency numbers latencyMs
  | .stepLatency stepMs =>
    some ⟨[], numbers, { ctrl with latency := { ctrl.latency with currentStepMs := stepMs } }⟩
  | .totalLatency totalMs =>
    some ⟨[], numbers, { ctrl with latency := { ctrl.latency with totalMs } }⟩
  | .toolCall => some ⟨[], numbers, { ctrl with toolCalls := ctrl.toolCalls + 1 }⟩
  | .heuristicToolCall =>
    some ⟨[], numbers, { ctrl with heuristicToolUsed := true, toolCalls := ctrl.toolCalls + 1 }⟩
  | .retry => some ⟨[], numbers, { ctrl with retries := ctrl.retries + 1 }⟩
  | .resetRetries => some ⟨[], numbers, { ctrl with retries := 0 }⟩
  | .tryModel failedModel =>
    some ⟨[], numbers, { ctrl with triedModels := ctrl.triedModels.add failedModel }⟩
  | .firstStart => some ⟨[], numbers, { ctrl with triedModels := .empty, retries := 0 }⟩

theorem entries_foldl_add (names : List String) (s : NameSet) (hNames : (s.keys ++ names).Nodup) :
    (names.foldl NameSet.add s).entries = s.entries ++ names.map fun n => (n, ()) := by
  induction names generalizing s with
  | nil => simp
  | cons n ns ih =>
    have hn : n ∉ s.keys := fun h => (List.nodup_append.mp hNames).2.2 n h n List.mem_cons_self rfl
    have hEntries : (s.add n).entries = s.entries ++ [(n, ())] := OrderedMap.write_new () hn
    have hKeys : (s.add n).keys = s.keys ++ [n] := OrderedMap.keys_set_new () hn
    rw [List.foldl_cons, ih _ (by rw [hKeys]; simpa using hNames), hEntries]
    simp

theorem NameSet.ofArray_keys (s : NameSet) : NameSet.ofArray s.keys = s := by
  have hUnits : (s.keys.map fun n => (n, ())) = s.entries := by
    rw [OrderedMap.keys, List.map_map]
    exact List.map_id _
  have hEntries : (NameSet.ofArray s.keys).entries = s.entries := by
    rw [NameSet.ofArray, entries_foldl_add s.keys .empty (by simpa using s.keys_nodup), hUnits]
    rfl
  exact OrderedMap.ext_entries hEntries

end OrchestraAI.Checkpoint
