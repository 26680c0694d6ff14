import OrchestraAI.Checkpoint.Copies
import OrchestraAI.Checkpoint.Manager
import OrchestraAI.Library.LabelledSystem

/-! # Rewinding a run to a checkpoint

A run with its control record: the mutators and assignments of a running loop,
captures, and restores of any earlier capture. Next to the captured snapshots stands
what they were captured from, which only the theorems read.
-/

namespace OrchestraAI.Checkpoint

open ObjectHeap LabelledSystem OrchestraAI.State OrchestraAI.State.RuntimeState

structure Captured where
  snapshot : RuntimeState
  control : ControlSnapshot
  heapAtCapture : Heap
  numbersAtCapture : NumberArrays
  stateAtCapture : RuntimeState
  controlAtCapture : ControlRecord

structure ControlledRun where
  heap : Heap
  numbers : NumberArrays
  live : RuntimeState
  ctrl : ControlRecord
  captured : List Captured

inductive RunLabel
  | op (op : Op)
  /-- Assignments to fields of the live state, as `runtimeState.model.candidateModels = ..`. -/
  | assign (live : RuntimeState)
  /-- `item.metadata = value` and its like, on any record. -/
  | setProperty (record : Addr) (key : String) (value : Val)
  | control (op : ControlOp)
  | capture
  | restore (checkpoint : Nat) (now : ℚ)

instance (h : Heap) (v : Val) : Decidable (IsRecord h v) :=
  match v with
  | .ref a => decidable_of_iff ((recordAt h a).isSome) (by simp [IsRecord, Option.isSome_iff_exists])
  | .null | .bool _ | .num _ | .str _ => .isFalse fun ⟨_, _, hRef, _⟩ => nomatch hRef

instance (h : Heap) (a : Addr) : Decidable (RecordArray h a) :=
  match hGet : arrayAt h a with
  | none => .isFalse fun ⟨_, hSome, _⟩ => by rw [hGet] at hSome; cases hSome
  | some vs => decidable_of_iff (∀ v ∈ vs, IsRecord h v) (by simp [RecordArray, hGet])

instance (h : Heap) (s : RuntimeState) : Decidable (WellTyped h s) :=
  decidable_of_iff ((∀ a ∈ s.arrays, RecordArray h a) ∧ (∀ v ∈ s.listed, IsRecord h v) ∧
      IsRecord h s.metadata)
    ⟨fun ⟨hArrays, hListed, hMeta⟩ => ⟨hArrays, hListed, hMeta⟩,
      fun hs => ⟨hs.arrays, hs.listed, hs.metadata⟩⟩

namespace ControlledRun

/-- `captureCheckpoint`: the snapshots of the state and of the control record. -/
def capture (s : ControlledRun) : ControlledRun :=
  let control := captureControlSnapshot s.heap s.ctrl
  { s with
    heap := control.1
    ctrl := { s.ctrl with completedCheckpoints := s.ctrl.completedCheckpoints + 1 }
    captured := s.captured ++
      [⟨s.live.toSnapshot, control.2, s.heap, s.numbers, s.live, s.ctrl⟩] }

/-- `applySnapshotToRuntime` and `restoreControlSnapshot` of the captured snapshots. -/
def recover (s : ControlledRun) (d : Captured) (now : ℚ) : ControlledRun :=
  let runtime := applySnapshotToRuntime s.heap s.live d.snapshot now
  let control := restoreControlSnapshot runtime.1 s.ctrl d.control
  { s with heap := control.1, live := runtime.2, ctrl := control.2 }

def step (s : ControlledRun) : RunLabel → Option ControlledRun
  | .op op => (effect s.heap s.live op).map fun e => { s with heap := e.heap s.heap, live := e.live }
  | .assign live => if WellTyped s.heap live then some { s with live } else none
  | .setProperty record key value =>
    (setField s.heap (.ref record) key value).map fun w =>
      { s with heap := writeAll s.heap [w] }
  | .control op =>
    (controlEffect s.heap s.numbers s.ctrl op).map fun e =>
      { s with heap := s.heap ++ e.allocs, numbers := e.numbers, ctrl := e.ctrl }
  | .capture => some s.capture
  | .restore checkpoint now => s.captured[checkpoint]?.map fun d => s.recover d now

end ControlledRun

def Latency.arrays (l : Latency) : List Addr := [l.samples, l.modelSamples, l.toolSamples]

def Mentions (h : Heap) (vs : List Val) (callId : String) : Prop :=
  ∃ v ∈ vs, property h v "callId" = some (.str callId)

def InSpend (h : Heap) (s : RuntimeState) (callId : String) : Prop :=
  Mentions h s.budget.costHistory callId

def InModelCalls (h : Heap) (s : RuntimeState) (callId : String) : Prop :=
  Mentions h s.modelCalls callId

/-- The accounting and the conversation are those at the capture; lists are cut to the entries
that a snapshot keeps. -/
structure Rewound (n : Nat) (d : Captured) (r : ControlledRun) : Prop where
  spend : r.live.budget.currentSpend = d.stateAtCapture.budget.currentSpend
  costBreakdown : r.live.budget.costBreakdown = d.stateAtCapture.budget.costBreakdown
  elapsedLatency : r.live.budget.elapsedLatency = d.stateAtCapture.budget.elapsedLatency
  latency : r.ctrl.latency = d.controlAtCapture.latency
  samples : ∀ a ∈ d.controlAtCapture.latency.arrays, r.numbers[a]? = d.numbersAtCapture[a]?
  tokens : r.ctrl.tokens = d.controlAtCapture.tokens
  toolCalls : r.ctrl.toolCalls = d.controlAtCapture.toolCalls
  retries : r.ctrl.retries = d.controlAtCapture.retries
  stepRetries : r.live.execution.retries = d.stateAtCapture.execution.retries
  modelCalls : SameRecords n d.heapAtCapture (sliceLast 200 d.stateAtCapture.modelCalls)
    r.heap r.live.modelCalls
  costHistory : SameRecords n d.heapAtCapture (sliceLast 50 d.stateAtCapture.budget.costHistory)
    r.heap r.live.budget.costHistory
  currentModel : r.live.model.currentModel = d.stateAtCapture.model.currentModel
  currentProvider : r.live.model.currentProvider = d.stateAtCapture.model.currentProvider
  contextItems : SameArray n d.heapAtCapture d.stateAtCapture.context.contextItems
    r.heap r.live.context.contextItems
  currentTokens : r.live.context.currentTokens = d.stateAtCapture.context.currentTokens
  currentStep : r.live.execution.currentStep = d.stateAtCapture.execution.currentStep
  messages : SameRecords n d.heapAtCapture (sliceLast 300 d.controlAtCapture.messages)
    r.heap r.ctrl.messages
  history : SameRecords n d.heapAtCapture (sliceLast 300 d.controlAtCapture.history)
    r.heap r.ctrl.history
  triedModels : r.ctrl.triedModels = d.controlAtCapture.triedModels
  noSplitCharge : ∀ callId, ¬ InSpend d.heapAtCapture d.stateAtCapture callId →
    ¬ InModelCalls d.heapAtCapture d.stateAtCapture callId →
      ¬ InSpend r.heap r.live callId ∧ ¬ InModelCalls r.heap r.live callId

def Captured.heap (d : Captured) : Heap :=
  (captureControlSnapshot d.heapAtCapture d.controlAtCapture).1

def Captured.records (d : Captured) : List Val :=
  d.snapshot.budget.costHistory ++ d.snapshot.modelCalls ++ d.control.messages ++ d.control.history

def Captured.reads (n : Nat) (d : Captured) : List Addr :=
  footprint d.heap (n + 2) (.ref d.snapshot.context.contextItems) ++
    d.records.flatMap (footprint d.heap (n + 1))

def LeavesObjects (n : Nat) (s : ControlledRun) (writes : List (Addr × Obj)) : Prop :=
  ∀ w ∈ writes, ∀ d ∈ s.captured, w.1 ∈ d.reads n → s.heap[w.1]? = some w.2

/-- The step puts nothing new into the context items, charges, model calls and turns of a
capture, nor into its arrays of latency samples. -/
def LeavesCaptured (n : Nat) (s : ControlledRun) : RunLabel → Prop
  | .op op => ∀ e ∈ effect s.heap s.live op, LeavesObjects n s e.writes
  | .setProperty record key value =>
    ∀ w ∈ setField s.heap (.ref record) key value, LeavesObjects n s [w]
  | .control op => ∀ e ∈ controlEffect s.heap s.numbers s.ctrl op,
    ∀ d ∈ s.captured, ∀ a ∈ d.control.latency.arrays, e.numbers[a]? = s.numbers[a]?
  | .assign _ | .capture | .restore .. => True

instance (n : Nat) (s : ControlledRun) (writes : List (Addr × Obj)) :
    Decidable (LeavesObjects n s writes) :=
  inferInstanceAs (Decidable (∀ w ∈ writes, ∀ d ∈ s.captured, _ → _))

instance (n : Nat) (s : ControlledRun) (l : RunLabel) : Decidable (LeavesCaptured n s l) := by
  unfold LeavesCaptured
  split <;> infer_instance

structure Typed (h : Heap) (numbers : NumberArrays) (live : RuntimeState) (ctrl : ControlRecord) :
    Prop where
  live : WellTyped h live
  turns : ∀ v ∈ ctrl.messages ++ ctrl.history, IsRecord h v
  samples : ∀ a ∈ ctrl.latency.arrays, a < numbers.length

def ControlledRun.Start (s : ControlledRun) : Prop :=
  Typed s.heap s.numbers s.live s.ctrl ∧ s.captured = []

structure TypedControl (h : Heap) (numbers : NumberArrays) (ctrl : ControlRecord)
    (e : ControlEffect) : Prop where
  turns : ∀ v ∈ e.ctrl.messages ++ e.ctrl.history,
    v ∈ ctrl.messages ++ ctrl.history ∨ IsRecord (h ++ e.allocs) v
  arrays : e.ctrl.latency.arrays = ctrl.latency.arrays
  length : e.numbers.length = numbers.length

theorem length_pushSample {numbers numbers' : NumberArrays} {a : Addr} {ms : ℚ}
    (h : pushSample numbers a ms = some numbers') : numbers'.length = numbers.length := by
  obtain ⟨xs, -, rfl⟩ := Option.map_eq_some_iff.mp h
  exact List.length_set

theorem isRecord_fresh (h : Heap) {os : List Obj} {i : Nat} {fields : List (String × Val)}
    (hGet : os[i]? = some (.record fields)) : IsRecord (h ++ os) (.ref (h.length + i)) := by
  refine ⟨_, fields, rfl, recordAt_eq_some.mpr ?_⟩
  rw [List.getElem?_append_right (Nat.le_add_right ..), Nat.add_sub_cancel_left, hGet]

theorem pushMessage_turns (h : Heap) (ctrl : ControlRecord) (id role content : String) (now : ℚ) :
    ∀ v ∈ (ctrl.pushMessage h id role content now).2.messages ++
        (ctrl.pushMessage h id role content now).2.history,
      v ∈ ctrl.messages ++ ctrl.history ∨
        IsRecord (h ++ (ctrl.pushMessage h id role content now).1) v := by
  intro v hv
  simp only [ControlRecord.pushMessage, List.mem_append, List.mem_singleton] at hv ⊢
  rcases hv with (hv | rfl) | (hv | rfl)
  · exact .inl (.inl hv)
  · exact .inr (isRecord_fresh (i := 0) h rfl)
  · exact .inl (.inr hv)
  · exact .inr (isRecord_fresh (i := 1) h rfl)

theorem controlEffect_typed {h : Heap} {numbers : NumberArrays} {ctrl : ControlRecord}
    {op : ControlOp} {e : ControlEffect} (he : controlEffect h numbers ctrl op = some e) :
    TypedControl h numbers ctrl e := by
  cases op with
  | userMessage id content now | assistantMessage id content now =>
    cases he
    exact ⟨fun v hv => pushMessage_turns h _ id _ content now v hv, rfl, rfl⟩
  | toolTurn turn =>
    cases he
    refine ⟨fun v hv => ?_, rfl, rfl⟩
    simp only [List.mem_append, List.mem_singleton] at hv ⊢
    rcases hv with hv | hv | rfl
    · exact .inl (.inl hv)
    · exact .inl (.inr hv)
    · exact .inr (isRecord_fresh (i := 0) h rfl)
  | modelLatency latencyMs =>
    obtain ⟨numbers₁, hModel, he⟩ := Option.bind_eq_some_iff.mp he
    obtain ⟨numbers₂, hSamples, he⟩ := Option.bind_eq_some_iff.mp he
    obtain ⟨samples, -, he⟩ := Option.bind_eq_some_iff.mp he
    cases he
    exact ⟨fun v hv => .inl hv, rfl, (length_pushSample hSamples).trans (length_pushSample hModel)⟩
  | countTokens | stepLatency | totalLatency | toolCall | heuristicToolCall | retry | resetRetries
  | tryModel | firstStart =>
    cases he
    exact ⟨fun v hv => .inl hv, rfl, rfl⟩

variable {n : Nat} {s : ControlledRun} {d : Captured}

structure Held (n : Nat) (s : ControlledRun) (d : Captured) : Prop where
  snapshot : d.snapshot = d.stateAtCapture.toSnapshot
  control : d.control = (captureControlSnapshot d.heapAtCapture d.controlAtCapture).2
  typedAtCapture : Typed d.heapAtCapture d.numbersAtCapture d.stateAtCapture d.controlAtCapture
  typed : WellTyped s.heap d.stateAtCapture
  keeps : Keeps d.heap s.heap (d.reads n)
  samples : ∀ a ∈ d.control.latency.arrays, s.numbers[a]? = d.numbersAtCapture[a]?

structure RunInv (n : Nat) (s : ControlledRun) : Prop where
  typed : Typed s.heap s.numbers s.live s.ctrl
  held : ∀ d ∈ s.captured, Held n s d

theorem kindKept_extends {h k : Heap} (hPrefix : h <+: k) : KindKept h k := by
  obtain ⟨os, rfl⟩ := hPrefix
  exact kindKept_append h os

/-- A step that keeps the kinds, the objects a capture reads and its samples keeps the capture. -/
theorem Held.step {t : ControlledRun} (hHeld : Held n s d) (hKind : KindKept s.heap t.heap)
    (hKeeps : Keeps d.heap t.heap (d.reads n))
    (hSamples : ∀ a ∈ d.control.latency.arrays, t.numbers[a]? = s.numbers[a]?) : Held n t d where
  snapshot := hHeld.snapshot
  control := hHeld.control
  typedAtCapture := hHeld.typedAtCapture
  typed := hHeld.typed.mono hKind
  keeps := hKeeps
  samples a ha := (hSamples a ha).trans (hHeld.samples a ha)

theorem Held.grown {t : ControlledRun} (hHeld : Held n s d) (hPrefix : s.heap <+: t.heap)
    (hSamples : ∀ a ∈ d.control.latency.arrays, t.numbers[a]? = s.numbers[a]?) : Held n t d :=
  hHeld.step (kindKept_extends hPrefix)
    (hHeld.keeps.trans (keeps_extends hPrefix _)) hSamples

theorem captureControlSnapshot_copies {h : Heap} {ctrl : ControlRecord}
    (hTurns : ∀ v ∈ ctrl.messages ++ ctrl.history, IsRecord h v) :
    h <+: (captureControlSnapshot h ctrl).1 ∧
      SameRecords n h (sliceLast 300 ctrl.messages) (captureControlSnapshot h ctrl).1
        (captureControlSnapshot h ctrl).2.messages ∧
      SameRecords n h (sliceLast 300 ctrl.history) (captureControlSnapshot h ctrl).1
        (captureControlSnapshot h ctrl).2.history := by
  obtain ⟨hMessages, hHistory⟩ := List.forall_mem_append.mp hTurns
  obtain ⟨k₁, u₁, e₁, p₁, t₁⟩ := copies_same_extends (n := n) (List.prefix_refl h)
    fun v hv => hMessages v (mem_of_mem_sliceLast (n := 300) hv)
  obtain ⟨k₂, u₂, e₂, p₂, t₂⟩ := copies_same_extends (n := n) p₁
    fun v hv => hHistory v (mem_of_mem_sliceLast (n := 300) hv)
  simp only [captureControlSnapshot, e₁, e₂]
  exact ⟨p₁.trans p₂, t₁.later p₂, t₂⟩

theorem restoreControlSnapshot_copies {h k : Heap} {snap : ControlSnapshot} (hPrefix : h <+: k)
    (hTurns : ∀ v ∈ snap.messages ++ snap.history, IsRecord h v) (ctrl : ControlRecord) :
    k <+: (restoreControlSnapshot k ctrl snap).1 ∧
      SameRecords n h snap.messages (restoreControlSnapshot k ctrl snap).1
        (restoreControlSnapshot k ctrl snap).2.messages ∧
      SameRecords n h snap.history (restoreControlSnapshot k ctrl snap).1
        (restoreControlSnapshot k ctrl snap).2.history := by
  obtain ⟨hMessages, hHistory⟩ := List.forall_mem_append.mp hTurns
  obtain ⟨k₁, u₁, e₁, p₁, t₁⟩ := copies_same_extends (n := n) hPrefix hMessages
  obtain ⟨k₂, u₂, e₂, p₂, t₂⟩ := copies_same_extends (n := n) (hPrefix.trans p₁) hHistory
  simp only [restoreControlSnapshot, e₁, e₂]
  exact ⟨p₁.trans p₂, t₁.later p₂, t₂⟩

/-- The objects of a capture, in the heap of the capture and in the present one. -/
structure HeldObjects (n : Nat) (s : ControlledRun) (d : Captured) : Prop where
  contextItems : SameArray n d.heapAtCapture d.stateAtCapture.context.contextItems
    s.heap d.stateAtCapture.context.contextItems
  costHistory : SameRecords n d.heapAtCapture (sliceLast 50 d.stateAtCapture.budget.costHistory)
    s.heap (sliceLast 50 d.stateAtCapture.budget.costHistory)
  modelCalls : SameRecords n d.heapAtCapture (sliceLast 200 d.stateAtCapture.modelCalls)
    s.heap (sliceLast 200 d.stateAtCapture.modelCalls)
  messages : SameRecords n d.heapAtCapture (sliceLast 300 d.controlAtCapture.messages)
    s.heap d.control.messages
  history : SameRecords n d.heapAtCapture (sliceLast 300 d.controlAtCapture.history)
    s.heap d.control.history

theorem Held.later (hHeld : Held n s d) {vs ws : List Val}
    (hSame : SameRecords n d.heapAtCapture vs d.heap ws) (hSub : ws ⊆ d.records) :
    SameRecords n d.heapAtCapture vs s.heap ws := by
  refine hSame.trans (sameRecords_of_keeps hSame.isRecord (hHeld.keeps.mono fun a ha => ?_))
  obtain ⟨w, hw, ha⟩ := List.mem_flatMap.mp ha
  exact List.mem_append_right _ (List.mem_flatMap.mpr ⟨w, hSub hw, ha⟩)

theorem Held.objects (hHeld : Held n s d) : HeldObjects n s d := by
  obtain ⟨hPrefix, hMessages, hHistory⟩ :=
    captureControlSnapshot_copies (n := n) hHeld.typedAtCapture.turns
  rw [← hHeld.control] at hMessages hHistory
  obtain ⟨hArrays, hListed, -⟩ := hHeld.typedAtCapture.live
  simp only [listed, List.forall_mem_append] at hListed
  obtain ⟨⟨hCosts, -⟩, hCalls⟩ := hListed
  have hSnapshot := hHeld.snapshot
  constructor
  · have hItems : RecordArray d.heapAtCapture d.stateAtCapture.context.contextItems :=
      hArrays _ (by simp [RuntimeState.arrays])
    have hCaptured := sameArray_of_keeps (n := n) hItems (keeps_extends hPrefix _)
    refine hCaptured.trans (sameArray_of_keeps hCaptured.recordArray (hHeld.keeps.mono ?_))
    intro a ha
    refine List.mem_append_left _ ?_
    rwa [hSnapshot]
  · refine hHeld.later (sameRecords_extends (fun v hv => ?_) hPrefix) ?_
    · exact hCosts v (mem_of_mem_sliceLast hv)
    · intro v hv
      simp only [Captured.records, hSnapshot, RuntimeState.toSnapshot, List.mem_append]
      exact .inl (.inl (.inl hv))
  · refine hHeld.later (sameRecords_extends (fun v hv => ?_) hPrefix) ?_
    · exact hCalls v (mem_of_mem_sliceLast hv)
    · intro v hv
      simp only [Captured.records, hSnapshot, RuntimeState.toSnapshot, List.mem_append]
      exact .inl (.inl (.inr hv))
  · refine hHeld.later hMessages fun v hv => ?_
    simp only [Captured.records, List.mem_append]
    exact .inl (.inr hv)
  · refine hHeld.later hHistory fun v hv => ?_
    simp only [Captured.records, List.mem_append]
    exact .inr hv

theorem Held.recover_objects (hHeld : Held n s d) (now : ℚ) :
    s.heap <+: (s.recover d now).heap ∧ WellTyped (s.recover d now).heap (s.recover d now).live ∧
      SameArray n d.heapAtCapture d.stateAtCapture.context.contextItems
        (s.recover d now).heap (s.recover d now).live.context.contextItems ∧
      SameRecords n d.heapAtCapture (sliceLast 50 d.stateAtCapture.budget.costHistory)
        (s.recover d now).heap (s.recover d now).live.budget.costHistory ∧
      SameRecords n d.heapAtCapture (sliceLast 200 d.stateAtCapture.modelCalls)
        (s.recover d now).heap (s.recover d now).live.modelCalls ∧
      SameRecords n d.heapAtCapture (sliceLast 300 d.controlAtCapture.messages)
        (s.recover d now).heap (s.recover d now).ctrl.messages ∧
      SameRecords n d.heapAtCapture (sliceLast 300 d.controlAtCapture.history)
        (s.recover d now).heap (s.recover d now).ctrl.history := by
  have hRuntime := applySnapshotToRuntime_restores (n := n) hHeld.typed s.live now
  rw [← hHeld.snapshot] at hRuntime
  have hObjects := hHeld.objects
  have hTurns : ∀ v ∈ d.control.messages ++ d.control.history, IsRecord s.heap v :=
    List.forall_mem_append.mpr ⟨hObjects.messages.isRecord, hObjects.history.isRecord⟩
  obtain ⟨hGrown, hMessages, hHistory⟩ :=
    restoreControlSnapshot_copies (n := n) hRuntime.grown hTurns s.ctrl
  refine ⟨hRuntime.grown.trans hGrown, hRuntime.typed.mono (kindKept_extends hGrown), ?_, ?_, ?_,
    hObjects.messages.trans hMessages, hObjects.history.trans hHistory⟩
  · exact (hObjects.contextItems.trans hRuntime.contextItems).later hGrown
  · exact (hObjects.costHistory.trans hRuntime.costHistory).later hGrown
  · exact (hObjects.modelCalls.trans hRuntime.modelCalls).later hGrown

theorem mem_of_mentions_sliceLast {h : Heap} {m : Nat} {vs : List Val} {callId : String}
    (hMentions : Mentions h (sliceLast m vs) callId) : Mentions h vs callId := by
  obtain ⟨v, hv, hId⟩ := hMentions
  exact ⟨v, mem_of_mem_sliceLast hv, hId⟩

theorem recover_figures (s : ControlledRun) (d : Captured) (now : ℚ) :
    (s.recover d now).ctrl.latency = d.control.latency ∧
      (s.recover d now).ctrl.tokens = d.control.tokens ∧
      (s.recover d now).ctrl.toolCalls = d.control.toolCalls ∧
      (s.recover d now).ctrl.retries = d.control.retries ∧
      (s.recover d now).ctrl.triedModels = .ofArray d.control.triedModels := ⟨rfl, rfl, rfl, rfl, rfl⟩

theorem capture_figures (h : Heap) (ctrl : ControlRecord) :
    (captureControlSnapshot h ctrl).2.latency = ctrl.latency ∧
      (captureControlSnapshot h ctrl).2.tokens = ctrl.tokens ∧
      (captureControlSnapshot h ctrl).2.toolCalls = ctrl.toolCalls ∧
      (captureControlSnapshot h ctrl).2.retries = ctrl.retries ∧
      (captureControlSnapshot h ctrl).2.triedModels = ctrl.triedModels.keys :=
  ⟨rfl, rfl, rfl, rfl, rfl⟩

theorem Held.rewound (hHeld : Held n s d) (now : ℚ) : Rewound n d (s.recover d now) := by
  obtain ⟨-, -, hItems, hCosts, hCalls, hMessages, hHistory⟩ := hHeld.recover_objects now
  obtain ⟨hLatency, hTokens, hToolCalls, hRetries, hTried⟩ := recover_figures s d now
  obtain ⟨hLatency', hTokens', hToolCalls', hRetries', hTried'⟩ :=
    capture_figures d.heapAtCapture d.controlAtCapture
  rw [← hHeld.control] at hLatency' hTokens' hToolCalls' hRetries' hTried'
  have hSnapshot := hHeld.snapshot
  exact
    { spend := congrArg (fun s => s.budget.currentSpend) hSnapshot
      costBreakdown := congrArg (fun s => s.budget.costBreakdown) hSnapshot
      elapsedLatency := congrArg (fun s => s.budget.elapsedLatency) hSnapshot
      latency := hLatency.trans hLatency'
      samples := hLatency' ▸ hHeld.samples
      tokens := hTokens.trans hTokens'
      toolCalls := hToolCalls.trans hToolCalls'
      retries := hRetries.trans hRetries'
      stepRetries := congrArg (fun s => s.execution.retries) hSnapshot
      modelCalls := hCalls
      costHistory := hCosts
      currentModel := congrArg (fun s => s.model.currentModel) hSnapshot
      currentProvider := congrArg (fun s => s.model.currentProvider) hSnapshot
      contextItems := hItems
      currentTokens := congrArg (fun s => s.context.currentTokens) hSnapshot
      currentStep := congrArg (fun s => s.execution.currentStep) hSnapshot
      messages := hMessages
      history := hHistory
      triedModels := by rw [hTried, hTried', NameSet.ofArray_keys]
      noSplitCharge := fun callId hSpend hModel =>
        ⟨fun hIn => hSpend (mem_of_mentions_sliceLast (hCosts.exists_property hIn)),
          fun hIn => hModel (mem_of_mentions_sliceLast (hCalls.exists_property hIn))⟩ }

theorem Typed.mono {h k : Heap} {numbers numbers' : NumberArrays} {live : RuntimeState}
    {ctrl : ControlRecord} (hTyped : Typed h numbers live ctrl) (hKind : KindKept h k)
    (hLength : numbers'.length = numbers.length) : Typed k numbers' live ctrl where
  live := hTyped.live.mono hKind
  turns v hv := hKind.record v (hTyped.turns v hv)
  samples a ha := hLength ▸ hTyped.samples a ha

theorem Held.write (hHeld : Held n s d) (hMem : d ∈ s.captured) {writes : List (Addr × Obj)}
    (hLeaves : LeavesObjects n s writes) (allocs : List Obj) :
    Keeps d.heap (writeAll s.heap writes ++ allocs) (d.reads n) :=
  hHeld.keeps.write (fun w hw hReads => hLeaves w hw d hMem hReads) allocs

theorem RunInv.op (hInv : RunInv n s) {e : Effect} (he : TypedEffect s.heap s.live e)
    (hLeaves : LeavesObjects n s e.writes) :
    RunInv n { s with heap := e.heap s.heap, live := e.live } := by
  constructor
  · have hTyped := hInv.typed.mono he.kindKept rfl
    exact ⟨he.wellTyped hInv.typed.live, hTyped.turns, hTyped.samples⟩
  · intro d hd
    have hHeld := hInv.held d hd
    exact hHeld.step he.kindKept (hHeld.write hd hLeaves e.allocs) fun _ _ => rfl

theorem RunInv.assign (hInv : RunInv n s) {live : RuntimeState} (hLive : WellTyped s.heap live) :
    RunInv n { s with live } := by
  constructor
  · exact ⟨hLive, hInv.typed.turns, hInv.typed.samples⟩
  · intro d hd
    exact (hInv.held d hd).grown List.prefix_rfl fun _ _ => rfl

theorem RunInv.setProperty (hInv : RunInv n s) {record : Addr} {key : String} {value : Val}
    {w : Addr × Obj} (hw : setField s.heap (.ref record) key value = some w)
    (hLeaves : LeavesObjects n s [w]) : RunInv n { s with heap := writeAll s.heap [w] } := by
  have hKind : KindKept s.heap (writeAll s.heap [w]) := (setField_keepsKind hw).set
  constructor
  · exact hInv.typed.mono hKind rfl
  · intro d hd
    have hHeld := hInv.held d hd
    have hKeeps := hHeld.write hd hLeaves []
    rw [List.append_nil] at hKeeps
    exact hHeld.step hKind hKeeps fun _ _ => rfl

theorem RunInv.control (hInv : RunInv n s) {e : ControlEffect}
    (he : TypedControl s.heap s.numbers s.ctrl e)
    (hLeaves : ∀ d ∈ s.captured, ∀ a ∈ d.control.latency.arrays, e.numbers[a]? = s.numbers[a]?) :
    RunInv n { s with heap := s.heap ++ e.allocs, numbers := e.numbers, ctrl := e.ctrl } := by
  have hPrefix : s.heap <+: s.heap ++ e.allocs := List.prefix_append ..
  constructor
  · have hTyped := hInv.typed.mono (kindKept_extends hPrefix) he.length
    refine ⟨hTyped.live, fun v hv => ?_, fun a ha => hTyped.samples a (he.arrays ▸ ha)⟩
    rcases he.turns v hv with hOld | hNew
    · exact hTyped.turns v hOld
    · exact hNew
  · intro d hd
    exact (hInv.held d hd).grown hPrefix (hLeaves d hd)

theorem RunInv.capture (hInv : RunInv n s) : RunInv n s.capture := by
  obtain ⟨hPrefix, -, -⟩ := captureControlSnapshot_copies (n := n) hInv.typed.turns
  constructor
  · have hTyped := hInv.typed.mono (kindKept_extends hPrefix) (Eq.refl s.numbers.length)
    exact ⟨hTyped.live, hTyped.turns, hTyped.samples⟩
  · intro d hd
    rcases List.mem_append.mp hd with hd | hd
    · exact (hInv.held d hd).grown hPrefix fun _ _ => rfl
    · rw [List.mem_singleton] at hd
      subst hd
      exact
        { snapshot := rfl
          control := rfl
          typedAtCapture := hInv.typed
          typed := hInv.typed.live.mono (kindKept_extends hPrefix)
          keeps := fun _ _ _ ho => ho
          samples := fun _ _ => rfl }

theorem RunInv.restore (hInv : RunInv n s) (hd : d ∈ s.captured) (now : ℚ) :
    RunInv n (s.recover d now) := by
  have hHeld := hInv.held d hd
  obtain ⟨hPrefix, hLive, -, -, -, hMessages, hHistory⟩ := hHeld.recover_objects now
  constructor
  · refine ⟨hLive, List.forall_mem_append.mpr ⟨hMessages.isRecord, hHistory.isRecord⟩, ?_⟩
    intro a ha
    have ha : a ∈ d.control.latency.arrays := ha
    have hSample := hHeld.samples a ha
    rw [hHeld.control] at ha
    rw [List.getElem?_eq_getElem (hHeld.typedAtCapture.samples a ha)] at hSample
    exact (List.getElem?_eq_some_iff.mp hSample).1
  · intro d' hd'
    exact (hInv.held d' hd').grown hPrefix fun _ _ => rfl

theorem runInv_step (s : ControlledRun) (l : RunLabel) (t : ControlledRun) (hInv : RunInv n s)
    (hLeaves : LeavesCaptured n s l) (hs : s.step l = some t) : RunInv n t := by
  cases l with
  | op op =>
    obtain ⟨e, he, rfl⟩ := Option.map_eq_some_iff.mp hs
    exact hInv.op (effect_typed hInv.typed.live he) (hLeaves e he)
  | assign live =>
    simp only [ControlledRun.step] at hs
    split at hs
    · rename_i hLive
      cases hs
      exact hInv.assign hLive
    · cases hs
  | setProperty record key value =>
    obtain ⟨w, hw, rfl⟩ := Option.map_eq_some_iff.mp hs
    exact hInv.setProperty hw (hLeaves w hw)
  | control op =>
    obtain ⟨e, he, rfl⟩ := Option.map_eq_some_iff.mp hs
    exact hInv.control (controlEffect_typed he) (hLeaves e he)
  | capture =>
    cases hs
    exact hInv.capture
  | restore checkpoint now =>
    obtain ⟨d, hd, rfl⟩ := Option.map_eq_some_iff.mp hs
    exact hInv.restore (List.mem_of_getElem? hd) now

/-- Along every run whose steps leave the captures alone, each restore is exact. -/
theorem restore_rewinds (hReach : Reach ControlledRun.step (LeavesCaptured n)
    ControlledRun.Start s) : ∀ d ∈ s.captured, ∀ now, Rewound n d (s.recover d now) := by
  have hInv : RunInv n s := by
    refine hReach.invariant (I := RunInv n) ?_ runInv_step
    rintro s ⟨hTyped, hEmpty⟩
    refine ⟨hTyped, fun d hd => ?_⟩
    rw [hEmpty] at hd
    cases hd
  exact fun d hd now => (hInv.held d hd).rewound now

def newControlledRun : ControlledRun :=
  let run := RuntimeState.new "run-1" "task-1" "fix the parser" 0
  ⟨run.1, ControlRecord.new.1, run.2, ControlRecord.new.2, []⟩

theorem newControlledRun_start : newControlledRun.Start := by
  refine ⟨⟨new_wellTyped .., fun v hv => (by cases hv), ?_⟩, rfl⟩
  decide

/-- One step with a context item, a paid model call and a failover, a checkpoint, and half a step
with a second call before the run is restored. -/
def chargedTwice : List RunLabel :=
  [.control (.userMessage "m-1" "fix the parser" 500),
    .op (.newObject (.record [("id", .str "ctx-1"), ("tokens", .num 120)])), .op (.addItem 20),
    .op (.startStep [] 1000), .control (.tryModel "gpt-a"),
    .op (.newObject (.record [("callId", .str "call-1")])), .op (.addModelCall 22 1200),
    .op (.addCost "input_tokens" (1 / 100) [("callId", .str "call-1")] 1200),
    .control (.countTokens 900 80 0), .control (.modelLatency 210), .op (.completeStep .null 1500),
    .control (.assistantMessage "m-2" "found it" 1500), .capture,
    .op (.startStep [] 3000), .control .toolCall, .control .retry, .control (.tryModel "gpt-b"),
    .op (.newObject (.record [("callId", .str "call-2")])), .op (.addModelCall 31 3200),
    .op (.addCost "input_tokens" (3 / 100) [("callId", .str "call-2")] 3200), .restore 0 4000]

theorem restore_rewinds_chargedTwice :
    ∃ s d, run ControlledRun.step newControlledRun chargedTwice = some s ∧ d ∈ s.captured ∧
      Rewound 4 d (s.recover d 5000) := by
  have hRun : (run ControlledRun.step newControlledRun chargedTwice).map
      (fun s => s.captured.length) = some 1 := by decide +kernel
  obtain ⟨s, hs, hLength⟩ := Option.map_eq_some_iff.mp hRun
  obtain ⟨d, hd⟩ := List.length_eq_one_iff.mp hLength
  have hMem : d ∈ s.captured := hd ▸ List.mem_singleton_self d
  refine ⟨s, d, hs, hMem, restore_rewinds (n := 4) ?_ d hMem 5000⟩
  exact (Reach.start newControlledRun_start).run hs (by decide +kernel)

theorem SameArray.length_eq {h k : Heap} {a b : Addr} {vs ws : List Val}
    (hSame : SameArray n h a k b) (ha : arrayAt h a = some vs) (hb : arrayAt k b = some ws) :
    vs.length = ws.length := by
  obtain ⟨vs', ws', ha', hb', hRecords⟩ := hSame
  rw [ha, Option.some.injEq] at ha'
  rw [hb, Option.some.injEq] at hb'
  exact ha' ▸ hb' ▸ hRecords.length_eq

/-- A context item added after the checkpoint is in the list that the snapshot shares with the
live state: the restore keeps it, and takes its tokens away. -/
theorem restore_keeps_later_item :
    ¬ ∀ n s, Reach ControlledRun.step Anything ControlledRun.Start s →
      ∀ d ∈ s.captured, ∀ now, Rewound n d (s.recover d now) := by
  intro h
  have hRun : (run ControlledRun.step newControlledRun
      [.op (.startStep [] 1000), .capture,
        .op (.newObject (.record [("id", .str "ctx-1"), ("tokens", .num 120)])),
        .op (.addItem 19)]).map (fun s => s.captured.map fun d =>
          ((arrayAt d.heapAtCapture d.stateAtCapture.context.contextItems).map List.length,
            (arrayAt (s.recover d 2000).heap (s.recover d 2000).live.context.contextItems).map
              List.length)) = some [(some 0, some 1)] := by decide +kernel
  obtain ⟨s, hs, hEnd⟩ := Option.map_eq_some_iff.mp hRun
  obtain ⟨d, hd, hLengths⟩ := List.map_eq_singleton_iff.mp hEnd
  obtain ⟨hThen, hNow⟩ := Prod.mk.inj hLengths
  obtain ⟨vs, hvs, hNone⟩ := Option.map_eq_some_iff.mp hThen
  obtain ⟨ws, hws, hOne⟩ := Option.map_eq_some_iff.mp hNow
  have hRewound := h 0 s (reach_of_run newControlledRun_start hs) d
    (hd ▸ List.mem_singleton_self d) 2000
  have hSame := hRewound.contextItems.length_eq hvs hws
  omega

end OrchestraAI.Checkpoint
