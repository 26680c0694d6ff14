import OrchestraAI.Checkpoint.Manager
import OrchestraAI.State.WellTyped

/-! # What a restore writes

`applySnapshotToRuntime` builds copies beside what is there. Restored onto a live state that has
the other fields as they were, the copies make up the state of the snapshot, unless a list of it was
cut.
-/

namespace OrchestraAI.Checkpoint

open ObjectHeap OrchestraAI.State OrchestraAI.State.RuntimeState

theorem length_sliceLast_le {α : Type} (n : Nat) (xs : List α) : (sliceLast n xs).length ≤ n := by
  simp only [sliceLast, List.length_drop]
  omega

theorem sliceLast_of_length_le {α : Type} {n : Nat} {xs : List α} (h : xs.length ≤ n) :
    sliceLast n xs = xs := by
  rw [sliceLast, Nat.sub_eq_zero_of_le h, List.drop_zero]

theorem sliceLast_sliceLast {α : Type} (n : Nat) (xs : List α) :
    sliceLast n (sliceLast n xs) = sliceLast n xs :=
  sliceLast_of_length_le (length_sliceLast_le n xs)

theorem mem_of_mem_sliceLast {α : Type} {n : Nat} {xs : List α} {x : α}
    (h : x ∈ sliceLast n xs) : x ∈ xs := List.mem_of_mem_drop h

theorem isRecord_of_prefix {h k : Heap} (hPrefix : h <+: k) {v : Val} (hv : IsRecord h v) :
    IsRecord k v := by
  obtain ⟨os, rfl⟩ := hPrefix
  exact (kindKept_append h os).record v hv

theorem arrayAt_of_prefix {h k : Heap} (hPrefix : h <+: k) {a : Addr} {vs : List Val}
    (hGet : arrayAt h a = some vs) : arrayAt k a = some vs := by
  obtain ⟨os, rfl⟩ := hPrefix
  rw [arrayAt_eq_some] at hGet ⊢
  rw [List.getElem?_append_left (List.getElem?_eq_some_iff.mp hGet).1, hGet]

theorem text_copy {h k : Heap} {n : Nat} {v : Val} (hPrefix : h <+: k) (hv : IsRecord h v)
    (hText : (text h n v).isSome) {a : Addr} (hGet : k[a]? = some (.record (spread h v))) :
    text k n (.ref a) = text h n v := by
  obtain ⟨b, fields, rfl, hFields⟩ := hv
  rw [recordAt_eq_some] at hFields
  have hSpread : spread h (.ref b) = fields := by simp only [spread, hFields]
  cases n with
  | zero => rfl
  | succ n =>
    obtain ⟨t, ht⟩ := Option.isSome_iff_exists.mp hText
    rw [hSpread] at hGet
    simp only [text, hGet, hFields] at ht ⊢
    refine congrArg recordText (List.map_congr_left fun f hf => congrArg (Prod.mk f.1) ?_)
    exact text_of_extends hPrefix (text_of_mem_recordText ht _
      (List.mem_map_of_mem (f := fun f => (f.1, text h n f.2)) hf))

theorem prefix_copies (h : Heap) (vs : List Val) : h <+: (copies h vs).1 := List.prefix_append ..

theorem length_copies (h : Heap) (vs : List Val) : (copies h vs).2.length = vs.length := by
  simp [copies]

theorem text_copies {h : Heap} {n : Nat} {vs : List Val} (hVals : ∀ v ∈ vs, IsRecord h v)
    (hText : ∀ v ∈ vs, (text h n v).isSome) :
    (copies h vs).2.map (text (copies h vs).1 n) = vs.map (text h n) := by
  refine List.ext_getElem (by simp [copies]) fun i hi hj => ?_
  have hlt : i < vs.length := by simpa using hj
  have hMem : vs[i] ∈ vs := List.getElem_mem hlt
  simp only [copies, List.getElem_map, List.getElem_range]
  refine text_copy (List.prefix_append ..) (hVals _ hMem) (hText _ hMem) ?_
  rw [List.getElem?_append_right (Nat.le_add_right ..), Nat.add_sub_cancel_left,
    List.getElem?_map, List.getElem?_eq_getElem hlt]
  rfl

theorem texts_of_extends {h k : Heap} {n : Nat} {vs : List Val} (hPrefix : h <+: k)
    (hText : ∀ v ∈ vs, (text h n v).isSome) : vs.map (text k n) = vs.map (text h n) :=
  List.map_congr_left fun v hv => text_of_extends hPrefix (hText v hv)

variable {h k : Heap} {n : Nat}

/-- Copying a list beside a heap that extends `h` keeps the texts the list has in `h`. -/
theorem copies_spec {vs : List Val} (hPrefix : h <+: k) (hVals : ∀ v ∈ vs, IsRecord h v)
    (hText : ∀ v ∈ vs, (text h n v).isSome) :
    ∃ k' us, copies k vs = (k', us) ∧ k <+: k' ∧ us.length = vs.length ∧
      us.map (text k' n) = vs.map (text h n) := by
  have hSame := texts_of_extends hPrefix hText
  refine ⟨(copies k vs).1, (copies k vs).2, rfl, prefix_copies k vs, length_copies k vs, ?_⟩
  rw [text_copies (fun v hv => isRecord_of_prefix hPrefix (hVals v hv)), hSame]
  intro v hv
  rw [text_of_extends hPrefix (hText v hv)]
  exact hText v hv

theorem text_array {a : Addr} {vs : List Val} (hGet : arrayAt h a = some vs) (n : Nat) :
    text h (n + 1) (.ref a) = arrayText (vs.map (text h n)) := by
  simp only [text, arrayAt_eq_some.mp hGet]

theorem copyArray_spec {source : Addr} (live : Addr) (hPrefix : h <+: k)
    (hArray : RecordArray h source) (hText : (text h n (.ref source)).isSome) :
    ∃ k' a, copyArray k source live = (k', a) ∧ k <+: k' ∧
      text k' n (.ref a) = text h n (.ref source) := by
  obtain ⟨vs, hGet, hVals⟩ := hArray
  simp only [copyArray, arrayAt_of_prefix hPrefix hGet, newArray]
  refine ⟨_, _, rfl, (prefix_copies k vs).trans (List.prefix_append ..), ?_⟩
  cases n with
  | zero => rfl
  | succ n =>
    obtain ⟨t, ht⟩ := Option.isSome_iff_exists.mp hText
    rw [text_array hGet] at ht ⊢
    have hElems : ∀ v ∈ vs, (text h n v).isSome := fun v hv =>
      text_of_mem_arrayText ht _ (List.mem_map_of_mem hv)
    obtain ⟨k', us, hEq, -, -, hCopies⟩ := copies_spec hPrefix hVals hElems
    rw [text_array (arrayAt_eq_some.mpr List.getElem?_concat_length), ← hCopies, hEq]
    refine congrArg arrayText (texts_of_extends (List.prefix_append ..) fun v hv => ?_)
    have hMem : text k' n v ∈ vs.map (text h n) := hCopies ▸ List.mem_map_of_mem hv
    obtain ⟨u, hu, heq⟩ := List.mem_map.mp hMem
    exact heq ▸ hElems u hu

theorem sliceArray_spec {source : Addr} {vs : List Val} (live : Addr) (hPrefix : h <+: k)
    (hGet : arrayAt h source = some vs) :
    ∃ k' a, sliceArray k source live = (k', a) ∧ k <+: k' ∧
      arrayAt k' a = some (sliceLast 50 vs) := by
  simp only [sliceArray, arrayAt_of_prefix hPrefix hGet, newArray]
  exact ⟨_, _, rfl, List.prefix_append .., arrayAt_eq_some.mpr List.getElem?_concat_length⟩

theorem copyRecord_spec {source : Val} (live : Val) (hPrefix : h <+: k)
    (hRecord : IsRecord h source) (hText : (text h n source).isSome) :
    ∃ k' v, copyRecord k source live = (k', v) ∧ k <+: k' ∧ text k' n v = text h n source := by
  have hSame := text_of_extends hPrefix hText
  obtain ⟨a, fields, rfl, hFields⟩ := hRecord
  have hRecord : IsRecord k (.ref a) := isRecord_of_prefix hPrefix ⟨a, fields, rfl, hFields⟩
  refine ⟨_, _, rfl, List.prefix_append .., ?_⟩
  rw [← hSame]
  exact text_copy (List.prefix_append ..) hRecord (hSame ▸ hText) List.getElem?_concat_length

/-- What holds of every value of the document holds of the shared ones. -/
structure SharedAll (P : Val → Prop) (s : RuntimeState) : Prop where
  arrays : ∀ a ∈ s.arrays, P (.ref a)
  costHistory : ∀ v ∈ s.budget.costHistory, P v
  stepHistory : ∀ v ∈ s.execution.stepHistory, P v
  modelCalls : ∀ v ∈ s.modelCalls, P v
  metadata : P s.metadata

theorem sharedAll {P : Val → Prop} {s : RuntimeState} (h : ∀ v ∈ s.toJSON.values, P v) :
    SharedAll P s := by
  have hSection (name : String) (sec : Section) (hMem : (name, sec) ∈ s.toJSON) :
      ∀ v ∈ sec.values, P v := fun v hv => h v (List.mem_flatMap.mpr ⟨(name, sec), hMem, hv⟩)
  have hModel := hSection "model" s.model.toJSON (by simp [RuntimeState.toJSON])
  have hContext := hSection "context" s.context.toJSON (by simp [RuntimeState.toJSON])
  have hMemory := hSection "memory" s.memory.toJSON (by simp [RuntimeState.toJSON])
  have hBudget := hSection "budget" s.budget.toJSON (by simp [RuntimeState.toJSON])
  have hExecution := hSection "execution" s.execution.toJSON (by simp [RuntimeState.toJSON])
  constructor
  · intro a ha
    simp only [RuntimeState.arrays, List.mem_cons, List.not_mem_nil, or_false] at ha
    rcases ha with rfl | rfl | rfl | rfl | rfl | rfl
    · exact hModel _ (by simp [ModelState.toJSON, Section.values, Part.values])
    · exact hContext _ (by simp [ContextState.toJSON, Section.values, Part.values])
    · exact hContext _ (by simp [ContextState.toJSON, Section.values, Part.values])
    · exact hContext _ (by simp [ContextState.toJSON, Section.values, Part.values])
    · exact hMemory _ (by simp [MemoryState.toJSON, Section.values, Part.values])
    · exact hMemory _ (by simp [MemoryState.toJSON, Section.values, Part.values])
  · intro v hv
    exact hBudget v (by simp [BudgetState.toJSON, Section.values, Part.values, hv])
  · intro v hv
    exact hExecution v (by simp [ExecutionState.toJSON, Section.values, Part.values, hv])
  · exact hSection "modelCalls" (.part (.list s.modelCalls)) (by simp [RuntimeState.toJSON])
  · exact hSection "metadata" (.part (.val s.metadata)) (by simp [RuntimeState.toJSON]) _
      (by simp [Section.values, Part.values])

theorem text_later {k' : Heap} {v w : Val} (hPrefix : k <+: k') (hEq : text k n v = text h n w)
    (hText : (text h n w).isSome) : text k' n v = text h n w :=
  (text_of_extends hPrefix (hEq ▸ hText)).trans hEq

theorem texts_later {k' : Heap} {vs ws : List Val} (hPrefix : k <+: k')
    (hEq : vs.map (text k n) = ws.map (text h n)) (hText : ∀ w ∈ ws, (text h n w).isSome) :
    vs.map (text k' n) = ws.map (text h n) := by
  refine (texts_of_extends hPrefix fun v hv => ?_).trans hEq
  have hMem : text k n v ∈ ws.map (text h n) := hEq ▸ List.mem_map_of_mem hv
  obtain ⟨w, hw, heq⟩ := List.mem_map.mp hMem
  exact heq ▸ hText w hw

/-- A list that is short enough for `slice(-50)` is copied with its text. -/
theorem sliceArray_text {source : Addr} (live : Addr) (hPrefix : h <+: k)
    (hArray : RecordArray h source) (hShort : ((arrayAt h source).getD []).length ≤ 50)
    (hText : (text h n (.ref source)).isSome) :
    ∃ k' a, sliceArray k source live = (k', a) ∧ k <+: k' ∧
      text k' n (.ref a) = text h n (.ref source) := by
  obtain ⟨vs, hGet, -⟩ := hArray
  rw [hGet, Option.getD_some] at hShort
  obtain ⟨k', a, hEq, hGrown, hCopy⟩ := sliceArray_spec live hPrefix hGet
  rw [sliceLast_of_length_le hShort] at hCopy
  refine ⟨k', a, hEq, hGrown, ?_⟩
  cases n with
  | zero => rfl
  | succ n =>
    obtain ⟨t, ht⟩ := Option.isSome_iff_exists.mp hText
    rw [text_array hGet] at ht ⊢
    rw [text_array hCopy]
    refine congrArg arrayText (texts_of_extends (hPrefix.trans hGrown) fun v hv => ?_)
    exact text_of_mem_arrayText ht _ (List.mem_map_of_mem hv)

def Uncut (h : Heap) (s : RuntimeState) : Prop :=
  s.budget.costHistory.length ≤ 50 ∧ s.execution.stepHistory.length ≤ 20 ∧
    s.modelCalls.length ≤ 200 ∧ ((arrayAt h s.context.discardedItems).getD []).length ≤ 50

def Copied.own (s : RuntimeState) : Copied where
  candidateModels := s.model.candidateModels
  contextItems := s.context.contextItems
  compressedItems := s.context.compressedItems
  discardedItems := s.context.discardedItems
  workingMemoryRefs := s.memory.workingMemoryRefs
  persistentMemoryRefs := s.memory.persistentMemoryRefs
  costHistory := s.budget.costHistory
  stepHistory := s.execution.stepHistory
  modelCalls := s.modelCalls
  metadata := s.metadata

/-- The live state has what a restore does not write as `s` has it. -/
def SameRest (live s : RuntimeState) : Prop := restoreFields live s (.own s) s.updatedAt = s

theorem SameRest.congr {live s : RuntimeState} (hRest : SameRest live s)
    (snapshot : RuntimeState) (copied : Copied) (now : ℚ) :
    restoreFields live snapshot copied now = restoreFields s snapshot copied now := by
  have hWritten : restoreFields (restoreFields live s (.own s) s.updatedAt) snapshot copied now =
      restoreFields live snapshot copied now := rfl
  rw [← hWritten, show restoreFields live s (.own s) s.updatedAt = s from hRest]

def LeavesRest (live : RuntimeState) : Op → Prop
  | .setCurrentModel _ _ _ now => live.model.lastModelChange = some now
  | .updateStatus _ now => live.task.updatedAt = now
  | _ => True

theorem SameRest.op {live s : RuntimeState} {op : Op} {e : Effect} (hRest : SameRest live s)
    (he : effect h live op = some e) (hLeaves : LeavesRest live op) : SameRest e.live s := by
  suffices hSame : Checkpoint.restoreFields e.live s (.own s) s.updatedAt =
      Checkpoint.restoreFields live s (.own s) s.updatedAt from hSame.trans hRest
  cases op with
  | newObject o => cases he; rfl
  | addItem item =>
    obtain ⟨tokens, -, he⟩ := Option.bind_eq_some_iff.mp he
    obtain ⟨push, -, he⟩ := Option.bind_eq_some_iff.mp he
    cases he
    rfl
  | removeItem itemId =>
    obtain ⟨items, -, he⟩ := Option.bind_eq_some_iff.mp he
    split at he
    · cases he
      rfl
    · obtain ⟨item, -, he⟩ := Option.bind_eq_some_iff.mp he
      obtain ⟨tokens, -, he⟩ := Option.bind_eq_some_iff.mp he
      obtain ⟨push, -, he⟩ := Option.bind_eq_some_iff.mp he
      cases he
      rfl
  | compressItem itemId compressedTokens =>
    obtain ⟨items, -, he⟩ := Option.bind_eq_some_iff.mp he
    split at he
    · cases he
      rfl
    · obtain ⟨item, -, he⟩ := Option.bind_eq_some_iff.mp he
      split at he
      · obtain ⟨fields, -, he⟩ := Option.bind_eq_some_iff.mp he
        obtain ⟨tokens, -, he⟩ := Option.bind_eq_some_iff.mp he
        obtain ⟨push, -, he⟩ := Option.bind_eq_some_iff.mp he
        cases he
        rfl
      · cases he
  | addCandidate model =>
    obtain ⟨fields, -, he⟩ := Option.bind_eq_some_iff.mp he
    obtain ⟨candidates, -, he⟩ := Option.bind_eq_some_iff.mp he
    split at he
    · obtain ⟨old, -, he⟩ := Option.bind_eq_some_iff.mp he
      cases he
      rfl
    · cases he
    · obtain ⟨push, -, he⟩ := Option.bind_eq_some_iff.mp he
      cases he
      rfl
  | addModelCall record now =>
    obtain ⟨fields, -, he⟩ := Option.bind_eq_some_iff.mp he
    cases he
    rfl
  | startStep stepInfo now => cases he; rfl
  | completeStep result now | failStep error now =>
    obtain ⟨writes, -, he⟩ := Option.bind_eq_some_iff.mp he
    cases he
    rfl
  | addWorkingMemory ref | addPersistentMemory ref =>
    obtain ⟨fields, -, he⟩ := Option.bind_eq_some_iff.mp he
    obtain ⟨push, -, he⟩ := Option.bind_eq_some_iff.mp he
    cases he
    rfl
  | setMetadata key value | setTaskMetadata key value =>
    obtain ⟨write, -, he⟩ := Option.bind_eq_some_iff.mp he
    cases he
    rfl
  | setCurrentModel modelId provider reason now =>
    have hChange : live.model.lastModelChange = some now := hLeaves
    cases he
    simp only [RuntimeState.setCurrentModel, unchanged, ← hChange]
    rfl
  | addCost category amount metadata now => cases he; rfl
  | updateStatus status now =>
    have hStamp : live.task.updatedAt = now := hLeaves
    subst hStamp
    cases he
    rfl

theorem discarded_mem_values (s : RuntimeState) :
    Val.ref s.context.discardedItems ∈ s.toJSON.values := by
  simp [RuntimeState.toJSON, ContextState.toJSON, Doc.values, Section.values, Part.values]

theorem values_toSnapshot_tools (s : RuntimeState) :
    s.toSnapshot.tools.toJSON.values ⊆ s.tools.toJSON.values := by
  have hCalls : ∀ v ∈ sliceLast 10 s.tools.recentToolCalls, v ∈ s.tools.recentToolCalls :=
    fun _ => mem_of_mem_sliceLast
  intro v hv
  simp only [RuntimeState.toSnapshot, ToolState.toJSON, Section.values, Part.values,
    List.flatMap_cons, List.mem_append] at hv ⊢
  exact hv.imp_right (Or.imp_right (Or.imp_left (hCalls v)))

theorem values_toSnapshot_budget (s : RuntimeState) :
    s.toSnapshot.budget.toJSON.values ⊆ s.budget.toJSON.values := by
  have hCosts : ∀ v ∈ sliceLast 50 s.budget.costHistory, v ∈ s.budget.costHistory :=
    fun _ => mem_of_mem_sliceLast
  intro v hv
  simp only [RuntimeState.toSnapshot, BudgetState.toJSON, BudgetState.getRemainingBudget,
    Section.values, Part.values, List.flatMap_cons, List.mem_append] at hv ⊢
  grind

theorem values_toSnapshot_execution (s : RuntimeState) :
    s.toSnapshot.execution.toJSON.values ⊆ s.execution.toJSON.values := by
  have hSteps : ∀ v ∈ sliceLast 20 s.execution.stepHistory, v ∈ s.execution.stepHistory :=
    fun _ => mem_of_mem_sliceLast
  have hSaved : ∀ v ∈ sliceLast 10 s.execution.checkpoints, v ∈ s.execution.checkpoints :=
    fun _ => mem_of_mem_sliceLast
  intro v hv
  simp only [RuntimeState.toSnapshot, ExecutionState.toJSON, Section.values, Part.values,
    List.flatMap_cons, List.mem_append] at hv ⊢
  grind

theorem values_toSnapshot (s : RuntimeState) : s.toSnapshot.toJSON.values ⊆ s.toJSON.values := by
  have hTools := @values_toSnapshot_tools s
  have hBudget := @values_toSnapshot_budget s
  have hExecution := @values_toSnapshot_execution s
  have hCalls : ∀ v ∈ sliceLast 200 s.modelCalls, v ∈ s.modelCalls := fun _ => mem_of_mem_sliceLast
  intro v hv
  simp only [RuntimeState.toJSON, Doc.values, List.flatMap_cons, List.mem_append] at hv ⊢
  grind [RuntimeState.toSnapshot, Section.values, Part.values]

theorem footprint_toSnapshot (s : RuntimeState) :
    s.toSnapshot.toJSON.footprint h n ⊆ s.toJSON.footprint h n := by
  intro a ha
  obtain ⟨v, hv, ha⟩ := List.mem_flatMap.mp ha
  exact Doc.mem_footprint (values_toSnapshot s hv) ha

/-- Restoring a snapshot beside the objects it shares gives back the whole state, but for the time
stamp that the restore sets. -/
theorem restore_text {live s : RuntimeState} (hTyped : WellTyped h s) (hUncut : Uncut h s)
    (hText : (s.toJSON.text h n).isSome) (hRest : SameRest live s) (now : ℚ) :
    ({ (applySnapshotToRuntime h live s.toSnapshot now).2 with
      updatedAt := s.updatedAt } : RuntimeState).toJSON.text
        (applySnapshotToRuntime h live s.toSnapshot now).1 n = s.toJSON.text h n := by
  obtain ⟨hArrays, hCosts, hSteps, hCalls, hMeta⟩ := sharedAll (Doc.text_values hText)
  obtain ⟨fewCosts, fewSteps, fewCalls, fewDiscarded⟩ := hUncut
  simp only [RuntimeState.arrays, List.forall_mem_cons] at hArrays
  obtain ⟨hCand, hItems, hComp, hDisc, hWork, hPers, -⟩ := hArrays
  have hTypedArrays := hTyped.arrays
  simp only [RuntimeState.arrays, List.forall_mem_cons] at hTypedArrays
  obtain ⟨kCand, kItems, kComp, kDisc, kWork, kPers, -⟩ := hTypedArrays
  have hListed := hTyped.listed
  simp only [listed, List.forall_mem_append] at hListed
  obtain ⟨⟨kCosts, kSteps⟩, kCalls⟩ := hListed
  -- the heaps in the order in which the restore extends them
  obtain ⟨k₁, a₁, e₁, p₁, t₁⟩ :=
    copyArray_spec live.model.candidateModels List.prefix_rfl kCand hCand
  obtain ⟨k₂, a₂, e₂, p₂, t₂⟩ := copyArray_spec live.context.contextItems p₁ kItems hItems
  have q₂ := p₁.trans p₂
  obtain ⟨k₃, a₃, e₃, p₃, t₃⟩ := copyArray_spec live.context.compressedItems q₂ kComp hComp
  have q₃ := q₂.trans p₃
  obtain ⟨k₄, a₄, e₄, p₄, t₄⟩ :=
    sliceArray_text live.context.discardedItems q₃ kDisc fewDiscarded hDisc
  have q₄ := q₃.trans p₄
  obtain ⟨k₅, a₅, e₅, p₅, t₅⟩ := copyArray_spec live.memory.workingMemoryRefs q₄ kWork hWork
  have q₅ := q₄.trans p₅
  obtain ⟨k₆, a₆, e₆, p₆, t₆⟩ := copyArray_spec live.memory.persistentMemoryRefs q₅ kPers hPers
  have q₆ := q₅.trans p₆
  obtain ⟨k₇, u₇, e₇, p₇, -, t₇⟩ := copies_spec q₆ kCosts hCosts
  have q₇ := q₆.trans p₇
  obtain ⟨k₈, u₈, e₈, p₈, -, t₈⟩ := copies_spec q₇ kSteps hSteps
  have q₈ := q₇.trans p₈
  obtain ⟨k₉, u₉, e₉, p₉, -, t₉⟩ := copies_spec q₈ kCalls hCalls
  have q₉ := q₈.trans p₉
  obtain ⟨k', v₁₀, e₁₀, p₁₀, t₁₀⟩ := copyRecord_spec live.metadata q₉ hTyped.metadata hMeta
  have hEq : applySnapshotToRuntime h live s.toSnapshot now = (k', restoreFields s s.toSnapshot
      ⟨a₁, a₂, a₃, a₄, a₅, a₆, u₇, u₈, u₉, v₁₀⟩ now) := by
    rw [← hRest.congr]
    simp only [applySnapshotToRuntime, RuntimeState.toSnapshot, sliceLast_of_length_le fewCosts,
      sliceLast_of_length_le fewSteps, sliceLast_of_length_le fewCalls, e₁, e₂, e₃, e₄, e₅, e₆, e₇,
      e₈, e₉, e₁₀]
  rw [hEq]
  -- the texts in the last of the heaps
  have r₈ := p₉.trans p₁₀
  have r₇ := p₈.trans r₈
  have r₆ := p₇.trans r₇
  have r₅ := p₆.trans r₆
  have r₄ := p₅.trans r₅
  have r₃ := p₄.trans r₄
  have r₂ := p₃.trans r₃
  have r₁ := p₂.trans r₂
  have hLater {v : Val} (hv : (text h n v).isSome) : text k' n v = text h n v :=
    text_of_extends (q₉.trans p₁₀) hv
  have c₁ := (text_later r₁ t₁ hCand).trans (hLater hCand).symm
  have c₂ := (text_later r₂ t₂ hItems).trans (hLater hItems).symm
  have c₃ := (text_later r₃ t₃ hComp).trans (hLater hComp).symm
  have c₄ := (text_later r₄ t₄ hDisc).trans (hLater hDisc).symm
  have c₅ := (text_later r₅ t₅ hWork).trans (hLater hWork).symm
  have c₆ := (text_later r₆ t₆ hPers).trans (hLater hPers).symm
  have hLists {vs : List Val} (hText : ∀ v ∈ vs, (text h n v).isSome) :
      vs.map (text k' n) = vs.map (text h n) := texts_of_extends (q₉.trans p₁₀) hText
  have c₇ := (texts_later r₇ t₇ hCosts).trans (hLists hCosts).symm
  have c₈ := (texts_later r₈ t₈ hSteps).trans (hLists hSteps).symm
  have c₉ := (texts_later p₁₀ t₉ hCalls).trans (hLists hCalls).symm
  have c₁₀ := t₁₀.trans (hLater hMeta).symm
  refine Eq.trans ?_ (Doc.text_congr fun v hv => hLater (Doc.text_values hText v hv))
  simp only [restoreFields, RuntimeState.toSnapshot, RuntimeState.toJSON, TaskState.toJSON,
    ModelState.toJSON, ContextState.toJSON, MemoryState.toJSON, BudgetState.toJSON,
    BudgetState.getRemainingBudget, ExecutionState.toJSON, Doc.text, Section.text, Part.text,
    List.map_cons, List.map_nil, c₁, c₂, c₃, c₄, c₅, c₆, c₇, c₈, c₉, c₁₀]

end OrchestraAI.Checkpoint
