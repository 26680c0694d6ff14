import OrchestraAI.Checkpoint.Restore

/-! # The same records in two heaps

A record is the same as another when its fields are, and when what these lead to
has the JSON text it had. Copying keeps records the same; so does every later heap
that keeps the objects they read.
-/

namespace OrchestraAI.Checkpoint

open ObjectHeap OrchestraAI.State OrchestraAI.State.RuntimeState

/-- `w` in `k` is the record that `v` is in `h`, its fields compared up to `n` levels below. -/
structure SameRecord (n : Nat) (h : Heap) (v : Val) (k : Heap) (w : Val) : Prop where
  fields : ∃ a b fields, v = .ref a ∧ w = .ref b ∧ recordAt h a = some fields ∧
    recordAt k b = some fields
  text : ∀ t, ObjectHeap.text h (n + 1) v = some t → ObjectHeap.text k (n + 1) w = some t

def SameRecords (n : Nat) (h : Heap) (vs : List Val) (k : Heap) (ws : List Val) : Prop :=
  List.Forall₂ (fun v w => SameRecord n h v k w) vs ws

def SameArray (n : Nat) (h : Heap) (a : Addr) (k : Heap) (b : Addr) : Prop :=
  ∃ vs ws, arrayAt h a = some vs ∧ arrayAt k b = some ws ∧ SameRecords n h vs k ws

variable {n : Nat} {h k l : Heap} {v w u : Val} {vs ws us : List Val}

theorem SameRecord.trans (hFirst : SameRecord n h v k w) (hSecond : SameRecord n k w l u) :
    SameRecord n h v l u := by
  obtain ⟨⟨a, b, fields, rfl, rfl, hv, hw⟩, hText⟩ := hFirst
  obtain ⟨⟨_, c, fields', ⟨⟩, rfl, hw', hu⟩, hText'⟩ := hSecond
  rw [hw, Option.some.injEq] at hw'
  subst hw'
  exact ⟨⟨a, c, fields, rfl, rfl, hv, hu⟩, fun t ht => hText' t (hText t ht)⟩

theorem SameRecord.isRecord (hSame : SameRecord n h v k w) : IsRecord k w := by
  obtain ⟨⟨_, b, fields, -, rfl, -, hw⟩, -⟩ := hSame
  exact ⟨b, fields, rfl, hw⟩

theorem SameRecord.property (hSame : SameRecord n h v k w) (key : String) :
    property k w key = property h v key := by
  obtain ⟨⟨_, _, _, rfl, rfl, hv, hw⟩, -⟩ := hSame
  simp only [State.property, hv, hw]

theorem sameRecord_of_keeps (hv : IsRecord h v) (hKeeps : Keeps h k (footprint h (n + 1) v)) :
    SameRecord n h v k v := by
  obtain ⟨a, fields, rfl, hFields⟩ := hv
  have hNow := hKeeps a List.mem_cons_self _ (recordAt_eq_some.mp hFields)
  refine ⟨⟨a, a, fields, rfl, rfl, hFields, recordAt_eq_some.mpr hNow⟩, fun t ht => ?_⟩
  exact text_of_keeps hKeeps ht

theorem sameRecord_copy (hv : IsRecord h v) (hPrefix : h <+: k) {a : Addr}
    (hGet : k[a]? = some (.record (spread h v))) : SameRecord n h v k (.ref a) := by
  constructor
  · obtain ⟨b, fields, rfl, hFields⟩ := hv
    have hSpread : spread h (.ref b) = fields := by simp only [spread, recordAt_eq_some.mp hFields]
    exact ⟨b, a, fields, rfl, rfl, hFields, recordAt_eq_some.mpr (hSpread ▸ hGet)⟩
  · intro t ht
    rw [text_copy hPrefix hv (Option.isSome_of_eq_some ht) hGet, ht]

theorem SameRecords.trans (hFirst : SameRecords n h vs k ws) (hSecond : SameRecords n k ws l us) :
    SameRecords n h vs l us := by
  unfold SameRecords at hFirst hSecond ⊢
  induction hFirst generalizing us with
  | nil =>
    cases hSecond
    exact .nil
  | cons hSame _ ih =>
    obtain _ | ⟨hSame', hRest⟩ := hSecond
    exact .cons (hSame.trans hSame') (ih hRest)

theorem SameRecords.isRecord (hSame : SameRecords n h vs k ws) : ∀ w ∈ ws, IsRecord k w := by
  unfold SameRecords at hSame
  induction hSame with
  | nil =>
    intro w hw
    cases hw
  | cons hFirst _ ih =>
    intro w hw
    rcases List.mem_cons.mp hw with rfl | hw
    · exact hFirst.isRecord
    · exact ih w hw

theorem SameRecords.exists_property (hSame : SameRecords n h vs k ws) {key : String} {x : Val}
    (hMem : ∃ w ∈ ws, property k w key = some x) : ∃ v ∈ vs, property h v key = some x := by
  unfold SameRecords at hSame
  induction hSame with
  | nil =>
    obtain ⟨w, hw, -⟩ := hMem
    cases hw
  | cons hFirst _ ih =>
    obtain ⟨w, hw, hx⟩ := hMem
    rcases List.mem_cons.mp hw with rfl | hw
    · exact ⟨_, List.mem_cons_self, hFirst.property key ▸ hx⟩
    · obtain ⟨v, hv, hx⟩ := ih ⟨w, hw, hx⟩
      exact ⟨v, List.mem_cons_of_mem _ hv, hx⟩

theorem sameRecords_of_keeps (hVals : ∀ v ∈ vs, IsRecord h v)
    (hKeeps : Keeps h k (vs.flatMap (footprint h (n + 1)))) : SameRecords n h vs k vs := by
  refine List.forall₂_same.mpr fun v hv => sameRecord_of_keeps (hVals v hv) ?_
  exact hKeeps.mono fun a ha => List.mem_flatMap.mpr ⟨v, hv, ha⟩

theorem sameRecords_extends (hVals : ∀ v ∈ vs, IsRecord h v) (hPrefix : h <+: k) :
    SameRecords n h vs k vs :=
  sameRecords_of_keeps hVals (keeps_extends hPrefix _)

theorem SameRecords.later (hSame : SameRecords n h vs k ws) (hPrefix : k <+: l) :
    SameRecords n h vs l ws := hSame.trans (sameRecords_extends hSame.isRecord hPrefix)

theorem copies_same (hVals : ∀ v ∈ vs, IsRecord h v) :
    SameRecords n h vs (copies h vs).1 (copies h vs).2 := by
  refine List.forall₂_iff_get.mpr ⟨(length_copies h vs).symm, fun i hi hj => ?_⟩
  have hMem : vs[i] ∈ vs := List.getElem_mem hi
  simp only [List.get_eq_getElem, copies, List.getElem_map, List.getElem_range]
  refine sameRecord_copy (hVals _ hMem) (List.prefix_append ..) ?_
  rw [List.getElem?_append_right (Nat.le_add_right ..), Nat.add_sub_cancel_left,
    List.getElem?_map, List.getElem?_eq_getElem hi]
  rfl

theorem copies_same_extends (hPrefix : h <+: k) (hVals : ∀ v ∈ vs, IsRecord h v) :
    ∃ k' us, copies k vs = (k', us) ∧ k <+: k' ∧ SameRecords n h vs k' us := by
  refine ⟨_, _, rfl, prefix_copies k vs, (sameRecords_extends hVals hPrefix).trans ?_⟩
  exact copies_same fun v hv => isRecord_of_prefix hPrefix (hVals v hv)

theorem SameArray.later {a b : Addr} (hSame : SameArray n h a k b) (hPrefix : k <+: l) :
    SameArray n h a l b := by
  obtain ⟨vs, ws, ha, hb, hRecords⟩ := hSame
  exact ⟨vs, ws, ha, arrayAt_of_prefix hPrefix hb, hRecords.later hPrefix⟩

theorem SameArray.recordArray {a b : Addr} (hSame : SameArray n h a k b) : RecordArray k b := by
  obtain ⟨vs, ws, -, hb, hRecords⟩ := hSame
  exact ⟨ws, hb, hRecords.isRecord⟩

theorem SameArray.trans {a b c : Addr} (hFirst : SameArray n h a k b)
    (hSecond : SameArray n k b l c) : SameArray n h a l c := by
  obtain ⟨vs, ws, ha, hb, hRecords⟩ := hFirst
  obtain ⟨ws', us, hb', hc, hRecords'⟩ := hSecond
  rw [hb, Option.some.injEq] at hb'
  subst hb'
  exact ⟨vs, us, ha, hc, hRecords.trans hRecords'⟩

theorem sameArray_of_keeps {a : Addr} (hArray : RecordArray h a)
    (hKeeps : Keeps h k (footprint h (n + 2) (.ref a))) : SameArray n h a k a := by
  obtain ⟨vs, hGet, hVals⟩ := hArray
  rw [arrayAt_eq_some] at hGet
  have hNow := hKeeps a List.mem_cons_self _ hGet
  refine ⟨vs, vs, arrayAt_eq_some.mpr hGet, arrayAt_eq_some.mpr hNow,
    sameRecords_of_keeps hVals (hKeeps.mono fun b hb => ?_)⟩
  obtain ⟨v, hv, hb⟩ := List.mem_flatMap.mp hb
  exact mem_footprint_elems hGet hv hb

theorem copyArray_same {source : Addr} (live : Addr) (hPrefix : h <+: k)
    (hArray : RecordArray h source) :
    ∃ k' a, copyArray k source live = (k', a) ∧ k <+: k' ∧ SameArray n h source k' a := by
  obtain ⟨vs, hGet, hVals⟩ := hArray
  obtain ⟨k', us, hEq, hGrown, hSame⟩ := copies_same_extends (n := n) hPrefix hVals
  simp only [copyArray, arrayAt_of_prefix hPrefix hGet, newArray, hEq]
  refine ⟨_, _, rfl, hGrown.trans (List.prefix_append ..), vs, us, hGet, ?_,
    hSame.later (List.prefix_append ..)⟩
  exact arrayAt_eq_some.mpr List.getElem?_concat_length

theorem prefix_copyArray (h : Heap) (source live : Addr) : h <+: (copyArray h source live).1 := by
  cases hGet : arrayAt h source with
  | none => simp only [copyArray, hGet, List.prefix_rfl]
  | some vs =>
    simp only [copyArray, hGet]
    exact (prefix_copies h vs).trans (List.prefix_append ..)

theorem prefix_sliceArray (h : Heap) (source live : Addr) : h <+: (sliceArray h source live).1 := by
  cases hGet : arrayAt h source with
  | none => simp only [sliceArray, hGet, List.prefix_rfl]
  | some vs =>
    simp only [sliceArray, hGet]
    exact List.prefix_append ..

theorem prefix_copyRecord (h : Heap) (source live : Val) : h <+: (copyRecord h source live).1 := by
  cases source with
  | ref a => exact List.prefix_append ..
  | null | bool _ | num _ | str _ => exact List.prefix_rfl

theorem prefix_applySnapshotToRuntime (h : Heap) (live snapshot : RuntimeState) (now : ℚ) :
    h <+: (applySnapshotToRuntime h live snapshot now).1 := by
  refine List.IsPrefix.trans ?_ (prefix_copyRecord ..)
  refine List.IsPrefix.trans ?_ (prefix_copies ..)
  refine List.IsPrefix.trans ?_ (prefix_copies ..)
  refine List.IsPrefix.trans ?_ (prefix_copies ..)
  refine List.IsPrefix.trans ?_ (prefix_copyArray ..)
  refine List.IsPrefix.trans ?_ (prefix_copyArray ..)
  refine List.IsPrefix.trans ?_ (prefix_sliceArray ..)
  refine List.IsPrefix.trans ?_ (prefix_copyArray ..)
  refine List.IsPrefix.trans ?_ (prefix_copyArray ..)
  exact prefix_copyArray ..

/-- What a restore from a state `s` leaves behind: copies, in a heap that has only grown. -/
structure RestoredFrom (n : Nat) (h : Heap) (s : RuntimeState) (k : Heap) (r : RuntimeState) :
    Prop where
  grown : h <+: k
  contextItems : SameArray n h s.context.contextItems k r.context.contextItems
  costHistory : SameRecords n h (sliceLast 50 s.budget.costHistory) k r.budget.costHistory
  modelCalls : SameRecords n h (sliceLast 200 s.modelCalls) k r.modelCalls
  typed : WellTyped k r

theorem applySnapshotToRuntime_restores {s : RuntimeState} (hTyped : WellTyped h s)
    (live : RuntimeState) (now : ℚ) :
    RestoredFrom n h s (applySnapshotToRuntime h live s.toSnapshot now).1
      (applySnapshotToRuntime h live s.toSnapshot now).2 := by
  have hArrays := hTyped.arrays
  simp only [RuntimeState.arrays, List.forall_mem_cons] at hArrays
  obtain ⟨hCand, hItems, hComp, ⟨ds, hds, hdRecords⟩, hWork, hPers, -⟩ := hArrays
  have hListed := hTyped.listed
  simp only [listed, List.forall_mem_append] at hListed
  obtain ⟨⟨hCosts, hSteps⟩, hCalls⟩ := hListed
  obtain ⟨m, mFields, hMeta, hmFields⟩ := hTyped.metadata
  obtain ⟨k₁, a₁, e₁, p₁, t₁⟩ :=
    copyArray_same (n := n) live.model.candidateModels List.prefix_rfl hCand
  obtain ⟨k₂, a₂, e₂, p₂, t₂⟩ := copyArray_same (n := n) live.context.contextItems p₁ hItems
  have q₂ := p₁.trans p₂
  obtain ⟨k₃, a₃, e₃, p₃, t₃⟩ := copyArray_same (n := n) live.context.compressedItems q₂ hComp
  have q₃ := q₂.trans p₃
  obtain ⟨k₄, a₄, e₄, p₄, t₄⟩ := sliceArray_spec live.context.discardedItems q₃ hds
  have q₄ := q₃.trans p₄
  obtain ⟨k₅, a₅, e₅, p₅, t₅⟩ := copyArray_same (n := n) live.memory.workingMemoryRefs q₄ hWork
  have q₅ := q₄.trans p₅
  obtain ⟨k₆, a₆, e₆, p₆, t₆⟩ := copyArray_same (n := n) live.memory.persistentMemoryRefs q₅ hPers
  have q₆ := q₅.trans p₆
  obtain ⟨k₇, u₇, e₇, p₇, t₇⟩ := copies_same_extends (n := n) q₆
    fun v hv => hCosts v (mem_of_mem_sliceLast (n := 50) hv)
  have q₇ := q₆.trans p₇
  obtain ⟨k₈, u₈, e₈, p₈, t₈⟩ := copies_same_extends (n := n) q₇
    fun v hv => hSteps v (mem_of_mem_sliceLast (n := 20) hv)
  have q₈ := q₇.trans p₈
  obtain ⟨k₉, u₉, e₉, p₉, t₉⟩ := copies_same_extends (n := n) q₈
    fun v hv => hCalls v (mem_of_mem_sliceLast (n := 200) hv)
  have q₉ := q₈.trans p₉
  -- the metadata is copied last
  let k' := k₉ ++ [.record (spread k₉ s.metadata)]
  have p₁₀ : k₉ <+: k' := List.prefix_append ..
  have hEq : applySnapshotToRuntime h live s.toSnapshot now = (k', restoreFields live s.toSnapshot
      ⟨a₁, a₂, a₃, a₄, a₅, a₆, u₇, u₈, u₉, .ref k₉.length⟩ now) := by
    simp only [applySnapshotToRuntime, RuntimeState.toSnapshot, sliceLast_sliceLast] at e₇ e₈ e₉ ⊢
    simp only [e₁, e₂, e₃, e₄, e₅, e₆, e₇, e₈, e₉, hMeta, copyRecord, k']
  have r₈ := p₉.trans p₁₀
  have r₇ := p₈.trans r₈
  have r₆ := p₇.trans r₇
  have r₅ := p₆.trans r₆
  have r₄ := p₅.trans r₅
  have r₃ := p₄.trans r₄
  have r₂ := p₃.trans r₃
  have r₁ := p₂.trans r₂
  have hDiscarded : RecordArray k' a₄ := ⟨_, arrayAt_of_prefix r₄ t₄, fun v hv =>
    isRecord_of_prefix (q₄.trans r₄) (hdRecords v (mem_of_mem_sliceLast hv))⟩
  rw [hEq]
  refine ⟨q₉.trans p₁₀, t₂.later r₂, t₇.later r₇, t₉.later p₁₀, ⟨?_, ?_, ?_⟩⟩
  · simp only [RuntimeState.arrays, restoreFields, List.forall_mem_cons]
    exact ⟨(t₁.later r₁).recordArray, (t₂.later r₂).recordArray, (t₃.later r₃).recordArray,
      hDiscarded, (t₅.later r₅).recordArray, (t₆.later r₆).recordArray, fun _ hv => by cases hv⟩
  · simp only [listed, restoreFields, List.forall_mem_append]
    exact ⟨⟨(t₇.later r₇).isRecord, (t₈.later r₈).isRecord⟩, (t₉.later p₁₀).isRecord⟩
  · exact ⟨k₉.length, _, rfl, recordAt_eq_some.mpr List.getElem?_concat_length⟩

end OrchestraAI.Checkpoint
