import OrchestraAI.State.Operations

/-! # Well-typed runtime states

The lists of a runtime state hold records. Every operation keeps that, whatever
is shared with whom: it replaces records by records and arrays of records by
arrays of records.
-/

namespace OrchestraAI.State

open ObjectHeap

def IsRecord (h : Heap) (v : Val) : Prop := ∃ a fields, v = .ref a ∧ recordAt h a = some fields

def RecordArray (h : Heap) (a : Addr) : Prop :=
  ∃ vs, arrayAt h a = some vs ∧ ∀ v ∈ vs, IsRecord h v

structure KindKept (h h' : Heap) : Prop where
  record : ∀ v, IsRecord h v → IsRecord h' v
  array : ∀ a, RecordArray h a → RecordArray h' a

theorem KindKept.refl (h : Heap) : KindKept h h := ⟨fun _ h => h, fun _ h => h⟩

theorem KindKept.trans {h₁ h₂ h₃ : Heap} (h : KindKept h₁ h₂) (k : KindKept h₂ h₃) :
    KindKept h₁ h₃ :=
  ⟨fun v hv => k.record v (h.record v hv), fun a ha => k.array a (h.array a ha)⟩

theorem recordAt_eq_some {h : Heap} {a : Addr} {fields : List (String × Val)} :
    recordAt h a = some fields ↔ h[a]? = some (.record fields) := by
  unfold recordAt
  split <;> rename_i hGet <;> simp_all

theorem arrayAt_eq_some {h : Heap} {a : Addr} {vs : List Val} :
    arrayAt h a = some vs ↔ h[a]? = some (.array vs) := by
  unfold arrayAt
  split <;> rename_i hGet <;> simp_all

theorem kindKept_append (h os : Heap) : KindKept h (h ++ os) := by
  have hRecord : ∀ v, IsRecord h v → IsRecord (h ++ os) v := by
    rintro v ⟨a, fields, rfl, hGet⟩
    rw [recordAt_eq_some] at hGet
    refine ⟨a, fields, rfl, recordAt_eq_some.mpr ?_⟩
    rw [List.getElem?_append_left (List.getElem?_eq_some_iff.mp hGet).1, hGet]
  refine ⟨hRecord, fun a ⟨vs, hGet, hVals⟩ => ⟨vs, ?_, fun v hv => hRecord v (hVals v hv)⟩⟩
  rw [arrayAt_eq_some] at hGet ⊢
  rw [List.getElem?_append_left (List.getElem?_eq_some_iff.mp hGet).1, hGet]

theorem kindKept_set_record {h : Heap} {a : Addr} {old : List (String × Val)}
    (hOld : recordAt h a = some old) (new : List (String × Val)) :
    KindKept h (h.set a (.record new)) := by
  rw [recordAt_eq_some] at hOld
  have hlt := (List.getElem?_eq_some_iff.mp hOld).1
  have hRecord : ∀ v, IsRecord h v → IsRecord (h.set a (.record new)) v := by
    rintro v ⟨b, fields, rfl, hGet⟩
    by_cases hab : a = b
    · subst hab
      exact ⟨a, new, rfl, recordAt_eq_some.mpr (List.getElem?_set_self hlt)⟩
    · refine ⟨b, fields, rfl, recordAt_eq_some.mpr ?_⟩
      rw [List.getElem?_set_ne hab, recordAt_eq_some.mp hGet]
  refine ⟨hRecord, fun b ⟨vs, hGet, hVals⟩ => ⟨vs, ?_, fun v hv => hRecord v (hVals v hv)⟩⟩
  have hab : a ≠ b := by
    rintro rfl
    rw [arrayAt_eq_some, hOld] at hGet
    cases hGet
  rw [arrayAt_eq_some] at hGet ⊢
  rw [List.getElem?_set_ne hab, hGet]

theorem kindKept_set_array {h : Heap} {a : Addr} {old new : List Val}
    (hOld : arrayAt h a = some old) (hNew : ∀ v ∈ new, IsRecord h v) :
    KindKept h (h.set a (.array new)) := by
  rw [arrayAt_eq_some] at hOld
  have hlt := (List.getElem?_eq_some_iff.mp hOld).1
  have hRecord : ∀ v, IsRecord h v → IsRecord (h.set a (.array new)) v := by
    rintro v ⟨b, fields, rfl, hGet⟩
    have hab : a ≠ b := by
      rintro rfl
      rw [recordAt_eq_some, hOld] at hGet
      cases hGet
    refine ⟨b, fields, rfl, recordAt_eq_some.mpr ?_⟩
    rw [List.getElem?_set_ne hab, recordAt_eq_some.mp hGet]
  refine ⟨hRecord, fun b ⟨vs, hGet, hVals⟩ => ?_⟩
  by_cases hab : a = b
  · subst hab
    exact ⟨new, arrayAt_eq_some.mpr (List.getElem?_set_self hlt), fun v hv => hRecord v (hNew v hv)⟩
  · refine ⟨vs, arrayAt_eq_some.mpr ?_, fun v hv => hRecord v (hVals v hv)⟩
    rw [List.getElem?_set_ne hab, arrayAt_eq_some.mp hGet]

inductive KeepsKind (h : Heap) : Addr × Obj → Prop
  | record {a : Addr} {v : List (String × Val)} (old : IsRecord h (.ref a)) :
      KeepsKind h (a, .record v)
  | array {a : Addr} {vs : List Val} (old : RecordArray h a) (new : ∀ v ∈ vs, IsRecord h v) :
      KeepsKind h (a, .array vs)

theorem KeepsKind.mono {h h' : Heap} (hKept : KindKept h h') {w : Addr × Obj}
    (hw : KeepsKind h w) : KeepsKind h' w := by
  cases hw with
  | record old => exact .record (hKept.record _ old)
  | array old new => exact .array (hKept.array _ old) fun v hv => hKept.record v (new v hv)

theorem KeepsKind.set {h : Heap} {w : Addr × Obj} (hw : KeepsKind h w) :
    KindKept h (h.set w.1 w.2) := by
  cases hw with
  | record old =>
    obtain ⟨_, fields, hRef, hOld⟩ := old
    cases hRef
    exact kindKept_set_record hOld _
  | array old new =>
    obtain ⟨vs, hOld, -⟩ := old
    exact kindKept_set_array hOld new

theorem kindKept_writeAll {h : Heap} {writes : List (Addr × Obj)}
    (hw : ∀ w ∈ writes, KeepsKind h w) : KindKept h (writeAll h writes) := by
  induction writes generalizing h with
  | nil => exact .refl h
  | cons w ws ih =>
    have hFirst := (hw w List.mem_cons_self).set
    exact hFirst.trans (ih fun v hv => (hw v (List.mem_cons_of_mem w hv)).mono hFirst)

theorem KeepsKind.allocated {h : Heap} {w : Addr × Obj} (hw : KeepsKind h w) : w.1 < h.length := by
  cases hw with
  | record old =>
    obtain ⟨_, fields, hRef, hOld⟩ := old
    cases hRef
    exact (List.getElem?_eq_some_iff.mp (recordAt_eq_some.mp hOld)).1
  | array old new =>
    obtain ⟨vs, hOld, -⟩ := old
    exact (List.getElem?_eq_some_iff.mp (arrayAt_eq_some.mp hOld)).1

theorem writeAll_append {h : Heap} {writes : List (Addr × Obj)} (os : Heap)
    (hw : ∀ w ∈ writes, w.1 < h.length) : writeAll (h ++ os) writes = writeAll h writes ++ os := by
  induction writes generalizing h with
  | nil => rfl
  | cons w ws ih =>
    have hFirst : (h ++ os).set w.1 w.2 = h.set w.1 w.2 ++ os :=
      List.set_append_left _ _ (hw w List.mem_cons_self)
    simp only [writeAll, List.foldl_cons, hFirst]
    refine ih fun v hv => ?_
    rw [List.length_set]
    exact hw v (List.mem_cons_of_mem w hv)

namespace RuntimeState

def arrays (s : RuntimeState) : List Addr :=
  [s.model.candidateModels, s.context.contextItems, s.context.compressedItems,
    s.context.discardedItems, s.memory.workingMemoryRefs, s.memory.persistentMemoryRefs]

def listed (s : RuntimeState) : List Val :=
  s.budget.costHistory ++ s.execution.stepHistory ++ s.modelCalls

structure WellTyped (h : Heap) (s : RuntimeState) : Prop where
  arrays : ∀ a ∈ s.arrays, RecordArray h a
  listed : ∀ v ∈ s.listed, IsRecord h v
  metadata : IsRecord h s.metadata

theorem WellTyped.mono {h k : Heap} {s : RuntimeState} (hs : WellTyped h s)
    (hKept : KindKept h k) : WellTyped k s :=
  ⟨fun a ha => hKept.array a (hs.arrays a ha), fun v hv => hKept.record v (hs.listed v hv),
    hKept.record _ hs.metadata⟩

theorem new_wellTyped (runId taskId taskObjective : String) (now : ℚ) :
    WellTyped (RuntimeState.new runId taskId taskObjective now).1
      (RuntimeState.new runId taskId taskObjective now).2 := by
  refine ⟨fun a ha => ?_, fun v hv => (by cases hv), ⟨7, [], rfl, rfl⟩⟩
  simp only [RuntimeState.arrays, RuntimeState.new, List.mem_cons, List.not_mem_nil, or_false] at ha
  rcases ha with rfl | rfl | rfl | rfl | rfl | rfl <;> exact ⟨[], rfl, fun v hv => (by cases hv)⟩

structure TypedEffect (h : Heap) (s : RuntimeState) (e : Effect) : Prop where
  writes : ∀ w ∈ e.writes, w.1 < h.length ∧ KeepsKind (h ++ e.allocs) w
  arrays : e.live.arrays = s.arrays
  listed : ∀ v ∈ e.live.listed, v ∈ s.listed ∨ IsRecord (h ++ e.allocs) v
  metadata : e.live.metadata = s.metadata
  runId : e.live.runId = s.runId

theorem TypedEffect.keepsKind {h : Heap} {s : RuntimeState} {e : Effect}
    (he : TypedEffect h s e) : KindKept (h ++ e.allocs) (e.heap h) := by
  rw [Effect.heap, ← writeAll_append e.allocs fun w hw => (he.writes w hw).1]
  exact kindKept_writeAll fun w hw => (he.writes w hw).2

theorem TypedEffect.kindKept {h : Heap} {s : RuntimeState} {e : Effect}
    (he : TypedEffect h s e) : KindKept h (e.heap h) :=
  (kindKept_append h e.allocs).trans he.keepsKind

theorem TypedEffect.wellTyped {h : Heap} {s : RuntimeState} {e : Effect}
    (he : TypedEffect h s e) (hs : WellTyped h s) : WellTyped (e.heap h) e.live := by
  have hs := hs.mono he.kindKept
  refine ⟨fun a ha => hs.arrays a (he.arrays ▸ ha), fun v hv => ?_, he.metadata ▸ hs.metadata⟩
  rcases he.listed v hv with hOld | hNew
  · exact hs.listed v hOld
  · exact he.keepsKind.record v hNew

variable {h : Heap} {s : RuntimeState} {e : Effect}

theorem typedEffect_unchanged {live : RuntimeState} (hArrays : live.arrays = s.arrays)
    (hListed : ∀ v ∈ live.listed, v ∈ s.listed ∨ IsRecord h v)
    (hMetadata : live.metadata = s.metadata) (hRunId : live.runId = s.runId) :
    TypedEffect h s (unchanged live) :=
  ⟨fun _ hw => (by cases hw), hArrays, by simpa [unchanged] using hListed, hMetadata, hRunId⟩

theorem typedEffect_writes {writes : List (Addr × Obj)} {live : RuntimeState}
    (hWrites : ∀ w ∈ writes, KeepsKind h w) (hArrays : live.arrays = s.arrays)
    (hListed : live.listed = s.listed) (hMetadata : live.metadata = s.metadata)
    (hRunId : live.runId = s.runId) : TypedEffect h s ⟨writes, [], live⟩ :=
  ⟨fun w hw => ⟨(hWrites w hw).allocated, by simpa using hWrites w hw⟩, hArrays,
    fun v hv => .inl (hListed ▸ hv), hMetadata, hRunId⟩

theorem keepsKind_push {a : Addr} {v : Val} {w : Addr × Obj} (hPush : pushTo h a v = some w)
    (hArray : RecordArray h a) (hv : IsRecord h v) : KeepsKind h w := by
  obtain ⟨vs, hGet, rfl⟩ := Option.map_eq_some_iff.mp hPush
  obtain ⟨us, hOld, hVals⟩ := hArray
  cases hGet.symm.trans hOld
  refine .array ⟨vs, hOld, hVals⟩ fun u hu => ?_
  rcases List.mem_append.mp hu with hu | hu
  · exact hVals u hu
  · exact List.mem_singleton.mp hu ▸ hv

theorem isRecord_of_property {v : Val} {key : String} {x : Val}
    (hProp : property h v key = some x) : IsRecord h v := by
  cases v with
  | ref a =>
    obtain ⟨fields, hGet, -⟩ := Option.bind_eq_some_iff.mp hProp
    exact ⟨a, fields, rfl, hGet⟩
  | null | bool _ | num _ | str _ => cases hProp

theorem isRecord_of_numberAt {v : Val} {key : String} {q : ℚ}
    (hNum : numberAt h v key = some q) : IsRecord h v := by
  unfold numberAt at hNum
  split at hNum
  · rename_i hProp
    exact isRecord_of_property hProp
  · cases hNum

theorem addItem_typed {item : Addr} (hs : WellTyped h s) (he : s.addItem h item = some e) :
    TypedEffect h s e := by
  obtain ⟨tokens, hTokens, he⟩ := Option.bind_eq_some_iff.mp he
  obtain ⟨push, hPush, he⟩ := Option.bind_eq_some_iff.mp he
  cases he
  refine typedEffect_writes (fun w hw => ?_) rfl rfl rfl rfl
  rw [List.mem_singleton.mp hw]
  exact keepsKind_push hPush (hs.arrays _ (by simp [RuntimeState.arrays]))
    (isRecord_of_numberAt hTokens)

theorem removeItem_typed {itemId : String} (hs : WellTyped h s)
    (he : s.removeItem h itemId = some e) : TypedEffect h s e := by
  obtain ⟨items, hItems, he⟩ := Option.bind_eq_some_iff.mp he
  split at he
  · cases he
    exact typedEffect_unchanged rfl (fun v hv => .inl hv) rfl rfl
  · rename_i idx hFind
    obtain ⟨item, hItem, he⟩ := Option.bind_eq_some_iff.mp he
    obtain ⟨tokens, hTokens, he⟩ := Option.bind_eq_some_iff.mp he
    obtain ⟨push, hPush, he⟩ := Option.bind_eq_some_iff.mp he
    cases he
    obtain ⟨vs, hOld, hVals⟩ := hs.arrays s.context.contextItems (by simp [RuntimeState.arrays])
    cases hItems.symm.trans hOld
    have hSplice : KeepsKind h (s.context.contextItems, .array (items.eraseIdx idx)) :=
      .array ⟨items, hOld, hVals⟩ fun v hv => hVals v (List.mem_of_mem_eraseIdx hv)
    have hDiscarded := hs.arrays s.context.discardedItems (by simp [RuntimeState.arrays])
    refine typedEffect_writes (fun w hw => ?_) rfl rfl rfl rfl
    rcases List.mem_cons.mp hw with rfl | hw
    · exact hSplice
    · rw [List.mem_singleton.mp hw]
      obtain ⟨us, hGet, rfl⟩ := Option.map_eq_some_iff.mp hPush
      refine .array hDiscarded fun u hu => ?_
      rcases List.mem_append.mp hu with hu | hu
      · -- the discarded array may be the context array itself
        by_cases hAlias : s.context.contextItems = s.context.discardedItems
        · rw [arrayAt_eq_some, ← hAlias, writeAll, List.foldl_cons, List.foldl_nil,
            List.getElem?_set_self hSplice.allocated] at hGet
          cases hGet
          exact hVals u (List.mem_of_mem_eraseIdx hu)
        · rw [arrayAt_eq_some, writeAll, List.foldl_cons, List.foldl_nil,
            List.getElem?_set_ne hAlias, ← arrayAt_eq_some] at hGet
          obtain ⟨ds, hds, hRecords⟩ := hDiscarded
          cases hGet.symm.trans hds
          exact hRecords u hu
      · rw [List.mem_singleton.mp hu]
        exact isRecord_of_numberAt hTokens

theorem compressItem_typed {itemId : String} {compressedTokens : ℚ} (hs : WellTyped h s)
    (he : s.compressItem h itemId compressedTokens = some e) : TypedEffect h s e := by
  obtain ⟨items, hItems, he⟩ := Option.bind_eq_some_iff.mp he
  split at he
  · cases he
    exact typedEffect_unchanged rfl (fun v hv => .inl hv) rfl rfl
  · rename_i idx hFind
    obtain ⟨item, hItem, he⟩ := Option.bind_eq_some_iff.mp he
    split at he
    · rename_i item
      obtain ⟨fields, hFields, he⟩ := Option.bind_eq_some_iff.mp he
      obtain ⟨tokens, hTokens, he⟩ := Option.bind_eq_some_iff.mp he
      obtain ⟨push, hPush, he⟩ := Option.bind_eq_some_iff.mp he
      cases he
      have hRecord : IsRecord h (.ref item) := ⟨item, fields, rfl, hFields⟩
      have hCompressed := hs.arrays s.context.compressedItems (by simp [RuntimeState.arrays])
      refine ⟨fun w hw => ?_, rfl, fun v hv => .inl hv, rfl, rfl⟩
      have hKept := kindKept_append h [.record (OrderedMap.write "reclaimedTokens"
        (.num (tokens - compressedTokens))
        (assign fields [("tokens", .num compressedTokens), ("status", .str "COMPRESSED")]))]
      rcases List.mem_cons.mp hw with rfl | hw
      · have hItemKept : KeepsKind h (item, .record (assign fields
          [("tokens", .num compressedTokens), ("status", .str "COMPRESSED")])) := .record hRecord
        exact ⟨hItemKept.allocated, hItemKept.mono hKept⟩
      · rw [List.mem_singleton.mp hw]
        obtain ⟨vs, hOld, hVals⟩ := hCompressed
        obtain ⟨us, hGet, rfl⟩ := Option.map_eq_some_iff.mp hPush
        cases hGet.symm.trans hOld
        refine ⟨(List.getElem?_eq_some_iff.mp (arrayAt_eq_some.mp hOld)).1, ?_⟩
        refine .array (hKept.array _ ⟨_, hOld, hVals⟩) fun u hu => ?_
        rcases List.mem_append.mp hu with hu | hu
        · exact hKept.record u (hVals u hu)
        · rw [List.mem_singleton.mp hu]
          exact ⟨_, _, rfl, recordAt_eq_some.mpr List.getElem?_concat_length⟩
    · cases he

theorem addCandidate_typed {model : Addr} (hs : WellTyped h s)
    (he : s.addCandidate h model = some e) : TypedEffect h s e := by
  obtain ⟨fields, hFields, he⟩ := Option.bind_eq_some_iff.mp he
  obtain ⟨candidates, hCandidates, he⟩ := Option.bind_eq_some_iff.mp he
  split at he
  · rename_i existing hFind
    obtain ⟨old, hOld, he⟩ := Option.bind_eq_some_iff.mp he
    cases he
    refine typedEffect_writes (fun w hw => ?_) rfl rfl rfl rfl
    rw [List.mem_singleton.mp hw]
    exact .record ⟨existing, old, rfl, hOld⟩
  · cases he
  · obtain ⟨push, hPush, he⟩ := Option.bind_eq_some_iff.mp he
    cases he
    refine typedEffect_writes (fun w hw => ?_) rfl rfl rfl rfl
    rw [List.mem_singleton.mp hw]
    exact keepsKind_push hPush (hs.arrays _ (by simp [RuntimeState.arrays]))
      ⟨model, fields, rfl, hFields⟩

theorem addModelCall_typed {record : Addr} {now : ℚ}
    (he : s.addModelCall h record now = some e) : TypedEffect h s e := by
  obtain ⟨fields, hFields, he⟩ := Option.bind_eq_some_iff.mp he
  cases he
  refine typedEffect_unchanged rfl (fun v hv => ?_) rfl rfl
  simp only [RuntimeState.listed, List.mem_append] at hv ⊢
  rcases hv with hv | hv
  · exact .inl (.inl hv)
  · have hCalls : v ∈ s.modelCalls ++ [.ref record] := by
      split at hv
      · exact List.mem_of_mem_tail hv
      · exact hv
    rcases List.mem_append.mp hCalls with hv | hv
    · exact .inl (.inr hv)
    · rw [List.mem_singleton.mp hv]
      exact .inr ⟨record, fields, rfl, hFields⟩

theorem typedEffect_fresh {fields : List (String × Val)} {live : RuntimeState}
    (hArrays : live.arrays = s.arrays)
    (hListed : ∀ v ∈ live.listed, v ∈ s.listed ∨ v = .ref h.length)
    (hMetadata : live.metadata = s.metadata) (hRunId : live.runId = s.runId) :
    TypedEffect h s ⟨[], [.record fields], live⟩ := by
  refine ⟨fun w hw => (by cases hw), hArrays, fun v hv => ?_, hMetadata, hRunId⟩
  rcases hListed v hv with hv | rfl
  · exact .inl hv
  · exact .inr ⟨_, _, rfl, recordAt_eq_some.mpr List.getElem?_concat_length⟩

theorem startStep_typed (stepInfo : List (String × Val)) (now : ℚ) :
    TypedEffect h s (s.startStep h stepInfo now) := by
  refine typedEffect_fresh rfl (fun v hv => ?_) rfl rfl
  simp only [RuntimeState.listed, List.mem_append, List.mem_singleton] at hv ⊢
  tauto

theorem addCost_typed (category : String) (amount : ℚ) (metadata : List (String × Val)) (now : ℚ) :
    TypedEffect h s (s.addCost h category amount metadata now) := by
  refine typedEffect_fresh rfl (fun v hv => ?_) rfl rfl
  simp only [RuntimeState.listed, List.mem_append, List.mem_singleton] at hv ⊢
  tauto

theorem settleStep_keepsKind {updates : List (String × Val)} {writes : List (Addr × Obj)}
    (hw : s.settleStep h updates = some writes) : ∀ w ∈ writes, KeepsKind h w := by
  unfold settleStep at hw
  split at hw
  · cases hw
    intro w hw
    cases hw
  · obtain ⟨fields, hFields, rfl⟩ := Option.map_eq_some_iff.mp hw
    intro w hw
    rw [List.mem_singleton.mp hw]
    exact .record ⟨_, fields, rfl, hFields⟩
  · cases hw

theorem addMemory_typed {refs ref : Addr} (hs : WellTyped h s) (hRefs : refs ∈ s.arrays)
    (he : s.addMemory h refs ref = some e) : TypedEffect h s e := by
  obtain ⟨fields, hFields, he⟩ := Option.bind_eq_some_iff.mp he
  obtain ⟨push, hPush, he⟩ := Option.bind_eq_some_iff.mp he
  cases he
  refine typedEffect_writes (fun w hw => ?_) rfl rfl rfl rfl
  rw [List.mem_singleton.mp hw]
  exact keepsKind_push hPush (hs.arrays _ hRefs) ⟨ref, fields, rfl, hFields⟩

theorem setField_keepsKind {v value : Val} {key : String} {w : Addr × Obj}
    (hw : setField h v key value = some w) : KeepsKind h w := by
  unfold setField at hw
  split at hw
  · obtain ⟨fields, hFields, rfl⟩ := Option.map_eq_some_iff.mp hw
    exact .record ⟨_, fields, rfl, hFields⟩
  · cases hw

theorem effect_typed {op : Op} (hs : WellTyped h s) (he : effect h s op = some e) :
    TypedEffect h s e := by
  cases op with
  | newObject o =>
    cases he
    exact ⟨fun _ hw => (by cases hw), rfl, fun v hv => .inl hv, rfl, rfl⟩
  | addItem item => exact addItem_typed hs he
  | removeItem itemId => exact removeItem_typed hs he
  | compressItem itemId compressedTokens => exact compressItem_typed hs he
  | addCandidate model => exact addCandidate_typed hs he
  | addModelCall record now => exact addModelCall_typed he
  | startStep stepInfo now => cases he; exact startStep_typed stepInfo now
  | completeStep result now =>
    obtain ⟨writes, hw, he⟩ := Option.bind_eq_some_iff.mp he
    cases he
    exact typedEffect_writes (settleStep_keepsKind hw) rfl rfl rfl rfl
  | failStep error now =>
    obtain ⟨writes, hw, he⟩ := Option.bind_eq_some_iff.mp he
    cases he
    exact typedEffect_writes (settleStep_keepsKind hw) rfl rfl rfl rfl
  | addWorkingMemory ref => exact addMemory_typed hs (by simp [RuntimeState.arrays]) he
  | addPersistentMemory ref => exact addMemory_typed hs (by simp [RuntimeState.arrays]) he
  | setMetadata key value | setTaskMetadata key value =>
    obtain ⟨write, hw, he⟩ := Option.bind_eq_some_iff.mp he
    cases he
    refine typedEffect_writes (fun w hMem => ?_) rfl rfl rfl rfl
    exact List.mem_singleton.mp hMem ▸ setField_keepsKind hw
  | setCurrentModel modelId provider reason now =>
    cases he
    exact typedEffect_unchanged rfl (fun v hv => .inl hv) rfl rfl
  | addCost category amount metadata now => cases he; exact addCost_typed category amount metadata now
  | updateStatus status now =>
    cases he
    exact typedEffect_unchanged rfl (fun v hv => .inl hv) rfl rfl

end RuntimeState

end OrchestraAI.State
