import OrchestraAI.Intelligence.SharedLearning

/-! # Flushes of shared learning

A store counts the outcomes that have gone into it, also over a document that it is loaded from.
A flush of the evaluations keeps the newest ones exactly when the rows that it deletes are the
oldest, and a flush of the outcomes loses none exactly when it has those of the last document.
-/

namespace OrchestraAI.Intelligence

open LabelledSystem LastEntries NewestWindow

section Counts

variable {o : Outcome} {v : Option Record}

theorem addOutcome_attempts : (addOutcome v o).counts.attempts =
    (v.map fun r => r.counts.attempts).getD 0 + if o.success.isSome then 1 else 0 := by
  have hOld : (v.getD (newRecord o)).counts.attempts =
      (v.map fun r => r.counts.attempts).getD 0 := by
    cases v <;> rfl
  rw [← hOld]
  change ((v.getD (newRecord o)).countSuccess o).counts.attempts = _
  rw [Record.countSuccess]
  cases o.success <;> rfl

theorem addOutcome_named (ho : o.named = true) (h : ∀ w, v = some w → w.modelId ≠ "") :
    (addOutcome v o).modelId ≠ "" := by
  have hSame : (addOutcome v o).modelId = (v.getD (newRecord o)).modelId := by
    change ((v.getD (newRecord o)).countSuccess o).modelId = _
    rw [Record.countSuccess]
    cases o.success <;> rfl
  rw [hSame]
  cases v with
  | none => exact of_decide_eq_true ho
  | some w => exact h w rfl

end Counts

structure Tallied (records : OrderedMap String Record) (taken : List RunOutcome) : Prop where
  keyed : records.Keyed Record.key
  named : ∀ k r, records.get k = some r → r.modelId ≠ ""
  attempts : ∀ k, ((records.get k).map fun r => r.counts.attempts).getD 0 =
    taken.countP (RunOutcome.counts k)

theorem Tallied.recordOutcome {s : ModelPerformanceStore} {taken : List RunOutcome}
    (h : Tallied s.records taken) (id : Nat) (update : Outcome) :
    Tallied (s.recordOutcome update).records (taken ++ [⟨id, some update⟩]) := by
  rw [ModelPerformanceStore.recordOutcome]
  split
  next hModel =>
    refine ⟨h.keyed, h.named, fun k => ?_⟩
    have hNot : RunOutcome.counts k ⟨id, some update⟩ = false := by
      simp [RunOutcome.counts, Outcome.named, hModel]
    rw [List.countP_append, h.attempts, List.countP_singleton, hNot]
    rfl
  next hModel =>
    have hNamed : update.named = true := by simpa [Outcome.named] using hModel
    constructor
    · intro k r hr
      dsimp only at hr
      rw [OrderedMap.get_set] at hr
      split at hr
      next hKey =>
        cases hr
        exact (addOutcome_key fun w hw => h.keyed _ _ hw).trans hKey.symm
      · exact h.keyed k r hr
    · intro k r hr
      dsimp only at hr
      rw [OrderedMap.get_set] at hr
      split at hr
      · cases hr
        exact addOutcome_named hNamed fun w hw => h.named _ _ hw
      · exact h.named k r hr
    · intro k
      dsimp only
      rw [OrderedMap.get_set, List.countP_append, List.countP_singleton, ← h.attempts]
      split
      next hKey =>
        have hCounts : RunOutcome.counts k ⟨id, some update⟩ = update.success.isSome := by
          simp [RunOutcome.counts, hNamed, Outcome.key, hKey]
        rw [hCounts, hKey]
        exact addOutcome_attempts
      next hKey =>
        have hCounts : RunOutcome.counts k ⟨id, some update⟩ = false := by
          have hOther : ¬ update.key = k := fun hSame => hKey hSame.symm
          simp [RunOutcome.counts, hOther]
        rw [hCounts]
        rfl

theorem find?_values {ν : Type} {key : ν → String} {m : OrderedMap String ν} (h : m.Keyed key)
    (k : String) : m.values.find? (fun v => key v = k) = m.get k := by
  cases hGet : m.get k with
  | none =>
    rw [List.find?_eq_none]
    intro v hv hKey
    have hFound := h.mem_values.mp hv
    rw [of_decide_eq_true hKey, hGet] at hFound
    cases hFound
  | some v =>
    obtain rfl := h k v hGet
    exact find?_key (h.values_map ▸ m.keys_nodup) (h.mem_values.mpr hGet)

theorem find?_map_key {ν : Type} {key : ν → String} {f : ν → ν} (hf : ∀ v, key (f v) = key v)
    (l : List ν) (k : String) :
    (l.map f).find? (fun v => key v = k) = (l.find? fun v => key v = k).map f := by
  rw [List.find?_map]
  congr 2
  funext v
  simp [hf]

/-- A list whose values have keys of their own is found again in the map that is made of it. -/
theorem get_setAll_empty {ν : Type} {key : ν → String} {l : List ν} (h : (l.map key).Nodup)
    (k : String) :
    ((OrderedMap.empty : OrderedMap String ν).setAll key l).get k =
      l.find? fun v => key v = k := by
  cases hGet : ((OrderedMap.empty : OrderedMap String ν).setAll key l).get k with
  | none =>
    rw [OrderedMap.get_eq_none_iff, OrderedMap.mem_keys_setAll] at hGet
    refine (List.find?_eq_none.mpr fun v hv hKey => hGet (.inr ?_)).symm
    exact of_decide_eq_true hKey ▸ List.mem_map_of_mem hv
  | some v =>
    obtain ⟨hv, rfl⟩ | ⟨hNone, -⟩ := OrderedMap.get_setAll hGet
    · exact (find?_key h hv).symm
    · cases hNone

structure IntelligenceStore.Sound (s : IntelligenceStore) : Prop where
  outcomeEvals : s.outcomeEvals = s.taken.rtake MAX_OUTCOME_EVALS
  tallied : Tallied s.performance.records s.taken

structure IntelligenceDoc.Sound (d : IntelligenceDoc) : Prop where
  outcomeEvals : d.outcomeEvals = d.taken.rtake MAX_OUTCOME_EVALS
  keys : (d.performance.records.map Record.key).Nodup
  named : ∀ r ∈ d.performance.records, r.modelId ≠ ""
  attempts : ∀ k, d.performance.attempts k = d.taken.countP (RunOutcome.counts k)

theorem IntelligenceStore.sound_new : IntelligenceStore.new.Sound where
  outcomeEvals := List.drop_nil.symm
  tallied := ⟨fun _ _ h => (nomatch h), fun _ _ h => (nomatch h), fun _ => rfl⟩

theorem IntelligenceStore.Sound.ingest {s : IntelligenceStore} (h : s.Sound) (o : RunOutcome) :
    (s.ingestRunOutcome o).Sound := by
  constructor
  · change (s.outcomeEvals ++ [o]).rtake _ = _
    rw [h.outcomeEvals, rtake_append_rtake]
    rfl
  · obtain ⟨id, update⟩ := o
    cases update with
    | none =>
      refine ⟨h.tallied.keyed, h.tallied.named, fun k => ?_⟩
      change _ = (s.taken ++ [_]).countP _
      rw [List.countP_append]
      exact h.tallied.attempts k
    | some update => exact h.tallied.recordOutcome id update

theorem IntelligenceStore.Sound.dump {s : IntelligenceStore} (h : s.Sound) : s.dump.Sound where
  outcomeEvals := by
    change s.outcomeEvals.rtake _ = _
    rw [h.outcomeEvals, rtake_rtake]
    rfl
  keys := by
    change ((s.performance.records.values.map _).map _).Nodup
    rw [List.map_map]
    exact h.tallied.keyed.values_map ▸ s.performance.records.keys_nodup
  named := by
    intro r hr
    obtain ⟨v, hv, rfl⟩ := List.mem_map.mp hr
    exact h.tallied.named v.key v (h.tallied.keyed.mem_values.mp hv)
  attempts := by
    intro k
    rw [PerformanceDump.attempts]
    change (((s.performance.records.values.map _).find? _).map _).getD 0 = _
    rw [find?_map_key (newest_key _), find?_values h.tallied.keyed, Option.map_map]
    exact h.tallied.attempts k

theorem IntelligenceDoc.Sound.load {d : IntelligenceDoc} (h : d.Sound) :
    (IntelligenceStore.load d).Sound := by
  have hAll : d.performance.records.filter (fun r => r.modelId ≠ "") = d.performance.records :=
    List.filter_eq_self.mpr fun r hr => decide_eq_true (h.named r hr)
  have hRecords : (ModelPerformanceStore.load d.performance).records =
      OrderedMap.empty.setAll Record.key (d.performance.records.map loadRecord) := by
    rw [ModelPerformanceStore.load]
    dsimp only
    rw [hAll, OrderedMap.setAll, List.foldl_map]
    simp only [loadRecord_key]
  have hKeys : ((d.performance.records.map loadRecord).map Record.key).Nodup := by
    rw [List.map_map]
    exact (List.map_congr_left fun r _ => loadRecord_key r) ▸ h.keys
  have hGet (k : String) : (ModelPerformanceStore.load d.performance).records.get k =
      (d.performance.records.find? fun r => r.key = k).map loadRecord := by
    rw [hRecords, get_setAll_empty hKeys, find?_map_key loadRecord_key]
  constructor
  · change d.outcomeEvals.rtake _ = _
    rw [h.outcomeEvals, rtake_rtake]
    rfl
  · constructor
    · change (ModelPerformanceStore.load d.performance).records.Keyed Record.key
      rw [hRecords]
      exact OrderedMap.keyed_empty.setAll
    · intro k r hr
      obtain ⟨v, hv, rfl⟩ := Option.map_eq_some_iff.mp ((hGet k).symm.trans hr)
      exact h.named v (List.mem_of_find?_eq_some hv)
    · intro k
      change (((ModelPerformanceStore.load d.performance).records.get k).map _).getD 0 = _
      rw [hGet, Option.map_map]
      exact h.attempts k

def Numbered (recorded : List Evaluation) : Prop :=
  recorded.map Evaluation.id = List.range recorded.length

structure Listed (recorded l : List Evaluation) : Prop where
  nodup : l.Nodup
  length_le : l.length ≤ MAX_EVALS
  mem : ∀ e ∈ l, e ∈ recorded

section Table

variable {recorded l table : List Evaluation} {e e' : Evaluation}

theorem Numbered.concat (h : Numbered recorded) (runId : String) :
    Numbered (recorded ++ [⟨recorded.length, runId⟩]) := by
  rw [Numbered, List.map_append, h, List.length_append]
  exact List.range_succ.symm

theorem Numbered.nodup_ids (h : Numbered recorded) : (recorded.map Evaluation.id).Nodup :=
  h ▸ List.nodup_range

theorem Numbered.eq_of_id (h : Numbered recorded) (he : e ∈ recorded) (he' : e' ∈ recorded)
    (hId : e.id = e'.id) : e = e' := List.inj_on_of_nodup_map h.nodup_ids he he' hId

theorem Numbered.map_nodup (h : Numbered recorded) (hl : l.Nodup) (hMem : ∀ e ∈ l, e ∈ recorded) :
    (l.map Evaluation.id).Nodup :=
  hl.map_on fun e he e' he' => h.eq_of_id (hMem e he) (hMem e' he')

theorem Listed.mono (h : Listed recorded l) (e : Evaluation) : Listed (recorded ++ [e]) l :=
  ⟨h.nodup, h.length_le, fun e he => List.mem_append_left _ (h.mem e he)⟩

theorem Listed.rtake (hl : l.Nodup) (hMem : ∀ e ∈ l, e ∈ recorded) :
    Listed recorded (l.rtake MAX_EVALS) :=
  ⟨hl.sublist (List.drop_sublist _ _), length_rtake_le l _, fun e he =>
    hMem e (mem_of_mem_rtake he)⟩

theorem Listed.record (hNumbered : Numbered recorded) (h : Listed recorded l) (runId : String) :
    Listed (recorded ++ [.mk recorded.length runId])
      ((l ++ [Evaluation.mk recorded.length runId]).rtake MAX_EVALS) := by
  apply Listed.rtake
  · rw [List.nodup_append_comm, List.singleton_append, List.nodup_cons]
    refine ⟨fun he => ?_, h.nodup⟩
    have hId : recorded.length ∈ List.range recorded.length :=
      hNumbered ▸ List.mem_map_of_mem (f := Evaluation.id) (h.mem _ he)
    exact absurd (List.mem_range.mp hId) (lt_irrefl _)
  · intro e he
    exact List.mem_append.mpr ((List.mem_append.mp he).imp_left (h.mem e))

theorem insertEvaluation_rows (hNumbered : Numbered recorded) (hTable : table.Nodup)
    (hTableMem : ∀ e ∈ table, e ∈ recorded) (hMem : ∀ e ∈ l, e ∈ recorded) :
    (l.foldl insertEvaluation table).Nodup ∧
      ∀ e, e ∈ l.foldl insertEvaluation table ↔ e ∈ table ∨ e ∈ l := by
  induction l generalizing table with
  | nil => exact ⟨hTable, fun e => (or_iff_left List.not_mem_nil).symm⟩
  | cons a l ih =>
    obtain ⟨ha, hRest⟩ := List.forall_mem_cons.mp hMem
    rw [List.foldl_cons, insertEvaluation]
    split
    next hOld =>
      obtain ⟨b, hb, hId⟩ := List.mem_map.mp hOld
      obtain rfl := hNumbered.eq_of_id (hTableMem b hb) ha hId
      obtain ⟨hNodup, hAll⟩ := ih hTable hTableMem hRest
      refine ⟨hNodup, fun e => ?_⟩
      rw [hAll, List.mem_cons]
      constructor
      · exact Or.imp_right .inr
      · rintro (he | rfl | he)
        · exact .inl he
        · exact .inl hb
        · exact .inr he
    next hNew =>
      have hNot : a ∉ table := fun hOld => hNew (List.mem_map_of_mem hOld)
      have hNodup : (table ++ [a]).Nodup := by
        rw [List.nodup_append_comm]
        exact List.nodup_cons.mpr ⟨hNot, hTable⟩
      have hAllRecorded : ∀ e ∈ table ++ [a], e ∈ recorded := by
        intro e he
        obtain he | he := List.mem_append.mp he
        · exact hTableMem e he
        · exact List.mem_singleton.mp he ▸ ha
      obtain ⟨hRows, hAll⟩ := ih hNodup hAllRecorded hRest
      refine ⟨hRows, fun e => ?_⟩
      rw [hAll, List.mem_append, List.mem_singleton, List.mem_cons, or_assoc]

theorem insertEvals_rows (hNumbered : Numbered recorded) (hTable : Listed recorded table)
    (hList : Listed recorded l) : (insertEvals table l).Nodup ∧
      ∀ e, e ∈ insertEvals table l ↔ e ∈ table ∨ e ∈ l := by
  rw [insertEvals, rtake_of_length_le hList.length_le]
  exact insertEvaluation_rows hNumbered hTable.nodup hTable.mem hList.mem

end Table

def LearningWrite.Sound (recorded : List Evaluation) : LearningWrite → Prop
  | .appendEvals list => Listed recorded list
  | .saveIntelligence doc => doc.Sound

structure LearningInstance.Sound (recorded : List Evaluation) (x : LearningInstance) : Prop where
  list : Listed recorded x.evaluations.evals
  store : x.intelligence.Sound

section Writes

variable {ι : Type}

structure LearningSound (s : SharedLearning ι) : Prop where
  numbered : Numbered s.recorded
  instances : ∀ i, (s.instances i).Sound s.recorded
  table : Listed s.recorded s.evaluations
  flushed_nodup : s.flushed.Nodup
  flushed : ∀ e ∈ s.flushed, e ∈ s.recorded
  writes : ∀ w ∈ s.writes, w.Sound s.recorded
  document : ∀ d, s.document = some d → d.Sound
  contained : ∀ d, s.document = some d → ∀ o ∈ d.taken, o ∈ s.contained

variable {s t : SharedLearning ι}

theorem nodup_append_filter {α : Type} [DecidableEq α] {l m : List α} (hl : l.Nodup)
    (hm : m.Nodup) : (l ++ m.filter fun a => a ∉ l).Nodup := by
  refine List.Nodup.append hl (hm.filter _) fun a ha hNew => ?_
  exact of_decide_eq_true (List.mem_filter.mp hNew).2 ha

theorem mem_append_filter {α : Type} [DecidableEq α] {l m : List α} {a : α} :
    a ∈ (l ++ m.filter fun a => a ∉ l) ↔ a ∈ l ∨ a ∈ m := by
  rw [List.mem_append, List.mem_filter, decide_eq_true_iff]
  tauto

theorem newest_appendEvals_iff (h : LearningSound s) {list : List Evaluation}
    (hList : Listed s.recorded list)
    (hKept : Newest Evaluation.id MAX_EVALS s.flushed s.evaluations) :
    Newest Evaluation.id MAX_EVALS (s.flushed ++ list.filter fun e => e ∉ s.flushed)
        (appendEvals s.evaluations list) ↔ KeepsOrder s (.appendEvals list) := by
  obtain ⟨hNodup, hRows⟩ := insertEvals_rows h.numbered h.table hList
  have hRecorded : ∀ e ∈ insertEvals s.evaluations list, e ∈ s.recorded := fun e he =>
    ((hRows e).mp he).elim (h.table.mem e) (hList.mem e)
  have hAllRecorded : ∀ e ∈ s.flushed ++ list.filter fun e => e ∉ s.flushed, e ∈ s.recorded :=
    fun e he => (mem_append_filter.mp he).elim (h.flushed e) (hList.mem e)
  have hAll := hKept.added
    (h.numbered.map_nodup (nodup_append_filter h.flushed_nodup hList.nodup) hAllRecorded)
    h.flushed_nodup hNodup (fun e => mem_append_filter) hRows
  rw [KeepsOrder, ← newest_rtake_iff (h.numbered.map_nodup hNodup hRecorded)]
  exact forall_congr' fun e => by rw [hAll e]; rfl

theorem LearningSound.write (h : LearningSound s) {w : LearningWrite} (hw : w.Sound s.recorded) :
    LearningSound (s.write w) := by
  cases w with
  | appendEvals list =>
    obtain ⟨hNodup, hRows⟩ := insertEvals_rows h.numbered h.table hw
    refine ⟨h.numbered, h.instances, ?_, ?_, ?_, h.writes, h.document, h.contained⟩
    · exact Listed.rtake hNodup fun e he => ((hRows e).mp he).elim (h.table.mem e) (hw.mem e)
    · exact nodup_append_filter h.flushed_nodup hw.nodup
    · exact fun e he => (mem_append_filter.mp he).elim (h.flushed e) (hw.mem e)
  | saveIntelligence doc =>
    refine ⟨h.numbered, h.instances, h.table, h.flushed_nodup, h.flushed, h.writes, ?_, ?_⟩
    · rintro d ⟨⟩
      exact hw
    · rintro d ⟨⟩ o ho
      exact List.mem_append_right _ ho

theorem kept_write_iff (h : LearningSound s) (hKept : LearningKept s) {w : LearningWrite}
    (hw : w.Sound s.recorded) : LearningKept (s.write w) ↔ KeepsOrder s w := by
  cases w with
  | appendEvals list =>
    rw [← newest_appendEvals_iff h hw hKept.evaluations]
    exact ⟨fun hNext => hNext.evaluations, fun hNewest => ⟨hNewest, hKept.outcomes⟩⟩
  | saveIntelligence doc =>
    constructor
    · intro hNext old hOld o ho
      obtain ⟨d, hd, hReflects⟩ :=
        hNext.outcomes o (List.mem_append_left _ (h.contained old hOld o ho))
      cases hd
      exact hReflects.taken
    · intro hOrder
      refine ⟨hKept.evaluations, fun o ho => ⟨doc, rfl, ?_, hw.outcomeEvals, hw.attempts⟩⟩
      obtain ho | ho := List.mem_append.mp ho
      · obtain ⟨old, hOld, hReflects⟩ := hKept.outcomes o ho
        exact hOrder old hOld o hReflects.taken
      · exact ho

end Writes

section Runs

variable {ι : Type} {s t : SharedLearning ι}

theorem LearningWrite.Sound.mono {recorded : List Evaluation} {w : LearningWrite}
    (h : w.Sound recorded) (e : Evaluation) : w.Sound (recorded ++ [e]) := by
  cases w with
  | appendEvals list => exact Listed.mono h e
  | saveIntelligence doc => exact h

theorem LearningInstance.Sound.mono {recorded : List Evaluation} {x : LearningInstance}
    (h : x.Sound recorded) (e : Evaluation) : x.Sound (recorded ++ [e]) :=
  ⟨h.list.mono e, h.store⟩

theorem LearningSound.boot (h : LearningSound s) :
    (LearningInstance.boot s.evaluations s.document).Sound s.recorded := by
  constructor
  · change Listed s.recorded ((s.evaluations.rtake _).rtake _)
    rw [rtake_rtake]
    exact .rtake h.table.nodup h.table.mem
  · cases hDoc : s.document with
    | none => exact IntelligenceStore.sound_new
    | some doc => exact (h.document doc hDoc).load

theorem LearningSound.sent (h : LearningSound s) {w : LearningWrite} (hw : w.Sound s.recorded) :
    LearningSound { s with writes := s.writes ++ [w] } := by
  refine ⟨h.numbered, h.instances, h.table, h.flushed_nodup, h.flushed, ?_, h.document, h.contained⟩
  intro v hv
  obtain hv | hv := List.mem_append.mp hv
  · exact h.writes v hv
  · exact List.mem_singleton.mp hv ▸ hw

theorem LearningSound.dropped (h : LearningSound s) (n : Nat) :
    LearningSound { s with writes := s.writes.eraseIdx n } :=
  ⟨h.numbered, h.instances, h.table, h.flushed_nodup, h.flushed,
    fun w hw => h.writes w (List.mem_of_mem_eraseIdx hw), h.document, h.contained⟩

variable [DecidableEq ι]

theorem LearningInstance.Sound.update {recorded : List Evaluation} {f : ι → LearningInstance}
    {x : LearningInstance} (hx : x.Sound recorded) (hf : ∀ j, (f j).Sound recorded) (i : ι) :
    ∀ j, (Function.update f i x j).Sound recorded :=
  (Function.forall_update_iff f fun _ y => LearningInstance.Sound recorded y).mpr
    ⟨hx, fun j _ => hf j⟩

theorem LearningSound.step (h : LearningSound s) {op : LearningOp ι}
    (hStep : learningStep s op = some t) : LearningSound t := by
  cases op with
  | booted i =>
    obtain rfl := Option.some.inj hStep
    exact ⟨h.numbered, h.boot.update h.instances i, h.table, h.flushed_nodup, h.flushed, h.writes,
      h.document, h.contained⟩
  | recorded i runId update =>
    obtain rfl := Option.some.inj hStep
    refine ⟨h.numbered.concat runId, ?_, h.table.mono _, h.flushed_nodup,
      fun e he => List.mem_append_left _ (h.flushed e he), fun w hw => (h.writes w hw).mono _,
      h.document, h.contained⟩
    apply LearningInstance.Sound.update
    · exact ⟨(h.instances i).list.record h.numbered runId, (h.instances i).store.ingest _⟩
    · exact fun j => (h.instances j).mono _
  | evalsSent i =>
    obtain rfl := Option.some.inj hStep
    exact h.sent (h.instances i).list
  | intelligenceSent i =>
    obtain rfl := Option.some.inj hStep
    exact h.sent (h.instances i).store.dump
  | reached n =>
    obtain ⟨w, hw, rfl⟩ := Option.map_eq_some_iff.mp hStep
    exact (h.dropped n).write (h.writes w (List.mem_of_getElem? hw))
  | lost n =>
    obtain ⟨w, -, rfl⟩ := Option.map_eq_some_iff.mp hStep
    exact h.dropped n

omit [DecidableEq ι] in
theorem noLearning_sound : LearningSound (noLearning : SharedLearning ι) where
  numbered := rfl
  instances _ :=
    ⟨⟨List.nodup_nil, Nat.zero_le _, fun _ h => nomatch h⟩, IntelligenceStore.sound_new⟩
  table := ⟨List.nodup_nil, Nat.zero_le _, fun _ h => nomatch h⟩
  flushed_nodup := List.nodup_nil
  flushed _ h := nomatch h
  writes _ h := nomatch h
  document _ h := nomatch h
  contained _ h := nomatch h

omit [DecidableEq ι] in
theorem noLearning_kept : LearningKept (noLearning : SharedLearning ι) where
  evaluations _ := ⟨fun h => (nomatch h), fun h => (nomatch h.1)⟩
  outcomes _ h := nomatch h

theorem keptAfter_iff (h : LearningSound s) (hKept : LearningKept s) (op : LearningOp ι) :
    KeptAfter s op ↔ FlushesInOrder s op := by
  have hSame {op : LearningOp ι} (hOp : ∀ t, learningStep s op = some t →
      t.evaluations = s.evaluations ∧ t.flushed = s.flushed ∧ t.document = s.document ∧
        t.contained = s.contained) : KeptAfter s op := by
    intro t ht
    obtain ⟨hTable, hFlushed, hDocument, hContained⟩ := hOp t ht
    constructor
    · rw [hTable, hFlushed]
      exact hKept.evaluations
    · rw [hDocument, hContained]
      exact hKept.outcomes
  cases op with
  | booted i | recorded i runId update | evalsSent i | intelligenceSent i =>
    refine iff_of_true (hSame ?_) trivial
    rintro t ⟨⟩
    exact ⟨rfl, rfl, rfl, rfl⟩
  | lost n =>
    refine iff_of_true (hSame ?_) trivial
    intro t ht
    obtain ⟨w, -, rfl⟩ := Option.map_eq_some_iff.mp ht
    exact ⟨rfl, rfl, rfl, rfl⟩
  | reached n =>
    have hRest : LearningKept { s with writes := s.writes.eraseIdx n } :=
      ⟨hKept.evaluations, hKept.outcomes⟩
    have hWrite {w : LearningWrite} (hw : s.writes[n]? = some w) :
        LearningKept (({ s with writes := s.writes.eraseIdx n }).write w) ↔ KeepsOrder s w := by
      rw [kept_write_iff (h.dropped n) hRest (h.writes w (List.mem_of_getElem? hw))]
      cases w <;> rfl
    constructor
    · intro hAfter w hw
      exact (hWrite hw).mp (hAfter _ (Option.map_eq_some_iff.mpr ⟨w, hw, rfl⟩))
    · intro hOrder t ht
      obtain ⟨w, hw, rfl⟩ := Option.map_eq_some_iff.mp ht
      exact (hWrite hw).mpr (hOrder w hw)

/-- Every state of a run keeps the newest evaluations and every outcome exactly when its flushes
keep to the order. -/
theorem learning_kept_iff (ops : List (LearningOp ι)) :
    Along learningStep KeptAfter noLearning ops ↔
      Along learningStep FlushesInOrder noLearning ops := by
  apply along_congr (I := fun s => LearningSound s ∧ LearningKept s)
  · rintro s op ⟨hSound, hKept⟩
    exact ⟨keptAfter_iff hSound hKept op, fun t ht hAfter => ⟨hSound.step ht, hAfter t ht⟩⟩
  · exact ⟨noLearning_sound, noLearning_kept⟩

end Runs

theorem foldl_insertEvaluation_new {table l : List Evaluation}
    (h : ((table ++ l).map Evaluation.id).Nodup) : l.foldl insertEvaluation table = table ++ l := by
  induction l generalizing table with
  | nil => exact (List.append_nil table).symm
  | cons e l ih =>
    have hNew : e.id ∉ table.map Evaluation.id := by
      rw [List.map_append, List.map_cons] at h
      exact fun he => List.disjoint_of_nodup_append h he List.mem_cons_self
    rw [List.append_cons] at h ⊢
    rw [List.foldl_cons, insertEvaluation, if_neg hNew, ih h]

theorem appendEvals_new {table l : List Evaluation} (hLength : l.length ≤ MAX_EVALS)
    (h : ((table ++ l).map Evaluation.id).Nodup) :
    appendEvals table l = (table ++ l).rtake MAX_EVALS := by
  rw [appendEvals, insertEvals, rtake_of_length_le hLength, foldl_insertEvaluation_new h]

theorem run_recorded {ι : Type} [DecidableEq ι] (i : ι) (runId : String) (n : Nat)
    (s : SharedLearning ι) (h : (s.instances i).evaluations.evals.length + n ≤ MAX_EVALS) :
    ∃ t, (∀ ops, run learningStep s (List.replicate n (.recorded i runId none) ++ ops) =
        run learningStep t ops) ∧
      (t.instances i).evaluations.evals = (s.instances i).evaluations.evals ++
        (List.range' s.recorded.length n).map (fun id => ⟨id, runId⟩) ∧
      (∀ j ≠ i, t.instances j = s.instances j) ∧ t.evaluations = s.evaluations ∧
      t.writes = s.writes ∧ t.flushed = s.flushed := by
  induction n generalizing s with
  | zero => exact ⟨s, fun _ => rfl, (List.append_nil _).symm, fun _ _ => rfl, rfl, rfl, rfl⟩
  | succ n ih =>
    let s' : SharedLearning ι :=
      { s with
        recorded := s.recorded ++ [⟨s.recorded.length, runId⟩]
        instances := Function.update s.instances i
          ⟨(s.instances i).evaluations.record ⟨s.recorded.length, runId⟩,
            (s.instances i).intelligence.ingestRunOutcome ⟨s.recorded.length, none⟩⟩ }
    have hList : (s'.instances i).evaluations.evals =
        (s.instances i).evaluations.evals ++ [⟨s.recorded.length, runId⟩] := by
      change (Function.update s.instances i _ i).evaluations.evals = _
      rw [Function.update_self]
      apply rtake_of_length_le
      rw [List.length_append, List.length_singleton]
      omega
    obtain ⟨t, hRun, hEvals, hOthers, hTable, hWrites, hFlushed⟩ := ih s' (by
      rw [hList, List.length_append, List.length_singleton]
      omega)
    refine ⟨t, hRun, ?_, fun j hj => ?_, hTable, hWrites, hFlushed⟩
    · rw [hEvals, hList, List.append_assoc]
      rw [List.range'_succ, List.map_cons]
      simp [s']
    · rw [hOthers j hj]
      exact Function.update_of_ne hj _ _

theorem run_flush {ι : Type} [DecidableEq ι] {s : SharedLearning ι} (h : s.writes = []) (i : ι)
    (ops : List (LearningOp ι)) :
    run learningStep s (.evalsSent i :: .reached 0 :: ops) =
      run learningStep (s.write (.appendEvals (s.instances i).evaluations.evals)) ops := by
  obtain ⟨instances, evaluations, document, writes, recorded, flushed, contained⟩ := s
  obtain rfl : writes = [] := h
  rfl

/-- The first instance flushes its list again after 200 evaluations of the second. -/
def oldFlush : List (LearningOp Bool) :=
  [.recorded false "first" none, .evalsSent false, .reached 0] ++
    List.replicate 200 (.recorded true "next" none) ++
    [.evalsSent true, .reached 0, .evalsSent false, .reached 0]

theorem oldFlush_loses : ∃ s, run learningStep noLearning oldFlush = some s ∧
    Evaluation.mk 1 "next" ∈ s.flushed ∧ newer Evaluation.id s.flushed 1 < MAX_EVALS ∧
      Evaluation.mk 1 "next" ∉ s.evaluations := by
  let old : Evaluation := ⟨0, "first"⟩
  let rows : List Evaluation := (List.range' 1 200).map fun id => ⟨id, "next"⟩
  let first : SharedLearning Bool :=
    { instances := Function.update (fun _ => ⟨.new, .new⟩) false
        ⟨⟨[old]⟩, .ingestRunOutcome .new ⟨0, none⟩⟩
      evaluations := [old]
      document := none
      writes := []
      recorded := [old]
      flushed := [old]
      contained := [] }
  have hFirst : ∀ ops, run learningStep noLearning
      (.recorded false "first" none :: .evalsSent false :: .reached 0 :: ops) =
        run learningStep first ops := by
    intro ops
    with_unfolding_all rfl
  obtain ⟨t, hRun, hRows, hOthers, hTable, hWrites, hFlushed⟩ :=
    run_recorded true "next" 200 first (by decide +kernel)
  have hOld : (t.instances false).evaluations.evals = [old] := by
    rw [hOthers false Bool.false_ne_true]
    rfl
  have hIds : (old :: rows).map Evaluation.id = List.range 201 := by decide +kernel
  have hNodup : ((old :: rows).map Evaluation.id).Nodup := hIds ▸ List.nodup_range
  have hNew : old ∉ rows := fun h => (List.nodup_cons.mp hNodup).1 (List.mem_map_of_mem h)
  have hLength : rows.length = MAX_EVALS := by decide +kernel
  have hNewest : appendEvals [old] rows = rows := by
    rw [appendEvals_new hLength.le hNodup, List.rtake, List.length_append, hLength,
      List.length_singleton, Nat.add_sub_cancel]
    rfl
  have hSwapped : ((rows ++ [old]).map Evaluation.id).Nodup := by
    rw [List.map_append]
    exact List.nodup_append_comm.mp hNodup
  have hAgain : appendEvals rows [old] = rows.tail ++ [old] := by
    rw [appendEvals_new (by decide +kernel) hSwapped, List.rtake, List.length_append, hLength,
      List.length_singleton, Nat.add_sub_cancel_left]
    rfl
  have hFilter : (rows.filter fun e => e ∉ [old]) = rows := by
    apply List.filter_eq_self.mpr
    intro e he
    exact decide_eq_true fun h => hNew (List.mem_singleton.mp h ▸ he)
  let full : SharedLearning Bool := { t with evaluations := rows, flushed := old :: rows }
  have hFull : t.write (.appendEvals rows) = full := by
    rw [SharedLearning.write, hTable, hFlushed]
    change { t with evaluations := appendEvals [old] rows, flushed := [old] ++ _ } = full
    rw [hNewest, hFilter]
    rfl
  have hFullWrites : full.writes = [] := hWrites
  have hSame : (full.write (.appendEvals [old])).flushed = old :: rows := by
    change (old :: rows) ++ [old].filter (fun e => e ∉ old :: rows) = _
    rw [List.filter_cons_of_neg (by simp), List.filter_nil, List.append_nil]
  have hNewer : newer Evaluation.id (old :: rows) 1 < MAX_EVALS := by decide +kernel
  have hLost : 1 ∉ (rows.tail ++ [old]).map Evaluation.id := by decide +kernel
  refine ⟨full.write (.appendEvals [old]), (hFirst _).trans ((hRun _).trans ?_), ?_, ?_, ?_⟩
  · rw [run_flush hWrites, hRows]
    change run learningStep (t.write (.appendEvals rows)) _ = _
    rw [hFull, run_flush hFullWrites]
    change some (full.write (.appendEvals (t.instances false).evaluations.evals)) = _
    rw [hOld]
  · rw [hSame]
    exact List.mem_cons_of_mem _ (List.mem_map_of_mem (List.mem_range'_1.mpr (by omega)))
  · rw [hSame]
    exact hNewer
  · change _ ∉ appendEvals rows [old]
    rw [hAgain]
    exact fun h => hLost (List.mem_map_of_mem h)

def ownDocuments : List (LearningOp Bool) :=
  [.recorded false "first" none, .intelligenceSent false, .reached 0,
    .recorded true "next" none, .intelligenceSent true, .reached 0]

/-- The second flush deletes the oldest of the 200 newer evaluations, and the second document has
nothing of the first. -/
theorem shared_learning_lost :
    (¬ ∀ (ops : List (LearningOp Bool)) s, run learningStep noLearning ops = some s →
      Newest Evaluation.id MAX_EVALS s.flushed s.evaluations) ∧
    ¬ ∀ (ops : List (LearningOp Bool)) s, run learningStep noLearning ops = some s →
      ∀ o ∈ s.contained, ∃ doc, s.document = some doc ∧ Reflects doc o := by
  constructor
  · intro h
    obtain ⟨s, hs, hFlushed, hNewest, hNot⟩ := oldFlush_loses
    exact hNot ((h oldFlush s hs _).mpr ⟨hFlushed, hNewest⟩)
  · intro h
    have hRun : (run learningStep noLearning ownDocuments).map (fun s =>
        (s.contained.map RunOutcome.id, s.document.map fun d => d.taken.map RunOutcome.id)) =
          some ([0, 1], some [1]) := by
      decide +kernel
    obtain ⟨s, hs, hFinal⟩ := Option.map_eq_some_iff.mp hRun
    obtain ⟨hContained, hDocument⟩ := Prod.mk.inj hFinal
    obtain ⟨o, ho, hId⟩ : ∃ o ∈ s.contained, o.id = 0 :=
      List.mem_map.mp (hContained ▸ List.mem_cons_self)
    obtain ⟨doc, hDoc, hReflects⟩ := h ownDocuments s hs o ho
    rw [hDoc, Option.map_some, Option.some_inj] at hDocument
    have hMem : o.id ∈ doc.taken.map RunOutcome.id := List.mem_map_of_mem hReflects.taken
    rw [hDocument, hId] at hMem
    exact absurd hMem (by decide)

end OrchestraAI.Intelligence
