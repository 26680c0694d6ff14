import OrchestraAI.Intelligence.PerformanceStore
import OrchestraAI.Library.GroupedFold

/-! # Histories of outcomes

What the store has under a key comes from the outcomes under this key alone. The next process
finds it there if the key is among the 500 that were opened last.

`dump` and `load` of the store, and between them `saveIntelligence` and `loadIntelligence` of
`persistence.js` with `pruneIntelligenceDoc`. The other collections of the document are left out;
its text may be too large to be written for their sake as well.
-/

namespace OrchestraAI.Intelligence

open OrchestraAI.Core (cut)
open OrchestraAI.Recovery (truthy)
open GroupedFold LastEntries

structure PerformanceDump where
  records : List Record
  reliability : List Reliability

@[irreducible] def GENERIC_ARRAY_CAP : Nat := 500

def Record.newest (n : Nat) (r : Record) : Record :=
  { r with latencySamples := r.latencySamples.rtake n }

def pruneIntelligenceDoc (doc : PerformanceDump) : PerformanceDump where
  records := (doc.records.rtake GENERIC_ARRAY_CAP).map (Record.newest GENERIC_ARRAY_CAP)
  reliability := doc.reliability.rtake GENERIC_ARRAY_CAP

def saveIntelligence (tooLarge : PerformanceDump → Bool) (file : Option PerformanceDump)
    (doc : PerformanceDump) : Option PerformanceDump :=
  if tooLarge (pruneIntelligenceDoc doc) then file else some (pruneIntelligenceDoc doc)

def sanitizeWorkloads (raw : OrderedMap String Slice) : OrderedMap String Slice :=
  (raw.entries.take 50).foldl (fun out e => out.set (cut 160 e.1) e.2) .empty

def Record.key (r : Record) : String := recordKey r.modelId r.category r.tenantId

def Reliability.key (rel : Reliability) : String := reliabilityKey rel.modelId rel.tenantId

def loadRecord (r : Record) : Record :=
  { r with
    category := orGeneral r.category
    tenantId := truthy r.tenantId
    latencySamples := r.latencySamples.rtake MAX_LATENCY_SAMPLES
    workloads := sanitizeWorkloads r.workloads }

def loadReliability (rel : Reliability) : Reliability :=
  { rel with tenantId := truthy (some (tenantOf rel.tenantId)) }

namespace ModelPerformanceStore

def dump (s : ModelPerformanceStore) : PerformanceDump where
  records := s.records.values.map (Record.newest MAX_LATENCY_SAMPLES)
  reliability := s.reliability.values

def load (data : PerformanceDump) : ModelPerformanceStore where
  records :=
    (data.records.filter fun r => r.modelId ≠ "").foldl
      (fun m r => m.set r.key (loadRecord r)) .empty
  reliability :=
    (data.reliability.filter fun rel => rel.modelId ≠ "").foldl
      (fun m rel => m.set rel.key (loadReliability rel)) .empty

def restart (tooLarge : PerformanceDump → Bool) (file : Option PerformanceDump)
    (s : ModelPerformanceStore) : ModelPerformanceStore :=
  ((saveIntelligence tooLarge file s.dump).map load).getD new

def after (history : List Outcome) : ModelPerformanceStore := history.foldl recordOutcome new

end ModelPerformanceStore

theorem cut_cut (n : Nat) (text : String) : cut n (cut n text) = cut n text := by
  rw [cut, cut, String.toList_ofList, Text.sliceUnits_sliceUnits]

theorem getD_truthy (text : String) : (truthy (some text)).getD "" = text := by
  by_cases h : text = ""
  · rw [h]
    rfl
  · rw [truthy, Option.filter_some, if_pos (by simpa using h)]
    rfl

@[simp] theorem tenantOf_truthy (tenantId : Option String) :
    tenantOf (truthy (some (tenantOf tenantId))) = tenantOf tenantId := by
  rw [tenantOf, getD_truthy, tenantOf, cut_cut]

theorem truthy_idem (word : Option String) : truthy (truthy word) = truthy word := by
  rw [truthy, truthy, Option.filter_filter]
  congr 1
  funext w
  exact Bool.and_self _

@[simp] theorem orGeneral_idem (category : String) :
    orGeneral (orGeneral category) = orGeneral category := by
  by_cases h : category = ""
  · rw [h]
    rfl
  · simp only [orGeneral, if_neg h]

section After

def Outcome.key (o : Outcome) : String := recordKey o.modelId o.category o.tenant

def Outcome.errorKey (o : Outcome) : String := reliabilityKey o.modelId o.tenant

def Outcome.named (o : Outcome) : Bool := o.modelId ≠ ""

def Outcome.erred (o : Outcome) : Bool := o.named && (truthy o.errorCode).isSome

namespace ModelPerformanceStore

theorem after_concat (h : List Outcome) (o : Outcome) :
    after (h ++ [o]) = (after h).recordOutcome o := List.foldl_concat ..

theorem records_after (h : List Outcome) :
    (after h).records = collect Outcome.key addOutcome (h.filter Outcome.named) := by
  induction h using List.reverseRecOn with
  | nil => rfl
  | append_singleton h o ih =>
    rw [after_concat, List.filter_append, recordOutcome]
    split
    · rename_i hModel
      have hNot : ¬ o.named = true := by simpa [Outcome.named] using hModel
      rw [List.filter_cons_of_neg hNot, List.filter_nil, List.append_nil]
      exact ih
    · rename_i hModel
      have hNamed : o.named = true := by simpa [Outcome.named] using hModel
      rw [List.filter_cons_of_pos hNamed, List.filter_nil, collect_concat, ← ih]
      rfl

theorem reliability_after (h : List Outcome) :
    (after h).reliability = collect Outcome.errorKey addReliability (h.filter Outcome.erred) := by
  induction h using List.reverseRecOn with
  | nil => rfl
  | append_singleton h o ih =>
    rw [after_concat, List.filter_append]
    cases hErred : o.erred with
    | false =>
      have hNot : ¬ o.erred = true := by simp [hErred]
      rw [List.filter_cons_of_neg hNot, List.filter_nil, List.append_nil, ← ih, recordOutcome]
      split
      · rfl
      · rename_i hModel
        have hCode : ¬ (truthy o.errorCode).isSome = true := by
          simpa [Outcome.erred, Outcome.named, hModel] using hErred
        exact if_neg hCode
    | true =>
      obtain ⟨hModel, hCode⟩ : o.modelId ≠ "" ∧ (truthy o.errorCode).isSome = true := by
        simpa [Outcome.erred, Outcome.named] using hErred
      rw [List.filter_cons_of_pos hErred, List.filter_nil, collect_concat, ← ih, recordOutcome,
        if_neg hModel]
      exact if_pos hCode

end ModelPerformanceStore

end After

structure Record.Sound (r : Record) : Prop where
  named : r.modelId ≠ ""
  category : orGeneral r.category = r.category
  tenantId : truthy r.tenantId = r.tenantId
  successes : r.counts.attempts = 0 → r.counts.successes = 0
  workloads : r.counts.attempts = 0 → r.workloads = .empty
  samples : ∀ v ∈ r.latencySamples, 0 ≤ v
  length : r.latencySamples.length ≤ MAX_LATENCY_SAMPLES

section Sound

variable {o : Outcome} {r : Record}

theorem newRecord_key (o : Outcome) : (newRecord o).key = o.key := by
  simp only [Record.key, newRecord, recordKey, tenantOf_truthy, orGeneral_idem, Outcome.key]

theorem newRecord_sound (h : o.named = true) : (newRecord o).Sound where
  named := by simpa [Outcome.named, newRecord] using h
  category := orGeneral_idem o.category
  tenantId := truthy_idem (some (tenantOf o.tenant))
  successes _ := rfl
  workloads _ := rfl
  samples _ h := nomatch h
  length := Nat.zero_le _

@[simp] theorem countSuccess_key (r : Record) (o : Outcome) : (r.countSuccess o).key = r.key := by
  unfold Record.countSuccess
  cases o.success <;> rfl

theorem countSuccess_sound (h : r.Sound) : (r.countSuccess o).Sound := by
  unfold Record.countSuccess
  cases o.success with
  | none => exact h
  | some success =>
    exact { h with
      successes := fun hZero => absurd hZero (Nat.succ_ne_zero _)
      workloads := fun hZero => absurd hZero (Nat.succ_ne_zero _) }

theorem sample_nonneg {v : ℤ} (h : o.sample = some v) : 0 ≤ v := by
  obtain ⟨q, hq, rfl⟩ := Option.map_eq_some_iff.mp h
  have hNonneg : 0 ≤ q := by simpa using (Option.filter_eq_some_iff.mp hq).2
  rw [round_eq]
  apply Int.floor_nonneg.mpr
  linarith

theorem countLatency_sound (h : r.Sound) : (r.countLatency o).Sound := by
  refine { h with samples := ?_, length := ?_ }
  · intro v hv
    obtain hOld | hNew := List.mem_append.mp (mem_of_mem_rtake hv)
    · exact h.samples v hOld
    · exact sample_nonneg (Option.mem_toList.mp hNew)
  · rw [Record.countLatency, List.rtake, List.length_drop]
    omega

theorem addOutcome_key {v : Option Record} (h : ∀ w, v = some w → w.key = o.key) :
    (addOutcome v o).key = o.key := by
  have hKey : (v.getD (newRecord o)).key = o.key := by
    cases v with
    | none => exact newRecord_key o
    | some w => exact h w rfl
  exact (countSuccess_key _ o).trans hKey

theorem addOutcome_sound {v : Option Record} (ho : o.named = true)
    (h : ∀ w, v = some w → w.Sound) : (addOutcome v o).Sound := by
  apply countLatency_sound
  apply countSuccess_sound
  cases v with
  | none => exact newRecord_sound ho
  | some w => exact h w rfl

theorem addReliability_key {v : Option Reliability}
    (h : ∀ w, v = some w → w.key = o.errorKey) : (addReliability v o).key = o.errorKey := by
  have hKey : (addReliability v o).key =
      (v.getD ⟨o.modelId, truthy (some (tenantOf o.tenant)), 0, 0, .empty⟩).key := by
    unfold addReliability
    dsimp only
    split <;> rfl
  rw [hKey]
  cases v with
  | none => simp only [Option.getD_none, Reliability.key, reliabilityKey, tenantOf_truthy,
      Outcome.errorKey]
  | some w => exact h w rfl

end Sound

def Outcome.shows (o : Outcome) : Bool := o.success.isSome || o.sample.isSome

def Record.Blank (r : Record) : Prop := r.counts.attempts = 0 ∧ r.latencySamples = []

section Figures

variable {o : Outcome} {r : Record} {l : List Outcome}

theorem countLatency_nil :
    (r.countLatency o).latencySamples = [] ↔ r.latencySamples = [] ∧ o.sample = none := by
  have hPos : 0 < MAX_LATENCY_SAMPLES := by decide +kernel
  rw [Record.countLatency, List.rtake, List.drop_eq_nil_iff, ← List.length_eq_zero_iff,
    ← Option.toList_eq_nil_iff, ← List.length_eq_zero_iff, List.length_append]
  omega

theorem countSuccess_attempts :
    (r.countSuccess o).counts.attempts = 0 ↔ r.counts.attempts = 0 ∧ o.success = none := by
  unfold Record.countSuccess
  cases o.success with
  | none => exact (and_iff_left rfl).symm
  | some success =>
    exact iff_of_false (Nat.succ_ne_zero _) fun h => nomatch h.2

theorem countSuccess_samples (r : Record) (o : Outcome) :
    (r.countSuccess o).latencySamples = r.latencySamples := by
  unfold Record.countSuccess
  cases o.success <;> rfl

theorem addOutcome_blank {v : Option Record} :
    (addOutcome v o).Blank ↔ (∀ w, v = some w → w.Blank) ∧ o.shows = false := by
  have hOld : (v.getD (newRecord o)).Blank ↔ ∀ w, v = some w → w.Blank := by
    cases v with
    | none => exact iff_of_true ⟨rfl, rfl⟩ fun _ h => nomatch h
    | some w => exact ⟨fun h _ hw => Option.some.inj hw ▸ h, fun h => h w rfl⟩
  have hShows : o.shows = false ↔ o.success = none ∧ o.sample = none := by
    rw [Outcome.shows, Bool.or_eq_false_iff, Option.isSome_eq_false_iff,
      Option.isSome_eq_false_iff, Option.isNone_iff_eq_none, Option.isNone_iff_eq_none]
  rw [← hOld, hShows, Record.Blank, addOutcome, countLatency_nil, countSuccess_samples]
  change ((v.getD (newRecord o)).countSuccess o).counts.attempts = 0 ∧ _ ↔ _
  rw [countSuccess_attempts, Record.Blank]
  tauto

theorem gather_blank (h : gather addOutcome l = some r) :
    r.Blank ↔ ∀ o ∈ l, o.shows = false := by
  induction l using List.reverseRecOn generalizing r with
  | nil => cases h
  | append_singleton l o ih =>
    rw [gather_concat] at h
    cases h
    have hRest : (∀ w, gather addOutcome l = some w → w.Blank) ↔ ∀ o ∈ l, o.shows = false := by
      cases hGather : gather addOutcome l with
      | none =>
        rw [gather_eq_none.mp hGather]
        exact iff_of_true (fun _ h => nomatch h) fun _ h => nomatch h
      | some w => rw [← ih hGather]; exact ⟨fun h => h w rfl, fun h _ hw => Option.some.inj hw ▸ h⟩
    rw [addOutcome_blank, hRest]
    simp only [List.mem_append, List.mem_singleton, or_imp, forall_and, forall_eq]

theorem gather_samples {rel : Reliability} (h : gather addReliability l = some rel) :
    rel.samples = l.length := by
  induction l using List.reverseRecOn generalizing rel with
  | nil => cases h
  | append_singleton l o ih =>
    rw [gather_concat] at h
    cases h
    have hStep (v : Option Reliability) :
        (addReliability v o).samples = (v.map Reliability.samples).getD 0 + 1 := by
      unfold addReliability
      dsimp only
      cases v <;> split <;> rfl
    rw [hStep, List.length_append, List.length_singleton]
    cases hGather : gather addReliability l with
    | none => rw [gather_eq_none.mp hGather]; rfl
    | some w => rw [← ih hGather]; rfl

end Figures

def reloaded (r : Record) : Record :=
  loadRecord ((r.newest MAX_LATENCY_SAMPLES).newest GENERIC_ARRAY_CAP)

theorem loadRecord_key (r : Record) : (loadRecord r).key = r.key := by
  have hTenant : tenantOf (truthy r.tenantId) = tenantOf r.tenantId := by
    cases r.tenantId with
    | none => rfl
    | some id => rw [tenantOf, getD_truthy]; rfl
  simp only [Record.key, loadRecord, recordKey, orGeneral_idem, hTenant]

theorem newest_key (n : Nat) (r : Record) : (r.newest n).key = r.key := rfl

theorem newest_samples (n : Nat) (r : Record) :
    (r.newest n).latencySamples = r.latencySamples.rtake n := rfl

theorem loadRecord_samples (r : Record) :
    (loadRecord r).latencySamples = r.latencySamples.rtake MAX_LATENCY_SAMPLES := rfl

theorem reloaded_key (r : Record) : (reloaded r).key = r.key := by
  rw [reloaded, loadRecord_key, newest_key, newest_key]

theorem reloaded_counts (r : Record) : (reloaded r).counts = r.counts := rfl

theorem reloaded_workloads (r : Record) :
    (reloaded r).workloads = sanitizeWorkloads r.workloads := rfl

theorem loadReliability_key (rel : Reliability) : (loadReliability rel).key = rel.key := by
  simp only [Reliability.key, loadReliability, reliabilityKey, tenantOf_truthy]

theorem reloaded_samples {r : Record} (h : r.Sound) :
    (reloaded r).latencySamples = r.latencySamples := by
  have hGeneric : r.latencySamples.length ≤ GENERIC_ARRAY_CAP :=
    h.length.trans (by decide +kernel)
  rw [reloaded, loadRecord_samples, newest_samples, newest_samples, rtake_of_length_le h.length,
    rtake_of_length_le hGeneric, rtake_of_length_le h.length]

theorem reloaded_sound {r : Record} (h : r.Sound) : (reloaded r).Sound where
  named := h.named
  category := orGeneral_idem r.category
  tenantId := truthy_idem r.tenantId
  successes := h.successes
  workloads hZero := by
    rw [reloaded_workloads, h.workloads hZero]
    rfl
  samples := by
    rw [reloaded_samples h]
    exact h.samples
  length := by
    rw [reloaded_samples h]
    exact h.length

namespace ModelPerformanceStore

variable {s : ModelPerformanceStore}

theorem records_load (hNamed : ∀ r ∈ s.records.values, r.modelId ≠ "") :
    (load (pruneIntelligenceDoc s.dump)).records =
      restored Record.key reloaded GENERIC_ARRAY_CAP s.records := by
  have hDoc : (pruneIntelligenceDoc s.dump).records =
      (s.records.values.rtake GENERIC_ARRAY_CAP).map fun r =>
        (r.newest MAX_LATENCY_SAMPLES).newest GENERIC_ARRAY_CAP := by
    change ((s.records.values.map _).rtake _).map _ = _
    rw [List.rtake, List.length_map, ← List.map_drop, List.map_map]
    rfl
  have hAll : ∀ r ∈ (pruneIntelligenceDoc s.dump).records,
      decide (r.modelId ≠ "") = true := by
    intro r hr
    rw [hDoc] at hr
    obtain ⟨v, hv, rfl⟩ := List.mem_map.mp hr
    exact decide_eq_true (hNamed v (mem_of_mem_rtake hv))
  change (List.filter _ (pruneIntelligenceDoc s.dump).records).foldl _ _ = _
  rw [List.filter_eq_self.mpr hAll, hDoc, restored, OrderedMap.setAll, List.foldl_map,
    List.foldl_map]
  congr 1
  funext m r
  rw [reloaded_key]
  rfl

theorem reliability_load (hNamed : ∀ rel ∈ s.reliability.values, rel.modelId ≠ "") :
    (load (pruneIntelligenceDoc s.dump)).reliability =
      restored Reliability.key loadReliability GENERIC_ARRAY_CAP s.reliability := by
  have hDoc : (pruneIntelligenceDoc s.dump).reliability =
      s.reliability.values.rtake GENERIC_ARRAY_CAP := rfl
  have hAll : ∀ rel ∈ s.reliability.values.rtake GENERIC_ARRAY_CAP,
      decide (rel.modelId ≠ "") = true := fun rel hRel =>
    decide_eq_true (hNamed rel (mem_of_mem_rtake hRel))
  rw [load]
  dsimp only
  rw [hDoc, List.filter_eq_self.mpr hAll, restored, OrderedMap.setAll, List.foldl_map]
  simp only [loadReliability_key]

end ModelPerformanceStore

section Kept

variable (tooLarge : PerformanceDump → Bool) (h : List Outcome) (k : String)

def next : ModelPerformanceStore := (ModelPerformanceStore.after h).restart tooLarge none

def Saved : Prop :=
  tooLarge (pruneIntelligenceDoc (ModelPerformanceStore.after h).dump) = false

def RecordKept : Prop :=
  Saved tooLarge h ∧
    k ∈ (opened Outcome.key (h.filter Outcome.named)).rtake GENERIC_ARRAY_CAP

def ReliabilityKept : Prop :=
  Saved tooLarge h ∧
    k ∈ (opened Outcome.errorKey (h.filter Outcome.erred)).rtake GENERIC_ARRAY_CAP

instance : Decidable (Saved tooLarge h) := inferInstanceAs (Decidable (_ = _))

instance : Decidable (RecordKept tooLarge h k) := inferInstanceAs (Decidable (_ ∧ _))

instance : Decidable (ReliabilityKept tooLarge h k) := inferInstanceAs (Decidable (_ ∧ _))

def learned (h : List Outcome) (k : String) : Option Record :=
  gather addOutcome ((h.filter Outcome.named).filter fun o => o.key = k)

def failed (h : List Outcome) (k : String) : Option Reliability :=
  gather addReliability ((h.filter Outcome.erred).filter fun o => o.errorKey = k)

variable {tooLarge h k}

theorem learned_sound {r : Record} (hr : learned h k = some r) : r.Sound := by
  apply gather_induction _ hr
  intro v o ho hv
  exact addOutcome_sound (List.mem_filter.mp (List.mem_filter.mp ho).1).2 hv

theorem records_keyed (h : List Outcome) :
    (ModelPerformanceStore.after h).records.Keyed Record.key := by
  rw [ModelPerformanceStore.records_after]
  exact keyed_collect (fun _ _ => addOutcome_key) _

theorem reliability_keyed (h : List Outcome) :
    (ModelPerformanceStore.after h).reliability.Keyed Reliability.key := by
  rw [ModelPerformanceStore.reliability_after]
  exact keyed_collect (fun _ _ => addReliability_key) _

theorem get_records_after (h : List Outcome) (k : String) :
    (ModelPerformanceStore.after h).records.get k = learned h k := by
  rw [ModelPerformanceStore.records_after, get_collect]
  rfl

theorem get_reliability_after (h : List Outcome) (k : String) :
    (ModelPerformanceStore.after h).reliability.get k = failed h k := by
  rw [ModelPerformanceStore.reliability_after, get_collect]
  rfl

theorem failed_named {rel : Reliability} (hr : failed h k = some rel) : rel.modelId ≠ "" := by
  apply gather_induction _ hr
  intro v o ho hv
  have hModel : (addReliability v o).modelId = (v.map Reliability.modelId).getD o.modelId := by
    unfold addReliability
    dsimp only
    cases v <;> split <;> rfl
  rw [hModel]
  cases v with
  | none =>
    have hErred := (List.mem_filter.mp (List.mem_filter.mp ho).1).2
    rw [Outcome.erred, Outcome.named, Bool.and_eq_true] at hErred
    exact of_decide_eq_true hErred.1
  | some w => exact hv w rfl

theorem next_of_large (hLarge : tooLarge (pruneIntelligenceDoc (ModelPerformanceStore.after h).dump) =
    true) : next tooLarge h = ModelPerformanceStore.new := by
  rw [next, ModelPerformanceStore.restart, saveIntelligence, if_pos hLarge]
  rfl

theorem next_of_saved (hSaved : Saved tooLarge h) : next tooLarge h =
    ModelPerformanceStore.load (pruneIntelligenceDoc (ModelPerformanceStore.after h).dump) := by
  rw [next, ModelPerformanceStore.restart, saveIntelligence, if_neg (Bool.eq_false_iff.mp hSaved)]
  rfl

theorem get_records_next : (next tooLarge h).records.get k =
    if RecordKept tooLarge h k then (learned h k).map reloaded else none := by
  have hNamed : ∀ r ∈ (ModelPerformanceStore.after h).records.values, r.modelId ≠ "" := by
    intro r hr
    obtain ⟨j, hGet⟩ := (OrderedMap.mem_values_iff _ r).mp hr
    exact (learned_sound ((get_records_after h j).symm.trans hGet)).named
  cases hLarge : tooLarge (pruneIntelligenceDoc (ModelPerformanceStore.after h).dump) with
  | true =>
    rw [if_neg fun hKept => Bool.noConfusion (hLarge.symm.trans hKept.1), next_of_large hLarge]
    rfl
  | false =>
    have hLoad : (next tooLarge h).records =
        restored Record.key reloaded GENERIC_ARRAY_CAP (ModelPerformanceStore.after h).records := by
      rw [next_of_saved hLarge]
      exact ModelPerformanceStore.records_load hNamed
    have hKept : RecordKept tooLarge h k ↔
        k ∈ (ModelPerformanceStore.after h).records.keys.rtake GENERIC_ARRAY_CAP := by
      rw [ModelPerformanceStore.records_after, keys_collect]
      exact and_iff_right hLarge
    simp only [hLoad, get_restored (records_keyed h) reloaded_key, hKept, get_records_after]

theorem get_reliability_next : (next tooLarge h).reliability.get k =
    if ReliabilityKept tooLarge h k then (failed h k).map loadReliability else none := by
  have hNamed : ∀ rel ∈ (ModelPerformanceStore.after h).reliability.values,
      rel.modelId ≠ "" := by
    intro rel hRel
    obtain ⟨j, hGet⟩ := (OrderedMap.mem_values_iff _ rel).mp hRel
    exact failed_named ((get_reliability_after h j).symm.trans hGet)
  cases hLarge : tooLarge (pruneIntelligenceDoc (ModelPerformanceStore.after h).dump) with
  | true =>
    rw [if_neg fun hKept => Bool.noConfusion (hLarge.symm.trans hKept.1), next_of_large hLarge]
    rfl
  | false =>
    have hLoad : (next tooLarge h).reliability = restored Reliability.key loadReliability
        GENERIC_ARRAY_CAP (ModelPerformanceStore.after h).reliability := by
      rw [next_of_saved hLarge]
      exact ModelPerformanceStore.reliability_load hNamed
    have hKept : ReliabilityKept tooLarge h k ↔
        k ∈ (ModelPerformanceStore.after h).reliability.keys.rtake GENERIC_ARRAY_CAP := by
      rw [ModelPerformanceStore.reliability_after, keys_collect]
      exact and_iff_right hLarge
    simp only [hLoad, get_restored (reliability_keyed h) loadReliability_key, hKept,
      get_reliability_after]

end Kept

end OrchestraAI.Intelligence
