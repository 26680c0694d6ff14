import OrchestraAI.Intelligence.History

/-! # Isolation of the tenants

What the store has under a key comes from the outcomes under this key alone, and no two tenants
share a key. The document that is saved is not divided in this way: it holds the 500 records that
were opened last, of all tenants together.
-/

namespace OrchestraAI.Intelligence

open OrchestraAI.Core (cut)
open OrchestraAI.Recovery (truthy)
open GroupedFold LastEntries ModelPerformanceStore

section Keys

/-- The categories of the classifier, and the ids of the organizations, have no colon. -/
def Word (text : String) : Prop := ':' ∉ text.toList

instance : DecidablePred Word := fun text => inferInstanceAs (Decidable (':' ∉ text.toList))

theorem Word.orGeneral {category : String} (h : Word category) :
    Word (orGeneral category) := by
  by_cases hEmpty : category = ""
  · rw [hEmpty]
    decide
  · rwa [Intelligence.orGeneral, if_neg hEmpty]

theorem Word.tenantOf {tenantId : Option String} (h : ∀ t ∈ tenantId, Word t) :
    Word (tenantOf tenantId) := by
  intro hMem
  rw [Intelligence.tenantOf, cut, String.toList_ofList] at hMem
  obtain hMem | hReplaced := Text.mem_sliceUnits hMem
  · cases tenantId with
    | none => cases hMem
    | some t => exact h t rfl hMem
  · exact absurd hReplaced (by decide)

theorem split_last {a b c d : List Char} (hc : ':' ∉ c) (hd : ':' ∉ d)
    (h : a ++ ':' :: c = b ++ ':' :: d) : a = b ∧ c = d := by
  obtain ⟨e, rfl, hRest⟩ | ⟨e, rfl, hRest⟩ := List.append_eq_append_iff.mp h
  · cases e with
    | nil => exact ⟨(List.append_nil a).symm, (List.cons.inj hRest).2⟩
    | cons x e =>
      obtain ⟨-, rfl⟩ := List.cons.inj hRest
      exact absurd (List.mem_append_right e List.mem_cons_self) hc
  · cases e with
    | nil => exact ⟨List.append_nil b, (List.cons.inj hRest).2.symm⟩
    | cons x e =>
      obtain ⟨-, rfl⟩ := List.cons.inj hRest
      exact absurd (List.mem_append_right e List.mem_cons_self) hd

theorem join_inj {a b c d : String} (hc : Word c) (hd : Word d)
    (h : a ++ "::" ++ c = b ++ "::" ++ d) : a = b ∧ c = d := by
  have hLists : (a.toList ++ [':']) ++ ':' :: c.toList = (b.toList ++ [':']) ++ ':' :: d.toList := by
    simpa using congrArg String.toList h
  obtain ⟨hLeft, hRight⟩ := split_last hc hd hLists
  exact ⟨String.toList_inj.mp (List.append_cancel_right hLeft), String.toList_inj.mp hRight⟩

variable {modelId m category c : String} {tenantId t : Option String}

theorem reliabilityKey_inj (ht : ∀ id ∈ tenantId, Word id) (ht' : ∀ id ∈ t, Word id)
    (h : reliabilityKey modelId tenantId = reliabilityKey m t) :
    modelId = m ∧ tenantOf tenantId = tenantOf t :=
  join_inj (Word.tenantOf ht) (Word.tenantOf ht') h

theorem recordKey_inj (hc : Word category) (ht : ∀ id ∈ tenantId, Word id) (hc' : Word c)
    (ht' : ∀ id ∈ t, Word id) (h : recordKey modelId category tenantId = recordKey m c t) :
    modelId = m ∧ tenantOf tenantId = tenantOf t ∧ orGeneral category = orGeneral c := by
  obtain ⟨hFront, hCategory⟩ := join_inj hc.orGeneral hc'.orGeneral h
  obtain ⟨hModel, hTenant⟩ := reliabilityKey_inj ht ht' hFront
  exact ⟨hModel, hTenant, hCategory⟩

end Keys

section Figures

def recordFigures (r : Option Record) : (Option Workload → Prediction) × LatencyStats :=
  (predictFrom r, latencyStats ((r.map Record.latencySamples).getD []))

/-- What a router reads of a tenant is the same in both stores. -/
structure SameFigures (t : Option String) (s s' : ModelPerformanceStore) : Prop where
  predictedSuccess : ∀ modelId category workload, Word category →
    s.predictedSuccess modelId category t workload = s'.predictedSuccess modelId category t workload
  latency : ∀ modelId category, Word category →
    s.latency modelId category t = s'.latency modelId category t
  reliabilityFor : ∀ modelId, s.reliabilityFor modelId t = s'.reliabilityFor modelId t

theorem sameFigures_iff {t : Option String} {s s' : ModelPerformanceStore} :
    SameFigures t s s' ↔
      (∀ m c, Word c → recordFigures (s.records.get (recordKey m c t)) =
        recordFigures (s'.records.get (recordKey m c t))) ∧
      ∀ m, reliabilityFrom (s.reliability.get (reliabilityKey m t)) =
        reliabilityFrom (s'.reliability.get (reliabilityKey m t)) := by
  constructor
  · intro h
    refine ⟨fun m c hc => Prod.ext ?_ (h.latency m c hc), h.reliabilityFor⟩
    funext w
    exact h.predictedSuccess m c w hc
  · rintro ⟨hRecords, hReliability⟩
    constructor
    · intro m c w hc
      exact congrFun (congrArg Prod.fst (hRecords m c hc)) w
    · intro m c hc
      exact congrArg Prod.snd (hRecords m c hc)
    · exact hReliability

variable {r : Record}

theorem predictFrom_of_no_attempts (h : r.Sound) (hZero : r.counts.attempts = 0) :
    predictFrom (some r) = predictFrom none := by
  have hCounts : r.counts = ⟨0, 0⟩ := by
    cases hPair : r.counts with
    | mk attempts successes =>
      have hSuccesses := h.successes hZero
      rw [hPair] at hZero hSuccesses
      rw [show attempts = 0 from hZero, show successes = 0 from hSuccesses]
  funext w
  unfold predictFrom
  simp only [Option.map_some, Option.getD_some, hCounts, Option.map_none, Option.getD_none,
    Option.bind_some, h.workloads hZero, OrderedMap.get_empty, Option.bind_none]

theorem predictFrom_congr {r r' : Record} (hCounts : r.counts = r'.counts)
    (hWorkloads : r.workloads = r'.workloads) : predictFrom (some r) = predictFrom (some r') := by
  obtain ⟨_, _, _, counts, _, workloads⟩ := r
  obtain ⟨_, _, _, _, _, _⟩ := r'
  subst hCounts hWorkloads
  rfl

theorem latencyStats_count {l : List ℤ} (h : ∀ v ∈ l, 0 ≤ v) :
    (latencyStats l).count = l.length := by
  have hAll : l.filter (fun v => 0 ≤ v) = l := by
    apply List.filter_eq_self.mpr
    intro v hv
    exact decide_eq_true (h v hv)
  unfold latencyStats
  dsimp only
  rw [hAll]
  split
  · rename_i hNil
    rw [← List.length_insertionSort (· ≤ ·) l, hNil]
    rfl
  · exact List.length_insertionSort _ l

/-- A record gives other figures than no record exactly if something is counted in it. -/
theorem recordFigures_eq_none (h : r.Sound) :
    recordFigures (some r) = recordFigures none ↔ r.Blank := by
  constructor
  · intro hSame
    have hAttempts := congrArg Prediction.attempts (congrFun (congrArg Prod.fst hSame) none)
    have hCount := congrArg LatencyStats.count (congrArg Prod.snd hSame)
    refine ⟨hAttempts, List.length_eq_zero_iff.mp ?_⟩
    exact (latencyStats_count h.samples).symm.trans hCount
  · rintro ⟨hAttempts, hSamples⟩
    refine Prod.ext (predictFrom_of_no_attempts h hAttempts) ?_
    change latencyStats r.latencySamples = latencyStats []
    rw [hSamples]

theorem reliabilityFrom_ne_none {rel : Reliability} :
    reliabilityFrom (some rel) ≠ none ↔ MIN_SAMPLES_FOR_OBSERVED ≤ rel.samples := by
  rw [reliabilityFrom, Option.bind_some]
  split
  · rename_i hFew
    exact iff_of_false (fun h => h rfl) (Nat.not_le.mpr hFew)
  · rename_i hEnough
    exact iff_of_true (Option.some_ne_none _) (Nat.not_lt.mp hEnough)

end Figures

section Evidence

variable {h : List Outcome} {k : String}

theorem learned_shows :
    recordFigures ((learned h k).map reloaded) ≠ recordFigures none ↔
      ∃ o ∈ h, o.named = true ∧ o.key = k ∧ o.shows = true := by
  have hMem (o : Outcome) : o ∈ (h.filter Outcome.named).filter (fun o => o.key = k) ↔
      o ∈ h ∧ o.named = true ∧ o.key = k := by
    rw [List.mem_filter, List.mem_filter, decide_eq_true_iff, and_assoc]
  cases hLearned : learned h k with
  | none =>
    refine iff_of_false (fun hNe => hNe rfl) ?_
    rintro ⟨o, ho, hNamed, hKey, -⟩
    have hNil := gather_eq_none.mp hLearned
    exact List.not_mem_nil (hNil ▸ (hMem o).mpr ⟨ho, hNamed, hKey⟩)
  | some r =>
    have hSound := learned_sound hLearned
    have hBlank : (reloaded r).Blank ↔ r.Blank := by
      rw [Record.Blank, Record.Blank, reloaded_counts, reloaded_samples hSound]
    rw [Option.map_some, Ne, recordFigures_eq_none (reloaded_sound hSound), hBlank,
      gather_blank hLearned]
    simp only [hMem, not_forall, Bool.not_eq_false, exists_prop, and_assoc]

def errors (h : List Outcome) (k : String) : List Outcome :=
  (h.filter Outcome.erred).filter fun o => o.errorKey = k

theorem failed_shows :
    reliabilityFrom ((failed h k).map loadReliability) ≠ reliabilityFrom none ↔
      MIN_SAMPLES_FOR_OBSERVED ≤ (errors h k).length := by
  change _ ≠ none ↔ _
  cases hFailed : failed h k with
  | none =>
    have hNil : errors h k = [] := gather_eq_none.mp hFailed
    rw [hNil]
    exact iff_of_false (fun hNe => hNe rfl) (by decide)
  | some rel =>
    have hSamples : rel.samples = (errors h k).length := gather_samples hFailed
    rw [Option.map_some, reliabilityFrom_ne_none, ← hSamples]
    rfl

end Evidence

section TwoHistories

def OrgId (id : String) : Prop := Word id ∧ Text.codeUnitCount id.toList ≤ 128

/-- The outcome is of an organization or of none, and its task has been classified. -/
def Plain (o : Outcome) : Prop := Word o.category ∧ ∀ id ∈ o.tenant, OrgId id

instance : DecidablePred OrgId := fun _ => inferInstanceAs (Decidable (_ ∧ _))

instance : DecidablePred Plain := fun _ => inferInstanceAs (Decidable (_ ∧ _))

def own (t : Option String) (h : List Outcome) : List Outcome :=
  h.filter fun o => o.tenant.getD "" = t.getD ""

variable {t : Option String} {h : List Outcome} {o : Outcome} {m c : String}

theorem tenantOf_eq (ht : ∀ id ∈ t, OrgId id) : tenantOf t = t.getD "" := by
  cases t with
  | none => rfl
  | some id => exact Core.cut_of_codeUnitCount_le (ht id rfl).2

theorem Plain.own_of_tenantOf (ho : Plain o) (ht : ∀ id ∈ t, OrgId id)
    (h : tenantOf o.tenant = tenantOf t) : o.tenant.getD "" = t.getD "" := by
  rw [← tenantOf_eq ho.2, h, tenantOf_eq ht]

theorem tenantOf_of_own (h : o.tenant.getD "" = t.getD "") : tenantOf o.tenant = tenantOf t := by
  rw [tenantOf, tenantOf, h]

theorem filter_own {q : Outcome → Bool} (p : Outcome → Bool)
    (hq : ∀ o ∈ h, q o = true → o.tenant.getD "" = t.getD "") :
    (h.filter p).filter q = ((own t h).filter p).filter q := by
  rw [own, List.filter_filter, List.filter_filter, List.filter_filter]
  apply List.filter_congr
  intro o ho
  cases hKey : q o with
  | false => rfl
  | true => simp [hq o ho hKey]

theorem errors_own (hPlain : ∀ o ∈ h, Plain o) (ht : ∀ id ∈ t, OrgId id) (m : String) :
    errors h (reliabilityKey m t) = errors (own t h) (reliabilityKey m t) := by
  apply filter_own
  intro o ho hKey
  have hInj := reliabilityKey_inj (fun id hId => ((hPlain o ho).2 id hId).1)
    (fun id hId => (ht id hId).1) (of_decide_eq_true hKey)
  exact (hPlain o ho).own_of_tenantOf ht hInj.2

theorem failed_own (hPlain : ∀ o ∈ h, Plain o) (ht : ∀ id ∈ t, OrgId id) (m : String) :
    failed h (reliabilityKey m t) = failed (own t h) (reliabilityKey m t) :=
  congrArg (gather addReliability) (errors_own hPlain ht m)

theorem learned_own (hPlain : ∀ o ∈ h, Plain o) (ht : ∀ id ∈ t, OrgId id) (hc : Word c) :
    learned h (recordKey m c t) = learned (own t h) (recordKey m c t) := by
  apply congrArg (gather addOutcome)
  apply filter_own
  intro o ho hKey
  have hInj := recordKey_inj (hPlain o ho).1 (fun id hId => ((hPlain o ho).2 id hId).1) hc
    (fun id hId => (ht id hId).1) (of_decide_eq_true hKey)
  exact (hPlain o ho).own_of_tenantOf ht hInj.2.1

/-- The caps keep the same of the tenant's evidence in both histories. -/
structure SameKept (tooLarge : PerformanceDump → Bool) (t : Option String)
    (h₁ h₂ : List Outcome) : Prop where
  records : ∀ o ∈ own t h₁, o.named = true → o.shows = true →
    (RecordKept tooLarge h₁ o.key ↔ RecordKept tooLarge h₂ o.key)
  reliability : ∀ o ∈ own t h₁, MIN_SAMPLES_FOR_OBSERVED ≤ (errors (own t h₁) o.errorKey).length →
    (ReliabilityKept tooLarge h₁ o.errorKey ↔ ReliabilityKept tooLarge h₂ o.errorKey)

theorem map_window {α β : Type*} (F : Option α → β) (p q : Prop) [Decidable p] [Decidable q]
    (x : Option α) :
    F (if p then x else none) = F (if q then x else none) ↔ (F x ≠ F none → (p ↔ q)) := by
  by_cases hp : p <;> by_cases hq : q
  · simp only [if_pos hq, iff_of_true hp hq, implies_true]
  · rw [if_pos hp, if_neg hq, iff_false_intro (fun h : p ↔ q => hq (h.mp hp))]
    exact not_not.symm
  · rw [if_neg hp, if_pos hq, iff_false_intro (fun h : p ↔ q => hp (h.mpr hq))]
    exact eq_comm.trans not_not.symm
  · simp only [if_neg hq, iff_of_false hp hq, implies_true]

variable {tooLarge : PerformanceDump → Bool} {h₁ h₂ : List Outcome}

theorem records_same_iff (ht : ∀ id ∈ t, OrgId id) (hPlain₁ : ∀ o ∈ h₁, Plain o)
    (hPlain₂ : ∀ o ∈ h₂, Plain o) (hOwn : own t h₁ = own t h₂) (hc : Word c) :
    recordFigures ((next tooLarge h₁).records.get (recordKey m c t)) =
        recordFigures ((next tooLarge h₂).records.get (recordKey m c t)) ↔
      ∀ o ∈ own t h₁, o.named = true → o.key = recordKey m c t → o.shows = true →
        (RecordKept tooLarge h₁ (recordKey m c t) ↔ RecordKept tooLarge h₂ (recordKey m c t)) := by
  rw [get_records_next, get_records_next, learned_own hPlain₁ ht hc, learned_own hPlain₂ ht hc,
    ← hOwn, map_window recordFigures, learned_shows]
  simp only [exists_imp, and_imp]

theorem reliability_same_iff (ht : ∀ id ∈ t, OrgId id) (hPlain₁ : ∀ o ∈ h₁, Plain o)
    (hPlain₂ : ∀ o ∈ h₂, Plain o) (hOwn : own t h₁ = own t h₂) :
    reliabilityFrom ((next tooLarge h₁).reliability.get (reliabilityKey m t)) =
        reliabilityFrom ((next tooLarge h₂).reliability.get (reliabilityKey m t)) ↔
      (MIN_SAMPLES_FOR_OBSERVED ≤ (errors (own t h₁) (reliabilityKey m t)).length →
        (ReliabilityKept tooLarge h₁ (reliabilityKey m t) ↔
          ReliabilityKept tooLarge h₂ (reliabilityKey m t))) := by
  rw [get_reliability_next, get_reliability_next, failed_own hPlain₁ ht, failed_own hPlain₂ ht,
    ← hOwn, map_window reliabilityFrom, failed_shows]

theorem sameFigures_next_iff (ht : ∀ id ∈ t, OrgId id) (hPlain₁ : ∀ o ∈ h₁, Plain o)
    (hPlain₂ : ∀ o ∈ h₂, Plain o) (hOwn : own t h₁ = own t h₂) :
    SameFigures t (next tooLarge h₁) (next tooLarge h₂) ↔ SameKept tooLarge t h₁ h₂ := by
  have hTenant {o : Outcome} (ho : o ∈ own t h₁) : tenantOf o.tenant = tenantOf t :=
    tenantOf_of_own (of_decide_eq_true (List.mem_filter.mp ho).2)
  have hKey {o : Outcome} (ho : o ∈ own t h₁) : o.key = recordKey o.modelId o.category t := by
    rw [Outcome.key, recordKey, recordKey, hTenant ho]
  have hErrorKey {o : Outcome} (ho : o ∈ own t h₁) :
      o.errorKey = reliabilityKey o.modelId t := by
    rw [Outcome.errorKey, reliabilityKey, reliabilityKey, hTenant ho]
  rw [sameFigures_iff]
  constructor
  · rintro ⟨hRecords, hReliability⟩
    constructor
    · intro o ho hNamed hShows
      have hWord : Word o.category := (hPlain₁ o (List.mem_filter.mp ho).1).1
      have hSame := (records_same_iff ht hPlain₁ hPlain₂ hOwn hWord).mp
        (hRecords o.modelId o.category hWord)
      rw [hKey ho]
      exact hSame o ho hNamed (hKey ho) hShows
    · intro o ho hMany
      rw [hErrorKey ho] at hMany ⊢
      exact (reliability_same_iff ht hPlain₁ hPlain₂ hOwn).mp (hReliability o.modelId) hMany
  · intro hKept
    constructor
    · intro m c hc
      apply (records_same_iff ht hPlain₁ hPlain₂ hOwn hc).mpr
      intro o ho hNamed hSame hShows
      rw [← hSame]
      exact hKept.records o ho hNamed hShows
    · intro m
      apply (reliability_same_iff ht hPlain₁ hPlain₂ hOwn).mpr
      intro hMany
      obtain ⟨o, hErrors⟩ := List.exists_mem_of_length_pos (Nat.lt_of_lt_of_le (by decide) hMany)
      obtain ⟨hMem, hSame⟩ := List.mem_filter.mp hErrors
      have ho := (List.mem_filter.mp hMem).1
      rw [← of_decide_eq_true hSame] at hMany ⊢
      exact hKept.reliability o ho hMany

end TwoHistories

section BelowCaps

structure WithinCaps (tooLarge : PerformanceDump → Bool) (h : List Outcome) : Prop where
  saved : Saved tooLarge h
  records : (after h).records.size ≤ GENERIC_ARRAY_CAP
  reliability : (after h).reliability.size ≤ GENERIC_ARRAY_CAP
  workloads : ∀ r ∈ (after h).records.values, r.workloads.size ≤ 50
  workloadKeys : ∀ r ∈ (after h).records.values, ∀ key ∈ r.workloads.keys,
    Text.codeUnitCount key.toList ≤ 160

variable {tooLarge : PerformanceDump → Bool} {t : Option String} {h : List Outcome} {k : String}

theorem sanitizeWorkloads_eq {m : OrderedMap String Slice} (hSize : m.size ≤ 50)
    (hKeys : ∀ key ∈ m.keys, Text.codeUnitCount key.toList ≤ 160) : sanitizeWorkloads m = m := by
  have hCut : ∀ e ∈ m.entries, cut 160 e.1 = e.1 := fun e he =>
    Core.cut_of_codeUnitCount_le (hKeys e.1 (List.mem_map_of_mem he))
  calc sanitizeWorkloads m
      = m.entries.foldl (fun out e => out.set (cut 160 e.1) e.2) .empty := by
        rw [sanitizeWorkloads, List.take_of_length_le hSize]
    _ = m.entries.foldl (fun out e => out.set e.1 e.2) .empty := by
        apply List.foldl_ext
        intro out e he
        rw [hCut e he]
    _ = m := OrderedMap.foldl_set_empty m

theorem WithinCaps.recordKept (hCaps : WithinCaps tooLarge h) {r : Record}
    (hr : learned h k = some r) : RecordKept tooLarge h k := by
  refine ⟨hCaps.saved, ?_⟩
  have hMem : k ∈ (after h).records.keys :=
    (OrderedMap.mem_keys_iff _ k).mpr ⟨r, (get_records_after h k).trans hr⟩
  have hSize := hCaps.records
  rw [OrderedMap.size_eq_keys_length] at hSize
  rw [records_after, keys_collect] at hMem hSize
  rwa [rtake_of_length_le hSize]

theorem WithinCaps.reliabilityKept (hCaps : WithinCaps tooLarge h) {rel : Reliability}
    (hr : failed h k = some rel) : ReliabilityKept tooLarge h k := by
  refine ⟨hCaps.saved, ?_⟩
  have hMem : k ∈ (after h).reliability.keys :=
    (OrderedMap.mem_keys_iff _ k).mpr ⟨rel, (get_reliability_after h k).trans hr⟩
  have hSize := hCaps.reliability
  rw [OrderedMap.size_eq_keys_length] at hSize
  rw [reliability_after, keys_collect] at hMem hSize
  rwa [rtake_of_length_le hSize]

theorem WithinCaps.sameFigures (hCaps : WithinCaps tooLarge h) :
    SameFigures t (next tooLarge h) (after h) := by
  rw [sameFigures_iff]
  constructor
  · intro m c _
    rw [get_records_next, get_records_after]
    cases hr : learned h (recordKey m c t) with
    | none => rw [Option.map_none, ite_self]
    | some r =>
      have hSound := learned_sound hr
      have hMem : r ∈ (after h).records.values :=
        (OrderedMap.mem_values_iff _ r).mpr ⟨_, (get_records_after h _).trans hr⟩
      have hWorkloads : (reloaded r).workloads = r.workloads :=
        sanitizeWorkloads_eq (hCaps.workloads r hMem) (hCaps.workloadKeys r hMem)
      rw [if_pos (hCaps.recordKept hr), Option.map_some]
      refine Prod.ext (predictFrom_congr (reloaded_counts r) hWorkloads) ?_
      simp only [recordFigures, Option.map_some, reloaded_samples hSound]
  · intro m
    rw [get_reliability_next, get_reliability_after]
    cases hr : failed h (reliabilityKey m t) with
    | none => rw [Option.map_none, ite_self]
    | some rel =>
      rw [if_pos (hCaps.reliabilityKept hr)]
      rfl

end BelowCaps

section Isolation

variable {tooLarge : PerformanceDump → Bool} {t : Option String} {h₁ h₂ : List Outcome}

/-- After a restart a tenant's figures do not depend on the other tenants, and below the caps they
are those of before, exactly if the caps keep the same of the tenant's evidence. -/
theorem learning_isolated_iff (ht : ∀ id ∈ t, OrgId id) (hPlain₁ : ∀ o ∈ h₁, Plain o)
    (hPlain₂ : ∀ o ∈ h₂, Plain o) (hOwn : own t h₁ = own t h₂) :
    (SameFigures t (next tooLarge h₁) (next tooLarge h₂) ∧
      ∀ h ∈ [h₁, h₂], WithinCaps tooLarge h → SameFigures t (next tooLarge h) (after h)) ↔
    SameKept tooLarge t h₁ h₂ := by
  rw [sameFigures_next_iff ht hPlain₁ hPlain₂ hOwn]
  exact and_iff_left fun h _ hCaps => hCaps.sameFigures

def success (modelId org : String) : Outcome where
  modelId := modelId
  category := "debug"
  tenantId := some org
  orgId := none
  success := some true
  latencyMs := .undefined
  errorCode := none
  workload := ⟨.undefined, .absent⟩

theorem learning_isolated_iff_two :
    (SameFigures (some "org-a") (next (fun _ => false) [success "m" "org-a"])
        (next (fun _ => false) [success "m" "org-b", success "m" "org-a"]) ∧
      ∀ h ∈ [[success "m" "org-a"], [success "m" "org-b", success "m" "org-a"]],
        WithinCaps (fun _ => false) h →
          SameFigures (some "org-a") (next (fun _ => false) h) (after h)) ↔
    SameKept (fun _ => false) (some "org-a") [success "m" "org-a"]
      [success "m" "org-b", success "m" "org-a"] :=
  learning_isolated_iff (by decide +kernel) (by decide +kernel) (by decide +kernel) (by rfl)

def others : List Outcome :=
  (List.range 500).map fun n => success (String.ofList (List.replicate (n + 1) 'x')) "org-b"

theorem others_keys_nodup : ((success "m" "org-a" :: others).map Outcome.key).Nodup := by
  have hWord {id : String} (hId : Word id) : ∀ x ∈ some id, Word x :=
    fun x hx => Option.some.inj hx ▸ hId
  have hDebug : Word "debug" := by decide
  have hKeys {m n a b : String} (ha : Word a) (hb : Word b)
      (h : (success m a).key = (success n b).key) : m = n ∧ tenantOf (some a) = tenantOf (some b) :=
    have hInj := recordKey_inj hDebug (hWord ha) hDebug (hWord hb) h
    ⟨hInj.1, hInj.2.1⟩
  rw [List.map_cons, List.nodup_cons]
  constructor
  · intro hMem
    obtain ⟨o, ho, hSame⟩ := List.mem_map.mp hMem
    obtain ⟨n, -, rfl⟩ := List.mem_map.mp ho
    have hTenants := (hKeys (by decide) (by decide) hSame).2
    exact absurd hTenants (by decide +kernel)
  · rw [others, List.map_map]
    apply List.Nodup.map_on _ List.nodup_range
    intro i _ j _ hSame
    have hNames := (hKeys (by decide) (by decide) hSame).1
    have hLengths := congrArg (fun name => name.toList.length) hNames
    simpa using hLengths

/-- The tenant's record goes when another organization has used as many models as the cap admits. -/
theorem record_displaced :
    own (some "org-a") [success "m" "org-a"] =
        own (some "org-a") (success "m" "org-a" :: others) ∧
      ¬ SameFigures (some "org-a") (next (fun _ => false) [success "m" "org-a"])
        (next (fun _ => false) (success "m" "org-a" :: others)) := by
  have hOthers : ∀ o ∈ others, o.named = true ∧ Plain o ∧ o.tenant.getD "" ≠ "org-a" := by
    intro o ho
    obtain ⟨n, -, rfl⟩ := List.mem_map.mp ho
    have hDebug : Word "debug" := by decide
    have hOrg : "org-b" ≠ "org-a" := by decide
    refine ⟨?_, ⟨hDebug, ?_⟩, hOrg⟩
    · simp [Outcome.named, success, List.replicate_succ]
    · rintro id ⟨⟩
      decide +kernel
  have hPlain : ∀ o ∈ success "m" "org-a" :: others, Plain o :=
    List.forall_mem_cons.mpr ⟨by decide +kernel, fun o ho => (hOthers o ho).2.1⟩
  have hOwn : own (some "org-a") [success "m" "org-a"] =
      own (some "org-a") (success "m" "org-a" :: others) := by
    have hNone : own (some "org-a") others = [] := by
      apply List.filter_eq_nil_iff.mpr
      intro o ho
      exact fun hSame => (hOthers o ho).2.2 (of_decide_eq_true hSame)
    change _ = success "m" "org-a" :: own (some "org-a") others
    rw [hNone]
    rfl
  refine ⟨hOwn, fun hSame => ?_⟩
  have hKept := (sameFigures_next_iff (by decide +kernel) (by decide +kernel) hPlain hOwn).mp hSame
  have hBefore : RecordKept (fun _ => false) [success "m" "org-a"] (success "m" "org-a").key :=
    ⟨rfl, by decide +kernel⟩
  have hMem := ((hKept.records _ List.mem_cons_self rfl rfl).mp hBefore).2
  have hNamed : (success "m" "org-a" :: others).filter Outcome.named =
      success "m" "org-a" :: others :=
    List.filter_eq_self.mpr (List.forall_mem_cons.mpr ⟨rfl, fun o ho => (hOthers o ho).1⟩)
  have hLast : ((success "m" "org-a" :: others).map Outcome.key).rtake GENERIC_ARRAY_CAP =
      others.map Outcome.key := by
    simp [List.rtake, GENERIC_ARRAY_CAP, others]
  rw [hNamed, opened_of_nodup others_keys_nodup, hLast] at hMem
  exact (List.nodup_cons.mp others_keys_nodup).1 hMem

end Isolation

end OrchestraAI.Intelligence
