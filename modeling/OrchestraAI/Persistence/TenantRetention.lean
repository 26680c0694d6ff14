import OrchestraAI.Library.NewestWindow
import OrchestraAI.Persistence.FileStore

/-! # Retention of one tenant

What the file store keeps of one tenant while others write to the same index. Retention is
counted for each tenant; the pruning of an index that is too long for its file is not.
-/

namespace OrchestraAI.Persistence

open LastEntries NewestPerKey

/-- A summary in the index, with an id of type `ι`. What it does not say is the empty text. -/
structure RunEntry (ι : Type) where
  id : ι
  orgId : List Char
  ownershipOrgId : List Char
  projectId : List Char
  /-- The rest of the summary. -/
  body : String
  /-- The length of its text. -/
  bytes : Nat
  deriving DecidableEq

variable {ι : Type}

namespace RunEntry

/-- `MAX_RUN_INDEX_PER_TENANT`. -/
def maxRunIndexPerTenant : Nat := 1000

def runTenantKey (run : RunEntry ι) : List Char :=
  (if run.orgId = [] then run.ownershipOrgId else run.orgId).take 128

def retainPerTenant (cap : Nat) (runs : List (RunEntry ι)) : List (RunEntry ι) :=
  newestPer runTenantKey cap runs

abbrev entriesOf (tenant : List Char) (runs : List (RunEntry ι)) : List (RunEntry ι) :=
  entries runTenantKey tenant runs

end RunEntry

open RunEntry

/-- `runs.json`, and what its writes may take. -/
structure RunIndexFile (ι : Type) where
  maxBytes : Nat
  /-- `loadRunIndex`. -/
  index : List (RunEntry ι)

namespace RunIndexFile

def limits (f : RunIndexFile ι) : FileLimits (RunEntry ι) := ⟨f.maxBytes, RunEntry.bytes⟩

def retained (runs : List (RunEntry ι)) : List (RunEntry ι) :=
  retainPerTenant maxRunIndexPerTenant runs

/-- `saveRunIndex`; a write that is rejected leaves the file. -/
def saveRunIndex (f : RunIndexFile ι) (runs : List (RunEntry ι)) : RunIndexFile ι :=
  { f with index := f.limits.writeJson f.index (retained runs) }

/-- After one of at most six halvings the list that retention leaves fits, and everything that it
has of the tenant is in that half. -/
def Spares (f : RunIndexFile ι) (tenant : List Char) (runs : List (RunEntry ι)) : Prop :=
  ∃ i ≤ 6, f.limits.textLength (halved (retained runs) i) ≤ f.maxBytes ∧
    entriesOf tenant (halved (retained runs) i) = entriesOf tenant (retained runs)

/-- The save succeeds, and stores the newest entries of the tenant: all if it has no more than
retention leaves it. -/
def Keeps (f : RunIndexFile ι) (tenant : List Char) (runs : List (RunEntry ι)) : Prop :=
  ∃ written, f.limits.serializePrunable 6 (retained runs) = some written ∧
    entriesOf tenant written = (entriesOf tenant runs).rtake maxRunIndexPerTenant

variable {f : RunIndexFile ι} {runs : List (RunEntry ι)} {tenant : List Char}

theorem entriesOf_retained (tenant : List Char) (runs : List (RunEntry ι)) :
    entriesOf tenant (retained runs) = (entriesOf tenant runs).rtake maxRunIndexPerTenant :=
  entries_newestPer tenant _ runs

theorem prune_sublist {current next : List (RunEntry ι)} (h : prune current = some next) :
    next.Sublist current := by
  rw [← FileLimits.halved_zero next, ← FileLimits.halved_succ h]
  exact List.drop_sublist _ _

theorem entriesOf_between {least between most : List (RunEntry ι)} (hLess : least.Sublist between)
    (hMore : between.Sublist most) (h : entriesOf tenant least = entriesOf tenant most) :
    entriesOf tenant between = entriesOf tenant most := by
  have hLeast : (entriesOf tenant least).Sublist (entriesOf tenant between) := hLess.filter _
  rw [h] at hLeast
  exact (hMore.filter _).antisymm hLeast

/-- The pruning finds a value with all that the list has of the tenant if and only if one of the
halvings has it and fits. -/
theorem serializePrunable_keeps_iff (limits : FileLimits (RunEntry ι)) (tenant : List Char)
    (attempts : Nat) (list : List (RunEntry ι)) :
    (∃ written, limits.serializePrunable attempts list = some written ∧
        entriesOf tenant written = entriesOf tenant list) ↔
      ∃ i ≤ attempts, limits.textLength (halved list i) ≤ limits.maxBytes ∧
        entriesOf tenant (halved list i) = entriesOf tenant list := by
  induction attempts generalizing list with
  | zero =>
    simp only [FileLimits.serializePrunable]
    split
    · rename_i hFits
      refine ⟨fun _ => ⟨0, le_rfl, ?_⟩, fun _ => ⟨list, rfl, rfl⟩⟩
      rw [FileLimits.halved_zero]
      exact ⟨hFits, rfl⟩
    · rename_i hLong
      constructor
      · rintro ⟨_, hWritten, _⟩
        cases hWritten
      · rintro ⟨i, hi, hFits, _⟩
        rw [Nat.le_zero.mp hi, FileLimits.halved_zero] at hFits
        exact absurd hFits hLong
  | succ attempts ih =>
    simp only [FileLimits.serializePrunable]
    split
    · rename_i hFits
      refine ⟨fun _ => ⟨0, Nat.zero_le _, ?_⟩, fun _ => ⟨list, rfl, rfl⟩⟩
      rw [FileLimits.halved_zero]
      exact ⟨hFits, rfl⟩
    · rename_i hLong
      constructor
      · rintro ⟨written, hWritten, hEntries⟩
        obtain ⟨next, hNext, hWritten⟩ := Option.bind_eq_some_iff.mp hWritten
        have hSame : entriesOf tenant next = entriesOf tenant list :=
          entriesOf_between (FileLimits.serializePrunable_sublist hWritten) (prune_sublist hNext)
            hEntries
        obtain ⟨i, hi, hHalved⟩ := (ih next).mp ⟨written, hWritten, hEntries.trans hSame.symm⟩
        refine ⟨i + 1, Nat.succ_le_succ hi, ?_⟩
        rw [FileLimits.halved_succ hNext, ← hSame]
        exact hHalved
      · rintro ⟨i, hi, hFits, hEntries⟩
        cases i with
        | zero =>
          rw [FileLimits.halved_zero] at hFits
          exact absurd hFits hLong
        | succ i =>
          cases hNext : prune list with
          | none =>
            have hShort : list.length ≤ 10 := by
              unfold prune at hNext
              split at hNext
              · assumption
              · cases hNext
            rw [FileLimits.halved_short hShort] at hFits
            exact absurd hFits hLong
          | some next =>
            rw [FileLimits.halved_succ hNext] at hFits hEntries
            have hSame : entriesOf tenant next = entriesOf tenant list :=
              entriesOf_between (List.drop_sublist _ _) (prune_sublist hNext) hEntries
            obtain ⟨written, hWritten, hKept⟩ :=
              (ih next).mpr ⟨i, Nat.le_of_succ_le_succ hi, hFits, hEntries.trans hSame.symm⟩
            exact ⟨written, hWritten, hKept.trans hSame⟩

theorem keeps_iff : f.Keeps tenant runs ↔ f.Spares tenant runs := by
  unfold Keeps
  rw [← entriesOf_retained]
  exact serializePrunable_keeps_iff f.limits tenant 6 (retained runs)

theorem entriesOf_saveRunIndex (h : f.Spares tenant runs) :
    entriesOf tenant (f.saveRunIndex runs).index =
      (entriesOf tenant runs).rtake maxRunIndexPerTenant := by
  obtain ⟨written, hWritten, hEntries⟩ := keeps_iff.mpr h
  simp only [saveRunIndex, FileLimits.writeJson, hWritten]
  exact hEntries

variable [DecidableEq ι]

def upserted (index : List (RunEntry ι)) (summary : RunEntry ι) : List (RunEntry ι) :=
  index.filter (fun r => r.id ≠ summary.id) ++ [summary]

def upsertRunSummary (f : RunIndexFile ι) (summary : RunEntry ι) : RunIndexFile ι :=
  f.saveRunIndex (upserted f.index summary)

def upserts (f : RunIndexFile ι) (summaries : List (RunEntry ι)) : RunIndexFile ι :=
  summaries.foldl upsertRunSummary f

def SparesAlong (tenant : List Char) (f : RunIndexFile ι) : List (RunEntry ι) → Prop
  | [] => True
  | summary :: summaries =>
    f.Spares tenant (upserted f.index summary) ∧
      SparesAlong tenant (f.upsertRunSummary summary) summaries

def Apart (tenant : List Char) (f : RunIndexFile ι) (summaries : List (RunEntry ι)) : Prop :=
  ∀ x ∈ summaries, runTenantKey x ≠ tenant →
    ∀ r ∈ entriesOf tenant (f.index ++ summaries), r.id ≠ x.id

instance (tenant : List Char) (f : RunIndexFile ι) (summaries : List (RunEntry ι)) :
    Decidable (Apart tenant f summaries) :=
  inferInstanceAs (Decidable (∀ x ∈ summaries, runTenantKey x ≠ tenant →
    ∀ r ∈ entriesOf tenant (f.index ++ summaries), r.id ≠ x.id))

variable {summaries : List (RunEntry ι)} {summary : RunEntry ι}

def ownUpserts (own summaries : List (RunEntry ι)) : List (RunEntry ι) :=
  summaries.foldl (fun own summary => (upserted own summary).rtake maxRunIndexPerTenant) own

theorem entriesOf_upserted (tenant : List Char) (index : List (RunEntry ι)) (summary : RunEntry ι) :
    entriesOf tenant (upserted index summary) =
      (entriesOf tenant index).filter (fun r => r.id ≠ summary.id) ++ entriesOf tenant [summary] := by
  rw [upserted, entriesOf, entries_append, entries, List.filter_comm]
  rfl

theorem mem_index_upsertRunSummary {r : RunEntry ι}
    (h : r ∈ (f.upsertRunSummary summary).index) : r ∈ f.index ∨ r = summary := by
  obtain hFile | hValue := f.limits.writeJson_cases f.index (retained (upserted f.index summary))
  · exact .inl (hFile ▸ h)
  · have hMem : r ∈ upserted f.index summary :=
      (newestPer_sublist _ _).subset (hValue.subset h)
    obtain hOld | hNew := List.mem_append.mp hMem
    · exact .inl (List.mem_filter.mp hOld).1
    · exact .inr (List.mem_singleton.mp hNew)

theorem Apart.tail (h : Apart tenant f (summary :: summaries)) :
    Apart tenant (f.upsertRunSummary summary) summaries := by
  intro x hx hOther r hr
  obtain ⟨hMem, hKey⟩ := List.mem_filter.mp hr
  refine h x (List.mem_cons_of_mem _ hx) hOther r (List.mem_filter.mpr ⟨?_, hKey⟩)
  obtain hIndex | hLater := List.mem_append.mp hMem
  · obtain hOld | rfl := mem_index_upsertRunSummary hIndex
    · exact List.mem_append_left _ hOld
    · exact List.mem_append_right _ (List.mem_cons_self ..)
  · exact List.mem_append_right _ (List.mem_cons_of_mem _ hLater)

/-- After a history that spares it a tenant has what its own upserts alone would have left. -/
theorem entriesOf_upserts (hShort : (entriesOf tenant f.index).length ≤ maxRunIndexPerTenant)
    (hApart : Apart tenant f summaries) (hSpares : SparesAlong tenant f summaries) :
    entriesOf tenant (f.upserts summaries).index =
      ownUpserts (entriesOf tenant f.index) (entriesOf tenant summaries) := by
  induction summaries generalizing f with
  | nil => rfl
  | cons summary summaries ih =>
    obtain ⟨hSpare, hSpares⟩ := hSpares
    have hSaved : entriesOf tenant (f.upsertRunSummary summary).index =
        (entriesOf tenant (upserted f.index summary)).rtake maxRunIndexPerTenant :=
      entriesOf_saveRunIndex hSpare
    have hStill : (entriesOf tenant (f.upsertRunSummary summary).index).length ≤
        maxRunIndexPerTenant := by
      rw [hSaved, List.rtake, List.length_drop]
      omega
    have hRest := ih hStill hApart.tail hSpares
    rw [upserts, List.foldl_cons]
    refine hRest.trans ?_
    rw [hSaved, entriesOf_upserted]
    by_cases hKey : runTenantKey summary = tenant
    · subst hKey
      have hFirst : entriesOf (runTenantKey summary) (summary :: summaries) =
          summary :: entriesOf (runTenantKey summary) summaries := entries_cons_self summary summaries
      have hOne : entriesOf (runTenantKey summary) [summary] = [summary] :=
        entries_cons_self summary []
      rw [hFirst, hOne, ownUpserts, ownUpserts, List.foldl_cons, upserted]
    · have hRest : entriesOf tenant (summary :: summaries) = entriesOf tenant summaries :=
        entries_cons_of_ne hKey
      have hNone : entriesOf tenant [summary] = [] := entries_cons_of_ne hKey
      have hOwn : (entriesOf tenant f.index).filter (fun r => r.id ≠ summary.id) =
          entriesOf tenant f.index := by
        refine List.filter_eq_self.mpr fun r hr => decide_eq_true ?_
        obtain ⟨hMem, hTenant⟩ := List.mem_filter.mp hr
        exact hApart summary (List.mem_cons_self ..) hKey r
          (List.mem_filter.mpr ⟨List.mem_append_left _ hMem, hTenant⟩)
      rw [hNone, hOwn, List.append_nil, rtake_of_length_le hShort, hRest]

/-- The tenant keeps its newest entries if and only if the pruning of the index spares it. Two
indexes, or two histories, with the same entries of a spared tenant leave it the same. -/
theorem tenant_retention (tenant : List Char) (f g : RunIndexFile ι) :
    (∀ runs, f.Keeps tenant runs ↔ f.Spares tenant runs) ∧
    (∀ runs runs', entriesOf tenant runs = entriesOf tenant runs' → f.Spares tenant runs →
      g.Spares tenant runs' →
      entriesOf tenant (f.saveRunIndex runs).index = entriesOf tenant (g.saveRunIndex runs').index) ∧
    ∀ summaries summaries', entriesOf tenant f.index = entriesOf tenant g.index →
      entriesOf tenant summaries = entriesOf tenant summaries' →
      (entriesOf tenant f.index).length ≤ maxRunIndexPerTenant →
      Apart tenant f summaries → Apart tenant g summaries' →
      SparesAlong tenant f summaries → SparesAlong tenant g summaries' →
      entriesOf tenant (f.upserts summaries).index =
        entriesOf tenant (g.upserts summaries').index := by
  refine ⟨fun runs => keeps_iff, ?_, ?_⟩
  · intro runs runs' hSame hf hg
    rw [entriesOf_saveRunIndex hf, entriesOf_saveRunIndex hg, hSame]
  · intro summaries summaries' hIndex hSame hShort hApart hApart' hf hg
    rw [entriesOf_upserts hShort hApart hf, entriesOf_upserts (hIndex ▸ hShort) hApart' hg, hIndex,
      hSame]

def summaryOf (id : Nat) (orgId : String) (bytes : Nat) : RunEntry Nat :=
  ⟨id, orgId.toList, [], [], "", bytes⟩

def emptyFile : RunIndexFile Nat := ⟨5000000, []⟩

def crowded (runs bytes : Nat) : List (RunEntry Nat) :=
  summaryOf 0 "org" 100 :: (List.range runs).map fun i => summaryOf (i + 1) "busy" bytes

theorem tenant_retention_crowded :
    entriesOf "org".toList (emptyFile.saveRunIndex (crowded 12 400)).index =
        entriesOf "org".toList (emptyFile.saveRunIndex (crowded 0 400)).index ∧
      entriesOf "org".toList (emptyFile.upserts (crowded 2 400)).index =
        entriesOf "org".toList (emptyFile.upserts (crowded 0 400)).index ∧
      emptyFile.Keeps "org".toList (crowded 12 400) := by
  obtain ⟨hKeeps, hSaves, hUpserts⟩ := tenant_retention "org".toList emptyFile emptyFile
  have hTwelve : emptyFile.Spares "org".toList (crowded 12 400) := ⟨0, by decide +kernel⟩
  have hAlone : emptyFile.Spares "org".toList (crowded 0 400) := ⟨0, by decide +kernel⟩
  refine ⟨hSaves _ _ (by decide +kernel) hTwelve hAlone, ?_, (hKeeps _).mpr hTwelve⟩
  exact hUpserts _ _ rfl (by decide +kernel) (by decide) (by decide +kernel) (by decide +kernel)
    ⟨⟨0, by decide +kernel⟩, ⟨0, by decide +kernel⟩, ⟨0, by decide +kernel⟩, trivial⟩
    ⟨⟨0, by decide +kernel⟩, trivial⟩

/-- The summaries of a busy tenant are too long for the file, and its pruning drops the run of the
other tenant; without them the run is kept. -/
theorem busy_tenant_evicts :
    entriesOf "org".toList (crowded 12 450000) = entriesOf "org".toList (crowded 0 450000) ∧
      entriesOf "org".toList (emptyFile.saveRunIndex (crowded 12 450000)).index = [] ∧
      entriesOf "org".toList (emptyFile.saveRunIndex (crowded 0 450000)).index =
        [summaryOf 0 "org" 100] := by
  decide +kernel

end RunIndexFile

end OrchestraAI.Persistence
