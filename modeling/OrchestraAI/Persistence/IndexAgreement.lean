import Mathlib.Data.Prod.Lex
import OrchestraAI.Library.ComparatorSort
import OrchestraAI.Library.LabelledSystem
import OrchestraAI.Library.OrderedMap
import OrchestraAI.Persistence.TenantRetention

/-! # The two adapters of the run index

`loadRunIndex`, `saveRunIndex` and `upsertRunSummary` of `run-store.js` with the file and with the
table of `postgres.js`, side by side under the same calls. Recency is a position in the file and a
timestamp in the table.
-/

namespace OrchestraAI.Persistence

open LabelledSystem LastEntries NewestPerKey RankedRows RunEntry

variable {ι : Type} [LinearOrder ι]

/-- The filter of a load; what it does not name is the empty text. -/
structure IndexQuery where
  orgId : List Char
  projectId : List Char

/-- A row of `run_index`. -/
structure IndexRow (ι : Type) where
  summary : RunEntry ι
  updatedAt : Nat
  deriving DecidableEq

namespace RunIndexFile

/-- `RunStore.loadRunIndex` over the file. -/
def loadRunIndex (f : RunIndexFile ι) (query : IndexQuery) : List (RunEntry ι) :=
  if query.projectId ≠ [] then f.index.filter fun r => r.projectId = query.projectId
  else if query.orgId ≠ [] then
    f.index.filter fun r => r.orgId = query.orgId ∨ r.ownershipOrgId = query.orgId
  else f.index

end RunIndexFile

open RunIndexFile

namespace IndexRow

/-- `ORDER BY updated_at DESC, id DESC`. -/
def recency (row : IndexRow ι) : Nat ×ₗ ι := toLex (row.updatedAt, row.summary.id)

def orgId (row : IndexRow ι) : List Char := row.summary.orgId

end IndexRow

/-- `RUN_INDEX_READ_LIMIT`. -/
def runIndexReadLimit : Nat := 10000

/-- `PostgresDatastore.loadRunIndex`. -/
def loadRows (table : List (IndexRow ι)) (query : IndexQuery) : List (RunEntry ι) :=
  let orgId := query.orgId.take 128
  let projectId := query.projectId.take 128
  let rows :=
    if projectId ≠ [] then table.filter fun row => row.summary.projectId = projectId
    else if orgId ≠ [] then table.filter fun row => row.summary.orgId = orgId
    else table
  ((ordered IndexRow.recency rows).take runIndexReadLimit).map IndexRow.summary

/-- `INSERT … ON CONFLICT (id) DO UPDATE`. -/
def upsertRow (now : Nat) (table : List (IndexRow ι)) (summary : RunEntry ι) : List (IndexRow ι) :=
  table.filter (fun row => row.summary.id ≠ summary.id) ++ [⟨summary, now⟩]

def pruneRunIndex (table : List (IndexRow ι)) : List (IndexRow ι) :=
  pruned IndexRow.orgId IndexRow.recency maxRunIndexPerTenant table

/-- `PostgresDatastore.saveRunIndex`: one transaction, and so one `NOW()`. -/
def saveRows (now : Nat) (table : List (IndexRow ι)) (list : List (RunEntry ι)) :
    List (IndexRow ι) := pruneRunIndex (list.foldl (upsertRow now) table)

def merged (persisted live : List (RunEntry ι)) : List (RunEntry ι) :=
  ((OrderedMap.empty.setAll RunEntry.id persisted).setAll RunEntry.id live).values

inductive IndexCall (ι : Type)
  | upsertRunSummary (summary : RunEntry ι)
  | loadRunIndex (query : IndexQuery)
  /-- `saveRunIndex` of the index that an earlier load returned and of live summaries. -/
  | saveRunIndex (load : Nat) (live : List (RunEntry ι))

structure IndexAdapters (ι : Type) where
  file : RunIndexFile ι
  table : List (IndexRow ι)
  /-- The last `NOW()`. -/
  now : Nat
  /-- What each load has returned, from the file and from the table. -/
  loads : List (List (RunEntry ι) × List (RunEntry ι))
  /-- The runs by their last upsert, from the oldest. -/
  history : List (RunEntry ι)

namespace IndexAdapters

def upsertedAll (history list : List (RunEntry ι)) : List (RunEntry ι) :=
  history.filter (fun r => r.id ∉ list.map RunEntry.id) ++ list

def step (s : IndexAdapters ι) : IndexCall ι → Option (IndexAdapters ι)
  | .upsertRunSummary summary =>
    some
      { s with
        file := s.file.upsertRunSummary summary
        table := pruneRunIndex (upsertRow (s.now + 1) s.table summary)
        now := s.now + 1
        history := upsertedAll s.history [summary] }
  | .loadRunIndex query =>
    some { s with loads := s.loads ++ [(s.file.loadRunIndex query, loadRows s.table query)] }
  | .saveRunIndex load live =>
    s.loads[load]?.map fun loaded =>
      { s with
        file := s.file.saveRunIndex (merged loaded.1 live)
        table := saveRows (s.now + 1) s.table (merged loaded.2 live)
        now := s.now + 1
        history := upsertedAll s.history (merged loaded.1 live) }

def Start (s : IndexAdapters ι) : Prop :=
  s.file.index = [] ∧ s.table = [] ∧ s.loads = [] ∧ s.history = []

/-- Every load returns the same from both adapters, and both have exactly the newest runs of each
tenant. -/
structure Agree (s : IndexAdapters ι) : Prop where
  loads : ∀ query, s.file.loadRunIndex query = loadRows s.table query
  file : ∀ tenant, entriesOf tenant s.file.index =
    (entriesOf tenant s.history).rtake maxRunIndexPerTenant
  table : ∀ tenant, entriesOf tenant ((ordered IndexRow.recency s.table).map IndexRow.summary) =
    (entriesOf tenant s.history).rtake maxRunIndexPerTenant

def ReadAlike (r : RunEntry ι) : Prop :=
  r.orgId.length < 128 ∧ r.projectId.length < 128 ∧
    (r.ownershipOrgId = [] ∨ r.ownershipOrgId = r.orgId)

/-- The order of the list is the descending order of the ids, by which the table orders the rows
of one save. -/
def Descending (list : List (RunEntry ι)) : Prop :=
  (retained list).Pairwise (fun a b => b.id < a.id) ∧
    ∀ a ∈ list, a ∉ retained list → ∀ b ∈ retained list,
      runTenantKey b = runTenantKey a → a.id < b.id

/-- A save of the list stores it without a pruning by size, no row outlives it, and the runs stay
with their tenants. -/
structure Saves (s : IndexAdapters ι) (list : List (RunEntry ι)) : Prop where
  alike : ∀ r ∈ list, ReadAlike r
  descending : Descending list
  replaces : ∀ r ∈ s.file.index, r.id ∉ list.map RunEntry.id →
    maxRunIndexPerTenant ≤ (entriesOf (runTenantKey r) list).length
  owned : ∀ r ∈ s.file.index, ∀ x ∈ list, x.id = r.id → runTenantKey x = runTenantKey r
  fits : s.file.limits.textLength (retained list) ≤ s.file.maxBytes
  short : (retained list).length ≤ runIndexReadLimit

def Alike (s : IndexAdapters ι) : IndexCall ι → Prop
  | .upsertRunSummary summary => (∀ r ∈ s.file.index, r.id = summary.id ∧ runTenantKey r = runTenantKey summary) ∧
      ReadAlike summary ∧ s.file.limits.textLength [summary] ≤ s.file.maxBytes
  | .loadRunIndex _ => True
  | .saveRunIndex load live => ∀ loaded ∈ s.loads[load]?, s.Saves (merged loaded.1 live)

instance (r : RunEntry ι) : Decidable (ReadAlike r) := inferInstanceAs (Decidable (_ ∧ _ ∧ (_ ∨ _)))

instance (list : List (RunEntry ι)) : Decidable (Descending list) :=
  inferInstanceAs (Decidable (List.Pairwise _ _ ∧ ∀ a ∈ list, a ∉ retained list →
    ∀ b ∈ retained list, runTenantKey b = runTenantKey a → a.id < b.id))

variable {s t : IndexAdapters ι} {call : IndexCall ι} {list : List (RunEntry ι)} {r x : RunEntry ι}
  {table : List (IndexRow ι)} {row : IndexRow ι} {now : Nat}

omit [LinearOrder ι] in
theorem ReadAlike.runTenantKey_eq (h : ReadAlike r) : runTenantKey r = r.orgId := by
  obtain ⟨hOrg, -, hOwner⟩ := h
  have hShort : r.orgId.take 128 = r.orgId := List.take_of_length_le hOrg.le
  unfold runTenantKey
  split
  · rename_i hNone
    obtain hEmpty | hSame := hOwner
    · rw [hEmpty, hNone]
      rfl
    · rw [hSame, hShort]
  · exact hShort

theorem mem_upsertRow : row ∈ upsertRow now table x ↔
    row = ⟨x, now⟩ ∨ row ∈ table ∧ row.summary.id ≠ x.id := by
  rw [upsertRow, List.mem_append, List.mem_filter, List.mem_singleton, decide_eq_true_iff, or_comm]

theorem mem_upsertRows (hNodup : (list.map RunEntry.id).Nodup) :
    row ∈ list.foldl (upsertRow now) table ↔
      (row.summary ∈ list ∧ row.updatedAt = now) ∨
        row ∈ table ∧ row.summary.id ∉ list.map RunEntry.id := by
  induction list generalizing table with
  | nil => simp
  | cons x list ih =>
    rw [List.map_cons, List.nodup_cons] at hNodup
    obtain ⟨hNew, hNodup⟩ := hNodup
    rw [List.foldl_cons, ih hNodup, mem_upsertRow, List.map_cons, List.mem_cons, List.mem_cons]
    constructor
    · rintro (⟨hMem, hNow⟩ | ⟨rfl | ⟨hMem, hOther⟩, hRest⟩)
      · exact .inl ⟨.inr hMem, hNow⟩
      · exact .inl ⟨.inl rfl, rfl⟩
      · exact .inr ⟨hMem, fun h => h.elim hOther hRest⟩
    · rintro (⟨hFirst | hMem, hNow⟩ | ⟨hMem, hRest⟩)
      · obtain ⟨summary, updatedAt⟩ := row
        cases hFirst
        cases hNow
        exact .inr ⟨.inl rfl, hNew⟩
      · exact .inl ⟨hMem, hNow⟩
      · exact .inr ⟨.inr ⟨hMem, fun h => hRest (.inl h)⟩, fun h => hRest (.inr h)⟩

def Keyed (table : List (IndexRow ι)) : Prop := (table.map fun row => row.summary.id).Nodup

theorem keyed_upsertRow (h : Keyed table) : Keyed (upsertRow now table x) := by
  unfold Keyed upsertRow
  rw [List.map_append, List.map_cons, List.map_nil, List.nodup_append]
  refine ⟨h.sublist (List.filter_sublist.map _), List.nodup_singleton _, ?_⟩
  rintro id hOld id' hNew rfl
  obtain ⟨row, hRow, rfl⟩ := List.mem_map.mp hOld
  rw [List.mem_singleton] at hNew
  exact absurd hNew (of_decide_eq_true (List.mem_filter.mp hRow).2)

theorem keyed_upsertRows (h : Keyed table) : Keyed (list.foldl (upsertRow now) table) := by
  induction list generalizing table with
  | nil => exact h
  | cons x list ih => exact ih (keyed_upsertRow h)

omit [LinearOrder ι] in
theorem Keyed.recency_nodup (h : Keyed table) : (table.map IndexRow.recency).Nodup := by
  refine List.Nodup.of_map (fun key => (ofLex key).2) ?_
  rw [List.map_map]
  exact h

/-- The file and the table have the same runs in the same order, which are the newest of each
tenant. -/
structure Sound (s : IndexAdapters ι) : Prop where
  keyed : Keyed s.table
  past : ∀ row ∈ s.table, row.updatedAt ≤ s.now
  same : (ordered IndexRow.recency s.table).map IndexRow.summary = s.file.index
  alike : ∀ r ∈ s.file.index, ReadAlike r
  short : s.file.index.length ≤ runIndexReadLimit
  newest : ∀ tenant, entriesOf tenant s.file.index =
    (entriesOf tenant s.history).rtake maxRunIndexPerTenant
  loads : ∀ loaded ∈ s.loads, loaded.1 = loaded.2

theorem Sound.mem_index (hs : s.Sound) (hRow : row ∈ s.table) : row.summary ∈ s.file.index := by
  rw [← hs.same]
  exact List.mem_map_of_mem (mem_ordered.mpr hRow)

def rowsAt (now : Nat) (list : List (RunEntry ι)) : List (IndexRow ι) := list.map fun r => ⟨r, now⟩

omit [LinearOrder ι] in
theorem full_of_dropped (hMem : x ∈ list) (hDropped : x ∉ retained list) :
    (entriesOf (runTenantKey x) (retained list)).length = maxRunIndexPerTenant := by
  rw [entriesOf_retained]
  by_contra hLess
  have hAll : (entriesOf (runTenantKey x) list).length ≤ maxRunIndexPerTenant := by
    rw [List.rtake, List.length_drop] at hLess
    omega
  have hKept : x ∈ entriesOf (runTenantKey x) (retained list) := by
    rw [entriesOf_retained, rtake_of_length_le hAll]
    exact List.mem_filter.mpr ⟨hMem, decide_eq_true rfl⟩
  exact hDropped (List.mem_of_mem_filter hKept)

theorem length_le_ahead (now : Nat) (hNodup : list.Nodup) {rows : List (IndexRow ι)}
    (hRows : ∀ r ∈ list, ⟨r, now⟩ ∈ rows)
    (hAhead : ∀ r ∈ list, r.orgId = row.orgId ∧ row.recency < toLex (now, r.id)) :
    list.length ≤ (ahead IndexRow.orgId IndexRow.recency rows row).length := by
  have hInjective : (rowsAt now list).Nodup :=
    hNodup.map fun a b h => congrArg IndexRow.summary h
  have hSubset : rowsAt now list ⊆ ahead IndexRow.orgId IndexRow.recency rows row := by
    intro b hb
    obtain ⟨r, hr, rfl⟩ := List.mem_map.mp hb
    exact List.mem_filter.mpr ⟨hRows r hr, decide_eq_true (hAhead r hr)⟩
  have hLength := (List.subperm_of_subset hInjective hSubset).length_le
  rwa [rowsAt, List.length_map] at hLength

theorem newer_of_table (hs : s.Sound) (hRow : row ∈ s.table) (id : ι) :
    row.recency < toLex (s.now + 1, id) :=
  Prod.Lex.toLex_lt_toLex.mpr (.inl (Nat.lt_succ_of_le (hs.past row hRow)))

theorem newer_of_id {a b : RunEntry ι} (h : a.id < b.id) :
    (⟨a, now⟩ : IndexRow ι).recency < toLex (now, b.id) :=
  Prod.Lex.toLex_lt_toLex.mpr (.inr ⟨rfl, h⟩)

/-- What the pruning leaves of the rows of a save is what retention leaves of its list. -/
theorem saved_of_mem (hs : s.Sound) (hSaves : s.Saves list) (hNodup : (list.map RunEntry.id).Nodup)
    (hRow : row ∈ saveRows (s.now + 1) s.table list) :
    row ∈ rowsAt (s.now + 1) (retained list) := by
  obtain ⟨hMem, hRank⟩ := mem_pruned.mp hRow
  have hRows : ∀ r ∈ list, (⟨r, s.now + 1⟩ : IndexRow ι) ∈ list.foldl (upsertRow (s.now + 1)) s.table :=
    fun r hr => (mem_upsertRows hNodup).mpr (.inl ⟨hr, rfl⟩)
  have hTenant {tenant : List Char} {r : RunEntry ι} (hAlike : ReadAlike r)
      (hKey : decide (runTenantKey r = tenant) = true) : r.orgId = tenant :=
    hAlike.runTenantKey_eq.symm.trans (of_decide_eq_true hKey)
  obtain ⟨hNew, hNow⟩ | ⟨hOld, hOther⟩ := (mem_upsertRows hNodup).mp hMem
  · -- a dropped run has a full tenant of newer ones ahead of it
    obtain ⟨x, updatedAt⟩ := row
    obtain rfl : updatedAt = s.now + 1 := hNow
    refine List.mem_map_of_mem ?_
    by_contra hDropped
    have hKept : ∀ r ∈ entriesOf (runTenantKey x) (retained list), r ∈ list := fun r hr =>
      (newestPer_sublist _ _).subset (List.mem_of_mem_filter hr)
    refine absurd hRank (Nat.not_lt.mpr ?_)
    refine (full_of_dropped hNew hDropped).symm.le.trans (length_le_ahead (s.now + 1) ?_ ?_ ?_)
    · exact (hNodup.of_map _).sublist ((List.filter_sublist).trans (newestPer_sublist _ _))
    · exact fun r hr => hRows r (hKept r hr)
    · rintro r hr
      obtain ⟨hRetained, hKey⟩ := List.mem_filter.mp hr
      refine ⟨(hTenant (hSaves.alike r (hKept r hr)) hKey).trans
        (hSaves.alike x hNew).runTenantKey_eq, newer_of_id ?_⟩
      exact hSaves.descending.2 x hNew hDropped r hRetained (of_decide_eq_true hKey)
  · -- a row that is not in the list has the list's runs of its tenant ahead of it
    have hIndex := hs.mem_index hOld
    refine absurd hRank (Nat.not_lt.mpr ((hSaves.replaces _ hIndex hOther).trans ?_))
    refine length_le_ahead (s.now + 1) ((hNodup.of_map _).sublist List.filter_sublist) ?_ ?_
    · exact fun r hr => hRows r (List.mem_of_mem_filter hr)
    · rintro r hr
      obtain ⟨hList, hKey⟩ := List.mem_filter.mp hr
      exact ⟨(hTenant (hSaves.alike r hList) hKey).trans (hs.alike _ hIndex).runTenantKey_eq,
        newer_of_table hs hOld r.id⟩

theorem mem_of_saved (hs : s.Sound) (hSaves : s.Saves list) (hNodup : (list.map RunEntry.id).Nodup)
    (hRow : row ∈ rowsAt (s.now + 1) (retained list)) :
    row ∈ saveRows (s.now + 1) s.table list := by
  obtain ⟨x, hx, rfl⟩ := List.mem_map.mp hRow
  have hList : x ∈ list := (newestPer_sublist _ _).subset hx
  refine mem_pruned.mpr ⟨(mem_upsertRows hNodup).mpr (.inl ⟨hList, rfl⟩), ?_⟩
  -- the rows ahead are of retained runs of the tenant, without the run itself
  let others := ahead IndexRow.orgId IndexRow.recency
    (list.foldl (upsertRow (s.now + 1)) s.table) ⟨x, s.now + 1⟩
  have hOthers : ∀ b ∈ others, b.summary ∈ entriesOf (runTenantKey x) (retained list) ∧
      b.summary ≠ x := by
    intro b hb
    obtain ⟨hMem, hAhead⟩ := List.mem_filter.mp hb
    obtain ⟨hOrg, hNewer⟩ := of_decide_eq_true hAhead
    obtain ⟨hNew, hNow⟩ | ⟨hOld, -⟩ := (mem_upsertRows hNodup).mp hMem
    · have hId : x.id < b.summary.id := by
        obtain hLater | ⟨-, hId⟩ := Prod.Lex.toLex_lt_toLex.mp hNewer
        · exact absurd hLater (by rw [hNow]; exact lt_irrefl _)
        · exact hId
      have hKey : runTenantKey b.summary = runTenantKey x := by
        rw [(hSaves.alike _ hNew).runTenantKey_eq, (hSaves.alike _ hList).runTenantKey_eq]
        exact hOrg
      refine ⟨List.mem_filter.mpr ⟨?_, decide_eq_true hKey⟩, fun h => (h ▸ hId).ne rfl⟩
      by_contra hDropped
      exact lt_asymm hId (hSaves.descending.2 _ hNew hDropped x hx hKey.symm)
    · exact absurd hNewer (lt_asymm (newer_of_table hs hOld x.id))
  have hKeyed : Keyed others :=
    (keyed_upsertRows hs.keyed).sublist (List.filter_sublist.map _)
  have hDistinct : (x :: others.map IndexRow.summary).Nodup := by
    refine List.nodup_cons.mpr ⟨fun h => ?_, List.Nodup.of_map RunEntry.id ?_⟩
    · obtain ⟨b, hb, hSame⟩ := List.mem_map.mp h
      exact (hOthers b hb).2 hSame
    · rw [List.map_map]
      exact hKeyed
  have hSubset : x :: others.map IndexRow.summary ⊆ entriesOf (runTenantKey x) (retained list) := by
    refine List.cons_subset.mpr ⟨List.mem_filter.mpr ⟨hx, decide_eq_true rfl⟩, fun r hr => ?_⟩
    obtain ⟨b, hb, rfl⟩ := List.mem_map.mp hr
    exact (hOthers b hb).1
  have hLength := (List.subperm_of_subset hDistinct hSubset).length_le
  have hCap : (entriesOf (runTenantKey x) (retained list)).length ≤ maxRunIndexPerTenant := by
    rw [entriesOf_retained, List.rtake, List.length_drop]
    omega
  rw [List.length_cons, List.length_map] at hLength
  exact Nat.lt_of_succ_le (hLength.trans hCap)

theorem ordered_saveRows (hs : s.Sound) (hSaves : s.Saves list)
    (hNodup : (list.map RunEntry.id).Nodup) :
    ordered IndexRow.recency (saveRows (s.now + 1) s.table list) =
      rowsAt (s.now + 1) (retained list) := by
  have hKeyed : Keyed (saveRows (s.now + 1) s.table list) :=
    (keyed_upsertRows hs.keyed).sublist (List.filter_sublist.map _)
  refine ordered_eq hKeyed.recency_nodup ?_ fun row =>
    ⟨saved_of_mem hs hSaves hNodup, mem_of_saved hs hSaves hNodup⟩
  exact List.pairwise_map.mpr (hSaves.descending.1.imp newer_of_id)

/-- The newest runs of each tenant after the upsert of a list are what retention leaves of it. -/
theorem newest_upsertedAll (hs : s.Sound) (hSaves : s.Saves list) (tenant : List Char) :
    entriesOf tenant (retained list) =
      (entriesOf tenant (upsertedAll s.history list)).rtake maxRunIndexPerTenant := by
  let own := (entriesOf tenant s.history).filter fun r => r.id ∉ list.map RunEntry.id
  have hOwn : entriesOf tenant (upsertedAll s.history list) = own ++ entriesOf tenant list := by
    rw [upsertedAll, entriesOf, entries_append, entries, List.filter_comm]
    rfl
  rw [entriesOf_retained, hOwn]
  by_cases hFull : maxRunIndexPerTenant ≤ (entriesOf tenant list).length
  · rw [List.rtake, List.rtake, List.length_append, Nat.add_sub_assoc hFull, List.drop_append,
      List.drop_eq_nil_of_le (Nat.le_add_right ..), Nat.add_sub_cancel_left, List.nil_append]
  · -- then every run of the tenant in the index is in the list
    have hListed : ∀ r ∈ entriesOf tenant s.file.index, ∃ x ∈ entriesOf tenant list, x.id = r.id := by
      intro r hr
      obtain ⟨hIndex, hKey⟩ := List.mem_filter.mp hr
      obtain rfl : runTenantKey r = tenant := of_decide_eq_true hKey
      by_cases hMem : r.id ∈ list.map RunEntry.id
      · obtain ⟨x, hx, hSame⟩ := List.mem_map.mp hMem
        exact ⟨x, List.mem_filter.mpr ⟨hx, decide_eq_true (hSaves.owned r hIndex x hx hSame)⟩, hSame⟩
      · exact absurd (hSaves.replaces r hIndex hMem) hFull
    have hIds : ((entriesOf tenant s.file.index).map RunEntry.id).Nodup := by
      refine List.Nodup.sublist (List.filter_sublist.map _) ?_
      rw [← hs.same, List.map_map]
      exact ((List.perm_insertionSort _ s.table).map _).nodup_iff.mpr hs.keyed
    have hFew : (entriesOf tenant s.file.index).length ≤ (entriesOf tenant list).length := by
      have hSubset : (entriesOf tenant s.file.index).map RunEntry.id ⊆
          (entriesOf tenant list).map RunEntry.id := by
        intro id hid
        obtain ⟨r, hr, rfl⟩ := List.mem_map.mp hid
        obtain ⟨x, hx, hSame⟩ := hListed r hr
        exact List.mem_map.mpr ⟨x, hx, hSame⟩
      have hLength := (List.subperm_of_subset hIds hSubset).length_le
      rwa [List.length_map, List.length_map] at hLength
    have hAll : entriesOf tenant s.file.index = entriesOf tenant s.history := by
      have hNewest := hs.newest tenant
      have hLength := congrArg List.length hNewest
      rw [List.rtake, List.length_drop] at hLength
      rw [hNewest, rtake_of_length_le]
      omega
    have hNone : own = [] := by
      refine List.filter_eq_nil_iff.mpr fun r hr hOther => ?_
      obtain ⟨x, hx, hSame⟩ := hListed r (hAll ▸ hr)
      exact of_decide_eq_true hOther (hSame ▸ List.mem_map_of_mem (List.mem_of_mem_filter hx))
    rw [hNone, List.nil_append]

def saved (s : IndexAdapters ι) (list : List (RunEntry ι)) : IndexAdapters ι :=
  { s with
    file := s.file.saveRunIndex list
    table := saveRows (s.now + 1) s.table list
    now := s.now + 1
    history := upsertedAll s.history list }

theorem Sound.saved (hs : s.Sound) (hSaves : s.Saves list) (hNodup : (list.map RunEntry.id).Nodup) :
    (s.saved list).Sound := by
  have hIndex : (s.saved list).file.index = retained list :=
    FileLimits.writeJson_of_fits hSaves.fits s.file.index
  have hOrdered := ordered_saveRows hs hSaves hNodup
  constructor
  · exact (keyed_upsertRows hs.keyed).sublist (List.filter_sublist.map _)
  · intro row hRow
    obtain ⟨r, -, rfl⟩ := List.mem_map.mp (saved_of_mem hs hSaves hNodup hRow)
    exact le_rfl
  · rw [hIndex]
    refine (congrArg _ hOrdered).trans ?_
    rw [rowsAt, List.map_map]
    exact List.map_id _
  · intro r hr
    exact hSaves.alike r ((newestPer_sublist _ _).subset (hIndex ▸ hr))
  · rw [hIndex]
    exact hSaves.short
  · intro tenant
    rw [hIndex]
    exact newest_upsertedAll hs hSaves tenant
  · exact hs.loads

theorem merged_ids (persisted live : List (RunEntry ι)) :
    ((merged persisted live).map RunEntry.id).Nodup := by
  unfold merged
  rw [OrderedMap.keyed_empty.setAll.setAll.values_map]
  exact OrderedMap.keys_nodup _

theorem saves_upsert (h : s.Alike (.upsertRunSummary x)) : s.Saves [x] := by
  obtain ⟨hOnly, hAlike, hFits⟩ := h
  constructor
  · intro r hr
    rw [List.mem_singleton.mp hr]
    exact hAlike
  · refine ⟨List.pairwise_singleton _ _, fun a ha hDropped => ?_⟩
    exact absurd ha hDropped
  · intro r hr hOther
    exact absurd (List.mem_singleton.mpr (hOnly r hr).1) hOther
  · intro r hr a ha _
    rw [List.mem_singleton.mp ha]
    exact (hOnly r hr).2.symm
  · exact hFits
  · exact Nat.le_of_ble_eq_true rfl

theorem saved_upsert (h : s.Alike (.upsertRunSummary x)) :
    s.step (.upsertRunSummary x) = some (s.saved [x]) := by
  have hUpserted : RunIndexFile.upserted s.file.index x = [x] := by
    rw [RunIndexFile.upserted, List.filter_eq_nil_iff.mpr fun r hr hOther => ?_, List.nil_append]
    exact of_decide_eq_true hOther (h.1 r hr).1
  simp only [step, saved, upsertRunSummary, hUpserted]
  rfl

theorem loadRows_filter (hs : s.Sound) (p : RunEntry ι → Bool) :
    ((ordered IndexRow.recency (s.table.filter fun row => p row.summary)).take
      runIndexReadLimit).map IndexRow.summary = s.file.index.filter p := by
  have hFilter : (ordered IndexRow.recency (s.table.filter fun row => p row.summary)).map
      IndexRow.summary = s.file.index.filter p := by
    rw [ordered_filter hs.keyed.recency_nodup, ← hs.same, List.filter_map]
    rfl
  rw [List.map_take, hFilter]
  exact List.take_of_length_le ((List.length_filter_le _ _).trans hs.short)

theorem take_eq_iff {short text : List Char} (h : short.length < 128) :
    short = text.take 128 ↔ short = text := by
  constructor
  · intro hSame
    rw [hSame, List.length_take] at h
    rwa [List.take_of_length_le (by omega)] at hSame
  · rintro rfl
    exact (List.take_of_length_le h.le).symm

theorem Sound.load (hs : s.Sound) (query : IndexQuery) :
    s.file.loadRunIndex query = loadRows s.table query := by
  have hEmpty (text : List Char) : text.take 128 ≠ [] ↔ text ≠ [] := by
    rw [ne_eq, List.take_eq_nil_iff]
    simp
  unfold RunIndexFile.loadRunIndex loadRows
  simp only [hEmpty]
  split
  · refine Eq.trans ?_ (loadRows_filter hs fun r => r.projectId = query.projectId.take 128).symm
    refine List.filter_congr fun r hr => decide_eq_decide.mpr ?_
    exact (take_eq_iff (hs.alike r hr).2.1).symm
  · rename_i hProject
    split
    · rename_i hOrg
      refine Eq.trans ?_ (loadRows_filter hs fun r => r.orgId = query.orgId.take 128).symm
      refine List.filter_congr fun r hr => decide_eq_decide.mpr ?_
      rw [take_eq_iff (hs.alike r hr).1]
      obtain hNone | hSame := (hs.alike r hr).2.2
      · rw [hNone]
        exact or_iff_left hOrg.symm
      · rw [hSame]
        exact or_self_iff
    · have hAll := loadRows_filter hs fun _ => true
      rw [List.filter_true, List.filter_true] at hAll
      exact hAll.symm

theorem sound_start (h : Start s) : s.Sound := by
  obtain ⟨hFile, hTable, hLoads, hHistory⟩ := h
  constructor <;> simp [hFile, hTable, hLoads, hHistory, Keyed, ordered, entries, List.rtake]

theorem sound_step (hs : s.Sound) (hAlike : s.Alike call) (h : s.step call = some t) : t.Sound := by
  cases call with
  | upsertRunSummary x =>
    rw [saved_upsert hAlike] at h
    cases h
    exact hs.saved (saves_upsert hAlike) (List.nodup_singleton _)
  | loadRunIndex query =>
    cases h
    refine ⟨hs.keyed, hs.past, hs.same, hs.alike, hs.short, hs.newest, fun loaded hLoaded => ?_⟩
    obtain hOld | hNew := List.mem_append.mp hLoaded
    · exact hs.loads loaded hOld
    · rw [List.mem_singleton.mp hNew]
      exact hs.load query
  | saveRunIndex load live =>
    obtain ⟨loaded, hLoaded, rfl⟩ := Option.map_eq_some_iff.mp h
    have hSame := hs.loads loaded (List.mem_of_getElem? hLoaded)
    have hSaved := hs.saved (hAlike loaded hLoaded) (merged_ids loaded.1 live)
    rw [IndexAdapters.saved] at hSaved
    rw [← hSame]
    exact hSaved

def emptyAdapters : IndexAdapters Nat := ⟨emptyFile, [], 0, [], []⟩

theorem start_empty : emptyAdapters.Start := ⟨rfl, rfl, rfl, rfl⟩

end IndexAdapters

end OrchestraAI.Persistence
