import OrchestraAI.Library.ComparatorSort
import OrchestraAI.Memory.Visibility

/-! # The bounds of the stores

How many records of a store are active, and which of them a write evicts. The write tests the size of
a map that keeps what was evicted, so the bound is kept where the size tells as much as the count.
-/

namespace OrchestraAI.Memory

open LabelledSystem FirstLeast

def isActive (m : MemoryRecord) : Bool := m.status = .active

def activeCount (store : Store) : Nat := store.values.countP isActive

def activeAt (store : Store) (id : Text) : Bool := (store.get id).any isActive

namespace MemoryManager

def cap (s : MemoryManager) : Scope → Nat
  | .working => s.maxWorkingItems
  | .longterm => s.maxLongTermItems

def Bounded (s : MemoryManager) : Prop := ∀ scope, activeCount (s.store scope) ≤ s.cap scope

/-- A record that is put into a store, and whether the size of the store is tested then. -/
structure Entry where
  scope : Scope
  tested : Bool
  record : MemoryRecord

def recordOf (tools : TextTools) (runtime : Runtime) (newId now : Text) (scope : Scope)
    (item : MemoryItem) (confidence : Option ℚ) : MemoryRecord :=
  let clean := sanitizeInput tools item
  { toRecord runtime newId now scope { clean with confidence } with
    title := clean.title, snippet := clean.snippet }

def longTermEntry (tools : TextTools) (runtime : Runtime) (newId now : Text) (item : MemoryItem)
    (explicit : Bool) : Option Entry :=
  match proposeMemory tools runtime item explicit with
  | .reject => none
  | .quarantine classification _ =>
    some ⟨.working, false, recordOf tools runtime newId now .working item
      (some (min (item.confidence.getD (1 / 2)) classification.confidence))⟩
  | .persist classification _ =>
    some ⟨.longterm, true, recordOf tools runtime newId now .longterm item
      (item.confidence.or (some classification.confidence))⟩

/-- What a call puts into a store, and `none` where it puts nothing in. -/
def entryOf (tools : TextTools) (s : MemoryManager) (runtime : Runtime) (newId now : Text) :
    Call → Option Entry
  | .writeWorkingMemory item =>
    let classification := classifyMemoryCandidate tools (sanitizeInput tools item) false
    some ⟨.working, true, recordOf tools runtime newId now .working item
      (item.confidence.or (some classification.confidence))⟩
  | .writeLongTermMemory item explicit => longTermEntry tools runtime newId now item explicit
  | .approveMemoryCandidate item =>
    longTermEntry tools runtime newId now { item with candidateApproved := true } true
  | .writeLongTermConsolidated item candidateId =>
    match consolidate tools s runtime item candidateId now with
    | none => none
    | some (.merge _ merged _) =>
      some ⟨.longterm, false,
        { merged with lastUsedAt := .text now, writers := merged.writers ++ [runtime.runId] }⟩
    | some (.conflict _ _) => longTermEntry tools runtime newId now item false
    | some (.create _) => longTermEntry tools runtime newId now item false
  | .readMemory .. => none

def gone : Scope → MemoryStatus
  | .working => .evicted
  | .longterm => .archived

def Entry.added (e : Entry) (store : Store) : Store := store.set e.record.id e.record

def Entry.put (e : Entry) (store : Store) (cap : Nat) : Store :=
  if e.tested then insert store cap (gone e.scope) e.record else e.added store

def added (s : MemoryManager) (e : Entry) : MemoryManager :=
  s.withStore (e.added (s.store e.scope)) e.scope

/-- Both stores are within their bounds, records are evicted only from a store that would be over it,
and the record is active. -/
structure Right (s t : MemoryManager) (e : Entry) : Prop where
  bounded : Bounded t
  needed : ∀ scope id, activeAt ((s.added e).store scope) id = true →
    activeAt (t.store scope) id = false → s.cap scope < activeCount ((s.added e).store scope)
  written : activeAt (t.store e.scope) e.record.id = true

def RightStep (tools : TextTools) (runs : RunId → Identity) (s t : MemoryManager) : Label → Prop
  | .call runId objective allowDurableMemory call newId now =>
    Bounded t ∧ ∀ e, entryOf tools s ⟨runId, runs runId, objective, allowDurableMemory⟩ newId now call =
      some e → Right s t e
  | _ => Bounded t

def time (m : MemoryRecord) : Text := m.lastUsedAt.str

def Full (store : Store) (cap : Nat) (id : Text) : Prop :=
  cap ≤ activeCount store ∧ activeAt store id = false

/-- Another record was used before, or at the same time and it was stored before. -/
def Spared (records : List MemoryRecord) (m : MemoryRecord) : Prop :=
  ∃ before behind, records = before ++ m :: behind ∧
    ((∃ o ∈ before, time o ≤ time m) ∨ ∃ o ∈ behind, time o < time m)

/-- The record is active. If the size is tested it is within the bound, or the bound is reached by
records that are active and of which one is evicted; else the bound is not reached. -/
def Entry.Fits (e : Entry) (store : Store) (cap : Nat) : Prop :=
  e.record.status = .active ∧
    if e.tested then
      (e.added store).size ≤ cap ∨
        Full store cap e.record.id ∧ Spared ((e.added store).values.filter isActive) e.record
    else ¬ Full store cap e.record.id

def Writes : Label → Prop
  | .call _ _ _ (.readMemory ..) _ _ => False
  | .call .. => True
  | .evictMemory .. => True
  | .purgeRun _ | .seedMemory .. => False

def Fits (tools : TextTools) (runs : RunId → Identity) (s : MemoryManager) : Label → Prop
  | .call runId objective allowDurableMemory call newId now =>
    ∀ e, entryOf tools s ⟨runId, runs runId, objective, allowDurableMemory⟩ newId now call = some e →
      e.Fits (s.store e.scope) (s.cap e.scope)
  | _ => True

variable {tools : TextTools} {runs : RunId → Identity} {s t : MemoryManager} {runtime : Runtime}
  {store after : Store} {m o : MemoryRecord} {scope : Scope} {id newId now : Text} {e : Entry}
  {bound : Nat}

theorem activeAt_eq_true :
    activeAt store id = true ↔ ∃ m, store.get id = some m ∧ isActive m = true :=
  Option.any_eq_true ..

theorem activeCount_set_new (h : store.get id = none) (m : MemoryRecord) :
    activeCount (store.set id m) = activeCount store + if isActive m then 1 else 0 := by
  rw [activeCount, (OrderedMap.values_perm_set_new m h).countP_eq, List.countP_cons]
  rfl

theorem activeCount_set_old (h : store.get id = some o) (m : MemoryRecord) :
    activeCount (store.set id m) + (if isActive o then 1 else 0) =
      activeCount store + if isActive m then 1 else 0 := by
  have hCount := (OrderedMap.values_perm_set_old m h).countP_eq isActive
  rw [List.countP_cons, List.countP_cons] at hCount
  exact hCount

theorem activeCount_added (hActive : isActive e.record = true) :
    activeCount (e.added store) =
      activeCount store + if activeAt store e.record.id then 0 else 1 := by
  rw [Entry.added, activeAt]
  cases hOld : store.get e.record.id with
  | none =>
    rw [activeCount_set_new hOld, if_pos hActive]
    rfl
  | some o =>
    have hCount := activeCount_set_old hOld e.record
    rw [if_pos hActive] at hCount
    change _ = _ + if isActive o then 0 else 1
    split at hCount <;> split <;> simp_all

theorem full_iff (hActive : isActive e.record = true) (hBound : activeCount store ≤ bound) :
    bound < activeCount (e.added store) ↔ Full store bound e.record.id := by
  rw [activeCount_added hActive, Full]
  cases activeAt store e.record.id with
  | true => simpa using hBound
  | false => simp only [Bool.false_eq_true, if_false, and_true, Nat.lt_add_one_iff]

theorem activeCount_le_size (store : Store) : activeCount store ≤ store.size := by
  have hLength : store.values.length = store.size := List.length_map _
  exact hLength ▸ List.countP_le_length

def Timed (store : Store) : Prop :=
  ∀ id m, store.get id = some m → m.id = id ∧ ∃ t, m.lastUsedAt = .text t

theorem Timed.keyed (h : Timed store) : store.Keyed (·.id) := fun id m hGet => (h id m hGet).1

theorem Timed.set (h : Timed store) (hm : ∃ t, m.lastUsedAt = .text t) :
    Timed (store.set m.id m) := by
  intro id n hGet
  rw [OrderedMap.get_set] at hGet
  split at hGet
  · rename_i hSame
    cases hGet
    exact ⟨hSame.symm, hm⟩
  · exact h id n hGet

theorem Timed.of_mem (h : Timed store) (hm : m ∈ store.values) : ∃ t, m.lastUsedAt = .text t :=
  (h m.id m (h.keyed.mem_values.mp hm)).2

theorem before_iff (hm : ∃ t, m.lastUsedAt = .text t) (o : MemoryRecord) :
    m.lastUsedAt.before o.lastUsedAt = true ↔ time m < time o := by
  have hStr (t : Text) : (Field.text t).str = t := by
    cases t with
    | nil => rfl
    | cons => rfl
  obtain ⟨t, ht⟩ := hm
  rw [time, time, ht, hStr]
  cases o.lastUsedAt with
  | undefined => exact iff_of_false Bool.false_ne_true (List.not_lt_nil t)
  | null => exact iff_of_false Bool.false_ne_true (List.not_lt_nil t)
  | value u =>
    rw [hStr]
    exact decide_eq_true_iff

theorem oldest_eq (h : Timed store) :
    oldest store = (store.values.filter isActive).argmin time := by
  rw [oldest, List.argmin, List.foldl_filter]
  refine List.foldl_ext _ _ none fun best m hm => ?_
  by_cases hActive : m.status = .active
  · have hIs : isActive m = true := decide_eq_true hActive
    rw [if_neg (not_not_intro hActive), if_pos hIs]
    cases best with
    | none => rfl
    | some o => exact if_congr (before_iff (h.of_mem hm) o) rfl rfl
  · have hNot : ¬ isActive m = true := fun hIs => hActive (of_decide_eq_true hIs)
    rw [if_pos hActive, if_neg hNot]

theorem oldest_some (h : Timed store) (ho : oldest store = some o) :
    store.get o.id = some o ∧ isActive o = true := by
  rw [oldest_eq h] at ho
  obtain ⟨hMem, hActive⟩ := List.mem_filter.mp (List.argmin_mem ho)
  exact ⟨h.keyed.mem_values.mp hMem, hActive⟩

theorem exists_oldest (h : Timed store) (hPos : 0 < activeCount store) : ∃ o, oldest store = some o := by
  rw [← Option.ne_none_iff_exists', oldest_eq h, Ne, List.argmin_eq_none]
  intro hNil
  rw [activeCount, List.countP_eq_length_filter, hNil] at hPos
  exact absurd hPos (Nat.lt_irrefl 0)

theorem Timed.nodup (h : Timed store) : store.values.Nodup := by
  refine List.Nodup.of_map (·.id) ?_
  rw [h.keyed.values_map]
  exact store.keys_nodup

theorem spared_iff {records : List MemoryRecord} (hNodup : records.Nodup) (hm : m ∈ records) :
    Spared records m ↔ records.argmin time ≠ some m := by
  obtain ⟨before, behind, rfl⟩ := List.append_of_mem hm
  have hBefore : m ∉ before := fun hMem =>
    (List.nodup_append.mp hNodup).2.2 m hMem m List.mem_cons_self rfl
  have hBehind : m ∉ behind := (List.nodup_cons.mp (List.nodup_append.mp hNodup).2.1).1
  rw [Ne, argmin_eq_iff hBefore hBehind, At]
  constructor
  · rintro ⟨before', behind', hSplit, hSpared⟩ ⟨hGreater, hNotLess⟩
    obtain ⟨rfl, -, rfl⟩ := (List.append_cons_inj_of_notMem hBefore hBehind).mp hSplit
    obtain ⟨o, ho, hLe⟩ | ⟨o, ho, hLt⟩ := hSpared
    · exact absurd hLe (not_le.mpr (hGreater o ho))
    · exact absurd hLt (not_lt.mpr (hNotLess o ho))
  · intro hNot
    refine ⟨before, behind, rfl, ?_⟩
    by_contra hNone
    rw [not_or, not_exists, not_exists] at hNone
    exact hNot ⟨fun o ho => not_le.mp fun hLe => hNone.1 o ⟨ho, hLe⟩,
      fun o ho => not_lt.mp fun hLt => hNone.2 o ⟨ho, hLt⟩⟩

theorem not_active_gone (m : MemoryRecord) (scope : Scope) :
    isActive { m with status := gone scope } = false := by
  cases scope <;> rfl

theorem activeCount_evict (ho : store.get o.id = some o) (hActive : isActive o = true)
    (scope : Scope) :
    activeCount (store.set o.id { o with status := gone scope }) + 1 = activeCount store := by
  have hCount := activeCount_set_old ho { o with status := gone scope }
  rwa [if_pos hActive, not_active_gone, if_neg Bool.false_ne_true] at hCount

theorem activeAt_set (store : Store) (key : Text) (m : MemoryRecord) (id : Text) :
    activeAt (store.set key m) id = if id = key then isActive m else activeAt store id := by
  rw [activeAt, OrderedMap.get_set]
  split
  · rfl
  · rfl

theorem activeAt_evict (o : MemoryRecord) (scope : Scope) (id : Text) :
    activeAt (store.set o.id { o with status := gone scope }) id =
      if id = o.id then false else activeAt store id := by
  rw [activeAt_set, not_active_gone]

theorem activeAt_added (e : Entry) (store : Store) :
    activeAt (e.added store) e.record.id = isActive e.record := by
  rw [Entry.added, activeAt_set, if_pos rfl]

/-- Either the record is just put in, or the size is over the bound and the oldest record is evicted. -/
theorem put_cases (e : Entry) (store : Store) (bound : Nat) :
    e.put store bound = e.added store ∧ (e.tested = true → (e.added store).size ≤ bound) ∨
      e.tested = true ∧ bound < (e.added store).size ∧
        e.put store bound = evictOldest (e.added store) (gone e.scope) := by
  rw [Entry.put, insert]
  split
  · rename_i hTested
    by_cases hOver : bound < (e.added store).size
    · exact .inr ⟨hTested, hOver, if_pos hOver⟩
    · exact .inl ⟨if_neg hOver, fun _ => not_lt.mp hOver⟩
  · rename_i hTested
    exact .inl ⟨rfl, fun h => absurd h hTested⟩

theorem evictOldest_eq (ho : oldest store = some o) (status : MemoryStatus) :
    evictOldest store status = store.set o.id { o with status := status } := by
  rw [evictOldest, ho]

theorem activeAt_put (h : activeAt (e.put store bound) id = true) :
    activeAt (e.added store) id = true := by
  obtain ⟨hPut, -⟩ | ⟨-, -, hPut⟩ := put_cases e store bound
  · rwa [hPut] at h
  · rw [hPut] at h
    cases ho : oldest (e.added store) with
    | none => rwa [evictOldest, ho] at h
    | some o =>
      rw [evictOldest_eq ho, activeAt_evict] at h
      split at h
      · cases h
      · exact h

theorem put_iff (hTimed : Timed (e.added store)) (hBound : activeCount store ≤ bound) :
    (activeCount (e.put store bound) ≤ bound ∧
      (∀ id, activeAt (e.added store) id = true → activeAt (e.put store bound) id = false →
        bound < activeCount (e.added store)) ∧
      activeAt (e.put store bound) e.record.id = true) ↔ e.Fits store bound := by
  by_cases hActive : isActive e.record = true
  · have hFull := full_iff hActive hBound
    have hStatus : e.record.status = .active := of_decide_eq_true hActive
    obtain ⟨hPut, hSize⟩ | ⟨hTested, hOver, hPut⟩ := put_cases e store bound
    · -- nothing is evicted
      have hNothing : ∀ id, activeAt (e.added store) id = true →
          activeAt (e.added store) id = false → bound < activeCount (e.added store) :=
        fun id h hNot => Bool.noConfusion (h.symm.trans hNot)
      rw [hPut, activeAt_added, Entry.Fits, ← hFull]
      split
      · rename_i hTested
        have hCount := (activeCount_le_size (e.added store)).trans (hSize hTested)
        exact iff_of_true ⟨hCount, hNothing, hActive⟩ ⟨hStatus, .inl (hSize hTested)⟩
      · exact ⟨fun h => ⟨hStatus, not_lt.mpr h.1⟩, fun h => ⟨not_lt.mp h.2, hNothing, hActive⟩⟩
    · -- the oldest record is evicted
      have hMem : e.record ∈ (e.added store).values.filter isActive :=
        List.mem_filter.mpr ⟨hTimed.keyed.mem_values.mpr (OrderedMap.get_set_self ..), hActive⟩
      have hPos : 0 < activeCount (e.added store) := by
        rw [activeCount, List.countP_eq_length_filter]
        exact List.length_pos_of_mem hMem
      obtain ⟨o, ho⟩ := exists_oldest hTimed hPos
      obtain ⟨hGet, hOldActive⟩ := oldest_some hTimed ho
      have hCount := activeCount_evict hGet hOldActive e.scope
      have hMost : activeCount (e.added store) ≤ bound + 1 := by
        rw [activeCount_added hActive]
        split <;> omega
      have hSpared : Spared ((e.added store).values.filter isActive) e.record ↔ o.id ≠ e.record.id := by
        rw [spared_iff (hTimed.nodup.filter _) hMem, ← oldest_eq hTimed, ho, Ne, Option.some.injEq]
        refine not_congr ⟨congrArg _, fun hId => ?_⟩
        rw [hId] at hGet
        exact Option.some.inj (hGet.symm.trans (OrderedMap.get_set_self ..))
      rw [hPut, evictOldest_eq ho, Entry.Fits, if_pos hTested, ← hFull, hSpared]
      constructor
      · rintro ⟨-, hNeeded, hWritten⟩
        have hGone : activeAt ((e.added store).set o.id { o with status := gone e.scope }) o.id =
            false := by
          rw [activeAt_evict, if_pos rfl]
        refine ⟨hStatus, .inr ⟨hNeeded o.id (activeAt_eq_true.mpr ⟨o, hGet, hOldActive⟩) hGone, ?_⟩⟩
        intro hId
        rw [activeAt_evict, if_pos hId.symm] at hWritten
        cases hWritten
      · rintro ⟨-, hSize | ⟨hNeeded, hOther⟩⟩
        · exact absurd hSize (not_le.mpr hOver)
        · refine ⟨by omega, fun _ _ _ => hNeeded, ?_⟩
          rw [activeAt_evict, if_neg (Ne.symm hOther), activeAt_added]
          exact hActive
  · refine iff_of_false (fun h => hActive ?_) fun h => hActive (decide_eq_true h.1)
    have hAdded := activeAt_put h.2.2
    rwa [activeAt_added] at hAdded

@[simp] theorem store_withStore (s : MemoryManager) (store : Store) (scope other : Scope) :
    (s.withStore store scope).store other = if other = scope then store else s.store other := by
  cases scope <;> cases other <;> rfl

@[simp] theorem cap_withStore (s : MemoryManager) (store : Store) (scope other : Scope) :
    (s.withStore store scope).cap other = s.cap other := by
  cases scope <;> cases other <;> rfl

def Like (a b : Store) : Prop :=
  a.Rel (fun v w => w.id = v.id ∧ w.status = v.status ∧ w.lastUsedAt = v.lastUsedAt) b

theorem like_refl (store : Store) : Like store store :=
  OrderedMap.rel_refl (fun _ => ⟨rfl, rfl, rfl⟩) store

theorem isActive_congr {v w : MemoryRecord} (h : w.status = v.status) : isActive w = isActive v := by
  rw [isActive, isActive, h]

theorem Like.activeCount (h : Like store after) : activeCount after = activeCount store :=
  OrderedMap.Rel.countP h fun _ _ hvw => isActive_congr hvw.2.1

theorem Like.activeAt (h : Like store after) (id : Text) : activeAt after id = activeAt store id := by
  rw [Bool.eq_iff_iff, activeAt_eq_true, activeAt_eq_true]
  constructor
  · rintro ⟨w, hGet, hActive⟩
    obtain ⟨v, hv, -, hStatus, -⟩ := OrderedMap.Rel.get h hGet
    exact ⟨v, hv, (isActive_congr hStatus).symm.trans hActive⟩
  · rintro ⟨v, hGet, hActive⟩
    obtain ⟨w, hw, -, hStatus, -⟩ := (OrderedMap.Rel.flip h).get hGet
    exact ⟨w, hw, (isActive_congr hStatus).trans hActive⟩

theorem Like.timed (h : Like store after) (hTimed : Timed store) : Timed after := by
  intro id w hGet
  obtain ⟨v, hv, hId, -, hUsed⟩ := OrderedMap.Rel.get h hGet
  obtain ⟨hKey, hText⟩ := hTimed id v hv
  rw [hId, hUsed]
  exact ⟨hKey, hText⟩

theorem markConflict_like (s : MemoryManager) (store : Store) (m target : MemoryRecord) :
    ∃ after, Like store after ∧
      markConflict (s.withStore store m.scope) m target = s.withStore after m.scope := by
  have hStore : (s.withStore store m.scope).store m.scope = store := by
    rw [store_withStore, if_pos rfl]
  rw [markConflict, hStore]
  split
  · exact ⟨store, like_refl store, rfl⟩
  · rename_i found hFound
    refine ⟨_, OrderedMap.Rel.set (like_refl store) hFound
      (w := { found with conflictWith := some target.id }) fun u hu => ?_, ?_⟩
    · rw [← Option.some.inj (hFound.symm.trans hu)]
      exact ⟨rfl, rfl, rfl⟩
    · cases m.scope <;> rfl

theorem writeLongTermMemory_eq (tools : TextTools) (s : MemoryManager) (runtime : Runtime)
    (item : MemoryItem) (explicit : Bool) (newId now : Text) :
    writeLongTermMemory tools s runtime item explicit newId now =
      (longTermEntry tools runtime newId now item explicit).map fun e =>
        (s.withStore (e.put (s.store e.scope) (s.cap e.scope)) e.scope, e.record) := by
  rw [writeLongTermMemory, longTermEntry]
  obtain hReject | ⟨classification, hQuarantine | hPersist⟩ :=
    proposeMemory_cases tools runtime item explicit
  · rw [hReject]
    rfl
  · rw [hQuarantine]
    rfl
  · rw [hPersist]
    rfl

theorem longTermEntry_scope {item : MemoryItem} {explicit : Bool}
    (h : longTermEntry tools runtime newId now item explicit = some e) : e.record.scope = e.scope := by
  rw [longTermEntry] at h
  split at h
  · cases h
  · cases h
    rfl
  · cases h
    rfl

def Performs (s t : MemoryManager) : Option Entry → Prop
  | none => t = s
  | some e => ∃ after, Like (e.put (s.store e.scope) (s.cap e.scope)) after ∧
      t = s.withStore after e.scope

theorem performs_longTerm (s : MemoryManager) (item : MemoryItem) (explicit : Bool) :
    Performs s (((writeLongTermMemory tools s runtime item explicit newId now).map Prod.fst).getD s)
      (longTermEntry tools runtime newId now item explicit) := by
  rw [writeLongTermMemory_eq]
  cases longTermEntry tools runtime newId now item explicit with
  | none => rfl
  | some e => exact ⟨_, like_refl _, rfl⟩

theorem performs_conflict (s : MemoryManager) (item : MemoryItem) (target : MemoryRecord) :
    Performs s (((writeLongTermMemory tools s runtime item false newId now).map fun written =>
      markConflict written.1 written.2 target).getD s)
      (longTermEntry tools runtime newId now item false) := by
  rw [writeLongTermMemory_eq]
  cases hEntry : longTermEntry tools runtime newId now item false with
  | none => rfl
  | some e =>
    obtain ⟨after, hLike, hMark⟩ := markConflict_like s (e.put (s.store e.scope) (s.cap e.scope))
      e.record target
    rw [longTermEntry_scope hEntry] at hMark
    exact ⟨after, hLike, hMark⟩

theorem perform_entry {call : Call}
    (hWrites : ∀ scope query limit, call ≠ .readMemory scope query limit) :
    Performs s (perform tools s runtime newId now call)
      (entryOf tools s runtime newId now call) := by
  cases call with
  | writeWorkingMemory item => exact ⟨_, like_refl _, rfl⟩
  | writeLongTermMemory item explicit => exact performs_longTerm s item explicit
  | approveMemoryCandidate item => exact performs_longTerm s { item with candidateApproved := true } true
  | writeLongTermConsolidated item candidateId =>
    rw [perform, writeLongTermConsolidated, entryOf]
    cases hDecision : consolidate tools s runtime item candidateId now with
    | none => rfl
    | some decision =>
      cases decision with
      | create => exact performs_longTerm s item false
      | conflict target => exact performs_conflict s item target
      | merge target merged =>
        -- the merged record keeps the id of its target
        have hId : target.id = merged.id := (consolidateCandidate_merge hDecision).2.1.symm
        refine ⟨_, like_refl _, ?_⟩
        change { s with longTermMemory := s.longTermMemory.set target.id _ } = _
        rw [hId]
        rfl
  | readMemory scope query limit => exact absurd rfl (hWrites scope query limit)

theorem entryOf_timed {call : Call} (h : entryOf tools s runtime newId now call = some e) :
    ∃ t, e.record.lastUsedAt = .text t := by
  have hOr (a : Field) : ∃ t, a.or (.text now) = .text t := by
    rw [Field.or]
    split
    · rename_i hSome
      obtain ⟨t, ht⟩ := Option.isSome_iff_exists.mp hSome
      exact ⟨t, Field.given_eq_some ht⟩
    · exact ⟨now, rfl⟩
  have hLongTerm {item : MemoryItem} {explicit : Bool}
      (h : longTermEntry tools runtime newId now item explicit = some e) :
      ∃ t, e.record.lastUsedAt = .text t := by
    rw [longTermEntry] at h
    split at h
    · cases h
    · cases h
      exact hOr item.lastUsedAt
    · cases h
      exact hOr item.lastUsedAt
  cases call with
  | writeWorkingMemory item =>
    cases h
    exact hOr item.lastUsedAt
  | writeLongTermMemory item explicit => exact hLongTerm h
  | approveMemoryCandidate item => exact hLongTerm h
  | writeLongTermConsolidated item candidateId =>
    rw [entryOf] at h
    split at h
    · cases h
    · cases h
      exact ⟨now, rfl⟩
    · exact hLongTerm h
    · exact hLongTerm h
  | readMemory => cases h

theorem Timed.added (h : Timed store) (he : ∃ t, e.record.lastUsedAt = .text t) :
    Timed (e.added store) :=
  h.set he

theorem Timed.put (h : Timed (e.added store)) : Timed (e.put store bound) := by
  obtain ⟨hPut, -⟩ | ⟨-, -, hPut⟩ := put_cases e store bound
  · rwa [hPut]
  · rw [hPut]
    cases ho : oldest (e.added store) with
    | none => rwa [evictOldest, ho]
    | some o =>
      rw [evictOldest_eq ho]
      exact h.set (m := { o with status := gone e.scope }) (h o.id o (oldest_some h ho).1).2

/-- The bounds are kept, and every record is at its id and was used at some time. -/
structure Good (s : MemoryManager) : Prop where
  bounded : Bounded s
  timed : ∀ scope, Timed (s.store scope)

theorem Good.withStore (hs : Good s) (hTimed : Timed after) (hBound : activeCount after ≤ s.cap scope) :
    Good (s.withStore after scope) := by
  refine ⟨fun other => ?_, fun other => ?_⟩
  · rw [store_withStore, cap_withStore]
    split
    · rename_i hSame
      rwa [hSame]
    · exact hs.bounded other
  · rw [store_withStore]
    split
    · exact hTimed
    · exact hs.timed other

theorem right_iff (hs : Good s) (he : ∃ t, e.record.lastUsedAt = .text t)
    (hLike : Like (e.put (s.store e.scope) (s.cap e.scope)) after) :
    Right s (s.withStore after e.scope) e ↔ e.Fits (s.store e.scope) (s.cap e.scope) := by
  rw [← put_iff ((hs.timed e.scope).added he) (hs.bounded e.scope), ← hLike.activeCount]
  have hAt := hLike.activeAt
  constructor
  · rintro ⟨hBounded, hNeeded, hWritten⟩
    refine ⟨?_, fun id hAdded hGone => ?_, ?_⟩
    · simpa using hBounded e.scope
    · rw [← hAt] at hGone
      simpa [MemoryManager.added] using hNeeded e.scope id (by simpa [MemoryManager.added] using hAdded)
        (by simpa using hGone)
    · rw [← hAt]
      simpa using hWritten
  · rintro ⟨hBounded, hNeeded, hWritten⟩
    refine ⟨fun other => ?_, fun other id hAdded hGone => ?_, ?_⟩
    · rw [store_withStore, cap_withStore]
      split
      · rename_i hSame
        rwa [hSame]
      · exact hs.bounded other
    · rw [MemoryManager.added, store_withStore] at hAdded ⊢
      rw [store_withStore] at hGone
      split at hAdded
      · rename_i hSame
        rw [if_pos hSame, hAt] at hGone
        rw [hSame, if_pos rfl]
        exact hNeeded id hAdded hGone
      · rename_i hOther
        rw [if_neg hOther] at hGone
        exact Bool.noConfusion (hAdded.symm.trans hGone)
    · rw [store_withStore, if_pos rfl, hAt]
      exact hWritten

theorem good_start (h : Start s) : Good s := by
  obtain ⟨hWorking, hLongTerm, -⟩ := h
  have hEmpty (scope : Scope) : s.store scope = .empty := by
    cases scope with
    | working => exact hWorking
    | longterm => exact hLongTerm
  refine ⟨fun scope => ?_, fun scope id m hGet => ?_⟩
  · rw [hEmpty]
    exact Nat.zero_le _
  · rw [hEmpty] at hGet
    cases hGet

theorem Good.evictMemory (hs : Good s) (itemId : Text) (scope : Scope) (now : Text) :
    Good (evictMemory s itemId scope now) := by
  rw [MemoryManager.evictMemory]
  split
  · exact hs
  · rename_i item hItem
    obtain ⟨hId, -⟩ := hs.timed scope itemId item hItem
    refine hs.withStore ?_ ?_
    · rw [← hId]
      exact (hs.timed scope).set (m := { item with status := .evicted, lastUsedAt := .text now })
        ⟨now, rfl⟩
    · have hCount := activeCount_set_old hItem { item with status := .evicted, lastUsedAt := .text now }
      have hNot : isActive { item with status := .evicted, lastUsedAt := .text now } = false := rfl
      rw [hNot, if_neg Bool.false_ne_true] at hCount
      exact (Nat.le_of_add_right_le hCount.le).trans (hs.bounded scope)

/-- What is said of a call holds if and only if its entry fits, and then the state after it is good. -/
theorem Good.performs (hs : Good s) {entry : Option Entry} (hPerforms : Performs s t entry)
    (hTimed : ∀ e, entry = some e → ∃ t, e.record.lastUsedAt = .text t) :
    ((Bounded t ∧ ∀ e, entry = some e → Right s t e) ↔
      ∀ e, entry = some e → e.Fits (s.store e.scope) (s.cap e.scope)) ∧
    ((∀ e, entry = some e → e.Fits (s.store e.scope) (s.cap e.scope)) → Good t) := by
  cases entry with
  | none =>
    obtain rfl := hPerforms
    have hNone {P : Entry → Prop} : ∀ e, none = some e → P e := by
      rintro e ⟨⟩
    exact ⟨iff_of_true ⟨hs.bounded, hNone⟩ hNone, fun _ => hs⟩
  | some e =>
    obtain ⟨after, hLike, rfl⟩ := hPerforms
    have hRight := right_iff hs (hTimed e rfl) hLike
    have hAfter : Timed after := hLike.timed ((hs.timed e.scope).added (hTimed e rfl)).put
    have hOnly {P : Entry → Prop} : (∀ e', some e = some e' → P e') ↔ P e := by
      constructor
      · exact fun h => h e rfl
      · rintro h _ ⟨⟩
        exact h
    rw [hOnly, hOnly]
    refine ⟨⟨fun h => hRight.mp h.2, fun h => ⟨(hRight.mpr h).bounded, hRight.mpr h⟩⟩, fun h => ?_⟩
    have hBounded := (hRight.mpr h).bounded e.scope
    rw [store_withStore, if_pos rfl, cap_withStore] at hBounded
    exact hs.withStore hAfter hBounded

theorem Good.step (hs : Good s) {l : Label} (hWrites : Writes l)
    (hStep : step tools runs s l = some t) :
    (RightStep tools runs s t l ↔ Fits tools runs s l) ∧ (Fits tools runs s l → Good t) := by
  cases l with
  | call runId objective allowDurableMemory call newId now =>
    obtain rfl := Option.some.inj hStep
    have hCall : ∀ scope query limit, call ≠ .readMemory scope query limit := by
      rintro scope query limit rfl
      exact hWrites
    exact hs.performs (perform_entry hCall) fun e he => entryOf_timed he
  | evictMemory itemId scope now =>
    obtain rfl := Option.some.inj hStep
    have hGood := hs.evictMemory itemId scope now
    exact ⟨iff_of_true hGood.bounded trivial, fun _ => hGood⟩
  | purgeRun => exact hWrites.elim
  | seedMemory => exact hWrites.elim

/-- A run of writes that fit and evictions keeps its bounds, and what is said of a further one holds
if and only if it fits. -/
theorem eviction_iff (tools : TextTools) (runs : RunId → Identity) (s : MemoryManager)
    (hRun : Reach (step tools runs) (fun s l => Writes l ∧ Fits tools runs s l) Start s) :
    Bounded s ∧ ∀ l t, Writes l → step tools runs s l = some t →
      (RightStep tools runs s t l ↔ Fits tools runs s l) := by
  have hGood : Good s := by
    apply hRun.invariant
    · exact fun _ => good_start
    · exact fun _ _ _ hs hFits hStep => (hs.step hFits.1 hStep).2 hFits.2
  exact ⟨hGood.bounded, fun _ _ hWrites hStep => (hGood.step hWrites hStep).1⟩

def oneItem : MemoryManager := { emptyManager with maxWorkingItems := 1 }

def writeNote (newId : String) : Label :=
  callOf runA (.writeWorkingMemory (note "Editor" "use vim")) newId

def afterNote : MemoryManager :=
  perform plainTools oneItem ⟨runA, identityOf runA, [], true⟩ "mem-1".toList "t1".toList
    (.writeWorkingMemory (note "Editor" "use vim"))

/-- The second of two notes takes the place of the first. -/
theorem eviction_iff_notes : Bounded afterNote ∧ ∃ t, step plainTools identityOf afterNote
    (writeNote "mem-2") = some t ∧ RightStep plainTools identityOf afterNote t (writeNote "mem-2") := by
  have hEmpty : Reach (step plainTools identityOf) (fun s l => Writes l ∧ Fits plainTools identityOf s l)
      Start oneItem := .start ⟨rfl, rfl, rfl⟩
  have hFirst : Fits plainTools identityOf oneItem (writeNote "mem-1") := by
    rintro e ⟨⟩
    exact ⟨rfl, .inl (by decide +kernel)⟩
  obtain ⟨hBounded, hRight⟩ := eviction_iff plainTools identityOf afterNote
    (hEmpty.next (l := writeNote "mem-1") ⟨trivial, hFirst⟩ rfl)
  refine ⟨hBounded, _, rfl, (hRight (writeNote "mem-2") _ trivial rfl).mpr ?_⟩
  rintro e ⟨⟩
  refine ⟨rfl, .inr ⟨⟨by decide +kernel, by decide +kernel⟩, afterNote.workingMemory.values, [], rfl, ?_⟩⟩
  exact .inl ⟨_, List.mem_singleton_self _, le_refl _⟩

/-- The first note is evicted, and then the second is, although there is no other. -/
theorem written_evicted : ∃ s t, Reach (step plainTools identityOf) (fun _ l => Writes l) Start s ∧
    step plainTools identityOf s (writeNote "mem-2") = some t ∧
    ¬ RightStep plainTools identityOf s t (writeNote "mem-2") := by
  have hEmpty : Reach (step plainTools identityOf) (fun _ l => Writes l) Start oneItem :=
    .start ⟨rfl, rfl, rfl⟩
  have hNote : Reach (step plainTools identityOf) (fun _ l => Writes l) Start afterNote :=
    hEmpty.next (l := writeNote "mem-1") trivial rfl
  refine ⟨_, _, hNote.next (l := .evictMemory "mem-1".toList .working "t1".toList) trivial rfl, rfl, ?_⟩
  intro h
  exact absurd (h.2 _ rfl).written (by decide +kernel)

end MemoryManager

end OrchestraAI.Memory
