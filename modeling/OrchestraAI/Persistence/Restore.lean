import Mathlib.Data.String.Basic
import OrchestraAI.Persistence.IndexAgreement
import OrchestraAI.Persistence.LogAgreement
import OrchestraAI.Persistence.Replay

/-! # Event numbers across a restart

`restorePersisted` of `server.js`: the counter of the event bus is raised by the events of the
last entries of the index. A run outside them may be revived, and its next event is then to come
after all that is stored of it, with either adapter.
-/

namespace OrchestraAI.Persistence.Restore

open LabelledSystem LastEntries NewestWindow

/-- A run store with the adapter that it is on, and what that holds. -/
inductive Adapter
  | file (index : RunIndexFile String) (logs : String → List Envelope)
  | postgres (index : List (IndexRow String)) (events : Postgres.Table)

namespace Adapter

def loadRunIndex : Adapter → List (RunEntry String)
  | .file index _ => index.loadRunIndex ⟨[], []⟩
  | .postgres index _ => loadRows index ⟨[], []⟩

def loadEvents (adapter : Adapter) (runId : String) : List Envelope :=
  match adapter with
  | .file _ logs => logs runId
  | .postgres _ events => Postgres.loadEvents events runId 500

def appendEvents (maxBytes : Nat) (adapter : Adapter) (runId : String) (events : List Envelope) :
    Adapter :=
  match adapter with
  | .file index logs =>
    .file index fun id =>
      if id = runId then FileStore.appendEvents maxBytes (logs id) events else logs id
  | .postgres index table => .postgres index (Postgres.appendEvents table runId events)

def indexed : Adapter → List String
  | .file index _ => index.index.map RunEntry.id
  | .postgres index _ => index.map fun row => row.summary.id

def persisted (adapter : Adapter) (runId : String) : List Envelope :=
  match adapter with
  | .file _ logs => logs runId
  | .postgres _ events => Postgres.stored events runId

/-- Whether `appendEvents` takes an event for one that it has. -/
def discards (adapter : Adapter) (runId : String) (e : Envelope) : Bool :=
  match adapter with
  | .file _ logs => (FileStore.storedMap (logs runId)).has e.seq
  | .postgres _ events =>
    (Postgres.toBigint e.seq).any fun seq => Postgres.hasKey events runId seq

def Keyed : Adapter → Prop
  | .file _ _ => True
  | .postgres _ events => Postgres.Valid events

end Adapter

structure Store where
  adapter : Adapter
  keyed : adapter.Keyed
  natural : ∀ runId, ∀ e ∈ adapter.persisted runId, ∃ n : Nat, e.seq = n

structure Bus where
  bus : EventBus
  behind : ∀ runId n, bus.runSeq.get runId = some n → n ≤ bus.globalSeq
  numbered : ∀ runId, ∀ e ∈ bus.logOf runId, e.seq ≤ bus.globalSeq

/-- `if (e.seq > eventBus.globalSeq) eventBus.globalSeq = e.seq`. -/
def raise (bus : EventBus) (e : Envelope) : EventBus :=
  if (bus.globalSeq : ℚ) < e.seq then { bus with globalSeq := e.seq.num.toNat } else bus

def restoreEntry (adapter : Adapter) (bus : EventBus) (entry : RunEntry String) : EventBus :=
  if entry.id = "" then bus
  else
    let events := adapter.loadEvents entry.id
    if events ≠ [] ∧ bus.eventLogs.has entry.id = false then
      events.foldl raise { bus with eventLogs := bus.eventLogs.set entry.id events }
    else bus

/-- The index with the runs that did not end marked as interrupted; `mark` is what that makes of
an entry, but for its id and its owners. -/
def rewritten (mark : RunEntry String → String × Nat) (index : List (RunEntry String)) :
    List (RunEntry String) :=
  index.map fun entry => { entry with body := (mark entry).1, bytes := (mark entry).2 }

def restorePersisted (mark : RunEntry String → String × Nat) (adapter : Adapter)
    (bus : EventBus) : EventBus :=
  ((rewritten mark adapter.loadRunIndex).rtake 50).foldl (restoreEntry adapter) bus

structure Server where
  bus : EventBus
  adapter : Adapter

namespace Server

variable (maxBytes : Nat)

def reload (s : Server) (runId : String) : Server :=
  let events := s.adapter.loadEvents runId
  if s.bus.eventLogs.has runId || events.isEmpty then s
  else { s with bus := { s.bus with eventLogs := s.bus.eventLogs.set runId events } }

def step (s : Server) : EventServer.Label → Option Server
  | .emits runId text => (s.bus.emit runId text).map fun emitted => { s with bus := emitted.1 }
  | .subscribes runId =>
    some { s with bus := { s.bus with subscribed := runId :: s.bus.subscribed } }
  | .unsubscribes runId =>
    some { s with bus := { s.bus with subscribed := s.bus.subscribed.filter (· ≠ runId) } }
  | .clears runId => some { s with bus := s.bus.clearRun runId }
  | .persists runId =>
    some { s with adapter := s.adapter.appendEvents maxBytes runId (s.bus.logOf runId) }
  | .serves runId _ => some (s.reload runId)

end Server

/-- The next event of a run comes after all that is stored of the run; it is not taken for one of
them, and a client that has seen one of them gets it. -/
structure Continues (s : Server) (runId : String) (e : Envelope) : Prop where
  later : ∀ old ∈ s.adapter.persisted runId, old.seq < e.seq
  stored : s.adapter.discards runId e = false
  replayed : ∀ old ∈ s.adapter.persisted runId, ∀ since : Nat, old.seq = since →
    ∀ window, e ∈ window → e ∈ (answerFrom window since).events

/-- However the server runs after the restart, the next event of a run of the index that is
revived continues it. -/
def Monotone (maxBytes : Nat) (mark : RunEntry String → String × Nat) (store : Store) (bus : Bus)
    (revived : String → Prop) : Prop :=
  ∀ labels s,
    run (Server.step maxBytes) ⟨restorePersisted mark store.adapter bus.bus, store.adapter⟩ labels =
      some s →
    ∀ runId ∈ store.adapter.indexed, revived runId → ∀ text,
      ∃ bus' e, s.bus.emit runId text = some (bus', e) ∧ Continues s runId e

/-- No event of a revived run has a number above the counter, and above the numbers that are
loaded for the last fifty of the loaded entries. -/
def Covered (store : Store) (bus : Bus) (revived : String → Prop) : Prop :=
  ∀ runId ∈ store.adapter.indexed, revived runId → ∀ old ∈ store.adapter.persisted runId,
    old.seq ≤ bus.bus.globalSeq ∨
      ∃ entry ∈ store.adapter.loadRunIndex.rtake 50, entry.id ≠ "" ∧
        bus.bus.eventLogs.has entry.id = false ∧
        ∃ e ∈ store.adapter.loadEvents entry.id, old.seq ≤ e.seq

theorem raise_eventLogs (bus : EventBus) (e : Envelope) :
    (raise bus e).eventLogs = bus.eventLogs ∧ (raise bus e).runSeq = bus.runSeq := by
  rw [raise]
  split
  · exact ⟨rfl, rfl⟩
  · exact ⟨rfl, rfl⟩

theorem foldl_raise_eventLogs (bus : EventBus) (events : List Envelope) :
    (events.foldl raise bus).eventLogs = bus.eventLogs ∧
      (events.foldl raise bus).runSeq = bus.runSeq := by
  induction events generalizing bus with
  | nil => exact ⟨rfl, rfl⟩
  | cons e events ih =>
    obtain ⟨hLogs, hSeq⟩ := ih (raise bus e)
    obtain ⟨hLogs', hSeq'⟩ := raise_eventLogs bus e
    exact ⟨hLogs.trans hLogs', hSeq.trans hSeq'⟩

theorem le_raise {e : Envelope} {n : Nat} (hNatural : e.seq = n) (bus : EventBus) (m : Nat) :
    m ≤ (raise bus e).globalSeq ↔ m ≤ bus.globalSeq ∨ m ≤ n := by
  have hNum : e.seq.num.toNat = n := by rw [hNatural, Rat.num_natCast, Int.toNat_natCast]
  rw [raise]
  split
  · rename_i hAbove
    rw [hNatural, Nat.cast_lt] at hAbove
    simp only [hNum]
    omega
  · rename_i hBelow
    rw [hNatural, Nat.cast_lt] at hBelow
    omega

theorem le_foldl_raise {events : List Envelope} (hNatural : ∀ e ∈ events, ∃ n : Nat, e.seq = n)
    (bus : EventBus) (m : Nat) :
    m ≤ (events.foldl raise bus).globalSeq ↔ m ≤ bus.globalSeq ∨ ∃ e ∈ events, (m : ℚ) ≤ e.seq := by
  induction events generalizing bus with
  | nil => simp only [List.foldl_nil, List.not_mem_nil, false_and, exists_false, or_false]
  | cons e events ih =>
    obtain ⟨n, hn⟩ := hNatural e List.mem_cons_self
    rw [List.foldl_cons, ih fun e' he' => hNatural e' (List.mem_cons_of_mem e he'), le_raise hn,
      or_assoc, List.exists_mem_cons_iff, hn, Nat.cast_le]

theorem Adapter.loadEvents_subset (adapter : Adapter) (runId : String) :
    adapter.loadEvents runId ⊆ adapter.persisted runId := by
  cases adapter with
  | file index logs => exact List.Subset.refl _
  | postgres index events =>
    intro e he
    obtain ⟨row, hRow, rfl⟩ := List.mem_map.mp (mem_of_mem_rtake he)
    exact List.mem_map_of_mem (List.mem_of_mem_take hRow)

section Entries

variable {adapter : Adapter} {entry : RunEntry String}

theorem restoreEntry_runSeq (adapter : Adapter) (bus : EventBus) (entry : RunEntry String) :
    (restoreEntry adapter bus entry).runSeq = bus.runSeq := by
  rw [restoreEntry]
  split
  · rfl
  · dsimp only
    split
    · exact (foldl_raise_eventLogs _ _).2
    · rfl

/-- The logs after an entry: the log of its run is loaded if there was none and something is. -/
theorem restoreEntry_get (adapter : Adapter) (bus : EventBus) (entry : RunEntry String)
    (runId : String) :
    (restoreEntry adapter bus entry).eventLogs.get runId =
      if runId = entry.id ∧ entry.id ≠ "" ∧ adapter.loadEvents entry.id ≠ [] ∧
          bus.eventLogs.has entry.id = false then some (adapter.loadEvents entry.id)
      else bus.eventLogs.get runId := by
  rw [restoreEntry]
  by_cases hId : entry.id = ""
  · rw [if_pos hId, if_neg fun h => h.2.1 hId]
  · rw [if_neg hId]
    dsimp only
    by_cases hLoads : adapter.loadEvents entry.id ≠ [] ∧ bus.eventLogs.has entry.id = false
    · rw [if_pos hLoads, (foldl_raise_eventLogs _ _).1, OrderedMap.get_set]
      by_cases hSame : runId = entry.id
      · rw [if_pos hSame, if_pos ⟨hSame, hId, hLoads⟩]
      · rw [if_neg hSame, if_neg fun h => hSame h.1]
    · rw [if_neg hLoads, if_neg fun h => hLoads h.2.2]

theorem le_restoreEntry (hNatural : ∀ e ∈ adapter.loadEvents entry.id, ∃ n : Nat, e.seq = n)
    (bus : EventBus) (m : Nat) :
    m ≤ (restoreEntry adapter bus entry).globalSeq ↔
      m ≤ bus.globalSeq ∨ entry.id ≠ "" ∧ bus.eventLogs.has entry.id = false ∧
        ∃ e ∈ adapter.loadEvents entry.id, (m : ℚ) ≤ e.seq := by
  rw [restoreEntry]
  by_cases hId : entry.id = ""
  · rw [if_pos hId, or_iff_left fun h => h.1 hId]
  · rw [if_neg hId]
    dsimp only
    by_cases hLoads : adapter.loadEvents entry.id ≠ [] ∧ bus.eventLogs.has entry.id = false
    · rw [if_pos hLoads, le_foldl_raise hNatural]
      exact or_congr_right ⟨fun h => ⟨hId, hLoads.2, h⟩, fun h => h.2.2⟩
    · rw [if_neg hLoads, or_iff_left]
      rintro ⟨-, hHas, e, he, -⟩
      exact hLoads ⟨List.ne_nil_of_mem he, hHas⟩

/-- The counter after the entries. An entry whose run has been loaded for one before it brings no
number that this one has not brought. -/
theorem le_foldl_restoreEntry
    (hNatural : ∀ runId, ∀ e ∈ adapter.loadEvents runId, ∃ n : Nat, e.seq = n)
    (entries : List (RunEntry String)) (bus : EventBus) (m : Nat) :
    m ≤ (entries.foldl (restoreEntry adapter) bus).globalSeq ↔
      m ≤ bus.globalSeq ∨ ∃ entry ∈ entries, entry.id ≠ "" ∧
        bus.eventLogs.has entry.id = false ∧
        ∃ e ∈ adapter.loadEvents entry.id, (m : ℚ) ≤ e.seq := by
  induction entries generalizing bus with
  | nil => simp only [List.foldl_nil, List.not_mem_nil, false_and, exists_false, or_false]
  | cons entry entries ih =>
    have hFirst := le_restoreEntry (hNatural entry.id) bus m
    rw [List.foldl_cons, ih]
    constructor
    · rintro (hRaised | ⟨other, hOther, hId, hHas, hBrings⟩)
      · obtain hOld | hBrings := hFirst.mp hRaised
        · exact .inl hOld
        · exact .inr ⟨entry, List.mem_cons_self, hBrings⟩
      · refine .inr ⟨other, List.mem_cons_of_mem entry hOther, hId, ?_, hBrings⟩
        rw [OrderedMap.has, restoreEntry_get] at hHas
        split at hHas
        · cases hHas
        · exact hHas
    · rintro (hOld | ⟨other, hOther, hId, hHas, hBrings⟩)
      · exact .inl (hFirst.mpr (.inl hOld))
      · obtain rfl | hLater := List.mem_cons.mp hOther
        · exact .inl (hFirst.mpr (.inr ⟨hId, hHas, hBrings⟩))
        · by_cases hSame : other.id = entry.id
          · rw [hSame] at hId hHas hBrings
            exact .inl (hFirst.mpr (.inr ⟨hId, hHas, hBrings⟩))
          · refine .inr ⟨other, hLater, hId, ?_, hBrings⟩
            rw [OrderedMap.has, restoreEntry_get, if_neg fun h => hSame h.1]
            exact hHas

theorem foldl_restoreEntry_runSeq (entries : List (RunEntry String)) (bus : EventBus) :
    (entries.foldl (restoreEntry adapter) bus).runSeq = bus.runSeq := by
  induction entries generalizing bus with
  | nil => rfl
  | cons entry entries ih => exact (ih _).trans (restoreEntry_runSeq adapter bus entry)

theorem foldl_restoreEntry_logOf (adapter : Adapter) (entries : List (RunEntry String)) (bus : EventBus)
    (runId : String) :
    (entries.foldl (restoreEntry adapter) bus).logOf runId = bus.logOf runId ∨
      (entries.foldl (restoreEntry adapter) bus).logOf runId = adapter.loadEvents runId := by
  induction entries generalizing bus with
  | nil => exact .inl rfl
  | cons entry entries ih =>
    obtain hSame | hLoaded := ih (restoreEntry adapter bus entry)
    · have hLog : (restoreEntry adapter bus entry).logOf runId = bus.logOf runId ∨
          (restoreEntry adapter bus entry).logOf runId = adapter.loadEvents runId := by
        rw [EventBus.logOf, restoreEntry_get]
        split
        · rename_i hFirst
          exact .inr (congrArg adapter.loadEvents hFirst.1.symm)
        · exact .inl rfl
      rw [List.foldl_cons, hSame]
      exact hLog
    · exact .inr hLoaded

theorem rtake_rewritten (mark : RunEntry String → String × Nat) (index : List (RunEntry String))
    (n : Nat) : (rewritten mark index).rtake n = rewritten mark (index.rtake n) := by
  rw [rewritten, rewritten, List.rtake, List.rtake, List.length_map, List.map_drop]

end Entries

theorem le_restorePersisted (mark : RunEntry String → String × Nat) (store : Store)
    (bus : EventBus) (m : Nat) :
    m ≤ (restorePersisted mark store.adapter bus).globalSeq ↔
      m ≤ bus.globalSeq ∨ ∃ entry ∈ store.adapter.loadRunIndex.rtake 50, entry.id ≠ "" ∧
        bus.eventLogs.has entry.id = false ∧
        ∃ e ∈ store.adapter.loadEvents entry.id, (m : ℚ) ≤ e.seq := by
  have hNatural (runId : String) (e : Envelope) (he : e ∈ store.adapter.loadEvents runId) :
      ∃ n : Nat, e.seq = n := store.natural runId e (store.adapter.loadEvents_subset runId he)
  rw [restorePersisted, le_foldl_restoreEntry hNatural, rtake_rewritten]
  refine or_congr_right ?_
  simp only [rewritten, List.mem_map, exists_exists_and_eq_and]

theorem pruneRuns_runSeq {turns : Nat} {bus : EventBus} {runId : String} {n : Nat}
    (h : (bus.pruneRuns turns).runSeq.get runId = some n) : bus.runSeq.get runId = some n := by
  induction turns generalizing bus with
  | zero => exact h
  | succ turns ih =>
    unfold EventBus.pruneRuns at h
    split at h
    · exact h
    · split at h
      · exact h
      · split at h
        · exact h
        · have hKept := ih h
          rw [OrderedMap.get_delete] at hKept
          split at hKept
          · cases hKept
          · exact hKept

theorem withLog_runSeq {bus : EventBus} {runId id : String} {n : Nat}
    (h : (bus.withLog runId).runSeq.get id = some n) : bus.runSeq.get id = some n := by
  unfold EventBus.withLog at h
  split at h
  · exact h
  · have hKept := @pruneRuns_runSeq _ { bus with eventLogs := bus.eventLogs.set runId [] } _ _ h
    exact hKept

theorem emits {bus : EventBus} (h : ∀ id n, bus.runSeq.get id = some n → n ≤ bus.globalSeq)
    (runId text : String) :
    ∃ next e, bus.emit runId text = some (next, e) ∧
      ∀ id n, next.runSeq.get id = some n → n ≤ next.globalSeq := by
  let counted : EventBus := { bus with globalSeq := bus.globalSeq + 1 }
  let opened := counted.withLog runId
  have hBehind (id : String) (n : Nat) (hNumber : opened.runSeq.get id = some n) :
      n ≤ bus.globalSeq := by
    have hOld : counted.runSeq.get id = some n := withLog_runSeq hNumber
    exact h id n hOld
  have hSeq : opened.globalSeq = bus.globalSeq + 1 := EventBus.withLog_globalSeq runId
  have hForward : ¬ bus.globalSeq + 1 ≤ (opened.runSeq.get runId).getD 0 := by
    cases hLast : opened.runSeq.get runId with
    | none => exact Nat.not_succ_le_zero _
    | some n =>
      have hLe := hBehind runId n hLast
      rw [Option.getD_some]
      omega
  refine ⟨_, _, if_neg hForward, fun id n hNumber => ?_⟩
  change n ≤ opened.globalSeq
  change (opened.runSeq.set runId (bus.globalSeq + 1)).get id = some n at hNumber
  rw [OrderedMap.get_set] at hNumber
  rw [hSeq]
  split at hNumber
  · exact (Option.some.inj hNumber).symm.le
  · exact (hBehind id n hNumber).trans (Nat.le_succ _)

theorem mem_fileAppend {maxBytes : Nat} {file events : List Envelope} {e : Envelope}
    (h : e ∈ FileStore.appendEvents maxBytes file events) : e ∈ file ∨ e ∈ events := by
  have hMerged (h : e ∈ FileStore.mergedEvents file events) : e ∈ file ∨ e ∈ events := by
    have hValue := (List.mem_insertionSort _).mp h
    obtain ⟨k, hGet⟩ := (OrderedMap.mem_values_iff _ _).mp hValue
    rw [OrderedMap.get_addAll] at hGet
    obtain hStored | ⟨-, hFound⟩ := Option.or_eq_some_iff.mp hGet
    · obtain ⟨hMem, -⟩ | ⟨hOld, -⟩ := OrderedMap.get_setAll hStored
      · exact .inl hMem
      · cases hOld
    · exact .inr (List.mem_of_find?_eq_some hFound)
  obtain hSame | hPart := (FileStore.limits maxBytes).writeJson_cases file
    (((FileStore.mergedEvents file events).rtake maxEventsPerRun).rtake maxEventsPerRun)
  · rw [FileStore.appendEvents, FileStore.saveEvents, hSame] at h
    exact .inl h
  · exact hMerged (mem_of_mem_rtake (mem_of_mem_rtake (hPart.subset h)))

theorem postgresAppend_part {table : Postgres.Table} (h : Postgres.Valid table) (runId : String)
    (events : List Envelope) :
    Postgres.Valid (Postgres.appendEvents table runId events) ∧
      ∀ row ∈ Postgres.appendEvents table runId events,
        row ∈ table ∨ row.runId = runId ∧ row.envelope ∈ events := by
  rw [Postgres.appendEvents]
  cases hInserts : (events.rtake 500).foldlM (Postgres.insertNew runId) table with
  | none => exact ⟨h, fun _ => .inl⟩
  | some inserts =>
    have hInserted := Postgres.inserted_foldlM h hInserts
    refine ⟨hInserted.valid.filter _, fun row hRow => ?_⟩
    obtain hOld | ⟨hRun, hEvent⟩ := hInserted.source row (List.mem_filter.mp hRow).1
    · exact .inl hOld
    · exact .inr ⟨hRun, mem_of_mem_rtake hEvent⟩

namespace Adapter

variable {adapter : Adapter}

theorem appendEvents_part (maxBytes : Nat) (h : adapter.Keyed) (runId : String)
    (events : List Envelope) :
    (adapter.appendEvents maxBytes runId events).Keyed ∧
      ∀ id, ∀ e ∈ (adapter.appendEvents maxBytes runId events).persisted id,
        e ∈ adapter.persisted id ∨ id = runId ∧ e ∈ events := by
  cases adapter with
  | file index logs =>
    refine ⟨trivial, fun id e he => ?_⟩
    simp only [persisted, appendEvents] at he
    split at he
    · rename_i hSame
      exact (mem_fileAppend he).imp_right fun hEvent => ⟨hSame, hEvent⟩
    · exact .inl he
  | postgres index table =>
    obtain ⟨hKeyed, hRows⟩ := postgresAppend_part h runId events
    refine ⟨hKeyed, fun id e he => ?_⟩
    obtain ⟨row, hRow, rfl, rfl⟩ := Postgres.mem_stored.mp he
    exact (hRows row hRow).imp_left fun hOld => Postgres.mem_stored.mpr ⟨row, hOld, rfl, rfl⟩

theorem not_discards (h : adapter.Keyed) {runId : String} {e : Envelope}
    (hLater : ∀ old ∈ adapter.persisted runId, old.seq < e.seq) :
    adapter.discards runId e = false := by
  rw [Bool.eq_false_iff]
  cases adapter with
  | file index logs =>
    intro hHas
    obtain hOld | hStored := OrderedMap.mem_keys_setAll.mp ((OrderedMap.has_iff _ _).mp hHas)
    · cases hOld
    · obtain ⟨old, hOld, hSeq⟩ := List.mem_map.mp hStored
      exact (hLater old hOld).ne hSeq
  | postgres index table =>
    intro hHas
    obtain ⟨seq, hSeq, hKey⟩ := (Option.any_eq_true _ _).mp hHas
    obtain ⟨row, hRow, rfl, rfl⟩ := Postgres.hasKey_iff.mp hKey
    have hSame : row.envelope.seq = e.seq := by
      rw [Postgres.toBigint_eq (h.seq row hRow), Postgres.toBigint_eq hSeq]
    exact (hLater row.envelope (Postgres.mem_stored.mpr ⟨row, hRow, rfl, rfl⟩)).ne hSame

end Adapter

/-- The counter is not behind the runs of the bus, and not behind what is stored of the revived
runs and what the bus has of them. -/
structure Ahead (revived : String → Prop) (s : Server) : Prop where
  behind : ∀ runId n, s.bus.runSeq.get runId = some n → n ≤ s.bus.globalSeq
  numbered : ∀ runId, revived runId → ∀ e ∈ s.bus.logOf runId, e.seq ≤ s.bus.globalSeq
  stored : ∀ runId, revived runId → ∀ e ∈ s.adapter.persisted runId, e.seq ≤ s.bus.globalSeq
  keyed : s.adapter.Keyed

theorem Ahead.step {maxBytes : Nat} {revived : String → Prop} {s t : Server}
    {l : EventServer.Label} (h : Ahead revived s) (hStep : Server.step maxBytes s l = some t) :
    Ahead revived t := by
  cases l with
  | emits runId text =>
    obtain ⟨next, e, hEmit, hBehind⟩ := emits h.behind runId text
    rw [Server.step, hEmit] at hStep
    cases hStep
    obtain ⟨hSeq, hGlobal, hOwn, hOthers⟩ := EventBus.emit_spec hEmit
    have hGrown : (next.globalSeq : ℚ) = s.bus.globalSeq + 1 := by
      rw [hGlobal]
      push_cast
      rfl
    have hOlder {q : ℚ} (hq : q ≤ s.bus.globalSeq) : q ≤ next.globalSeq := by
      rw [hGrown]
      linarith
    refine ⟨hBehind, fun id hRevived e' he' => ?_,
      fun id hRevived e' he' => hOlder (h.stored id hRevived e' he'), h.keyed⟩
    by_cases hSame : id = runId
    · subst hSame
      obtain hOld | hNew := List.mem_append.mp (hOwn.subset he')
      · exact hOlder (h.numbered id hRevived e' hOld)
      · cases List.mem_singleton.mp hNew
        exact (hSeq.trans hGrown.symm).le
    · exact hOlder (h.numbered id hRevived e' ((hOthers id hSame).subset he'))
  | subscribes runId | unsubscribes runId =>
    cases hStep
    exact ⟨h.behind, h.numbered, h.stored, h.keyed⟩
  | clears runId =>
    cases hStep
    refine ⟨fun id n hNumber => ?_, fun id hRevived e he => ?_, h.stored, h.keyed⟩
    · simp only [EventBus.clearRun, OrderedMap.get_delete] at hNumber
      split at hNumber
      · cases hNumber
      · exact h.behind id n hNumber
    · simp only [EventBus.clearRun, EventBus.logOf, OrderedMap.get_delete] at he
      split at he
      · cases he
      · exact h.numbered id hRevived e he
  | persists runId =>
    cases hStep
    obtain ⟨hKeyed, hPart⟩ :=
      Adapter.appendEvents_part maxBytes h.keyed runId (s.bus.logOf runId)
    refine ⟨h.behind, h.numbered, fun id hRevived e he => ?_, hKeyed⟩
    obtain hOld | ⟨rfl, hLogged⟩ := hPart id e he
    · exact h.stored id hRevived e hOld
    · exact h.numbered id hRevived e hLogged
  | serves runId since =>
    cases hStep
    rw [Server.reload]
    dsimp only
    split
    · exact h
    · refine ⟨h.behind, fun id hRevived e he => ?_, h.stored, h.keyed⟩
      simp only [EventBus.logOf, OrderedMap.get_set] at he
      split at he
      · rename_i hSame
        subst hSame
        exact h.stored id hRevived e (s.adapter.loadEvents_subset id he)
      · exact h.numbered id hRevived e he

theorem Ahead.continues {revived : String → Prop} {s : Server} (h : Ahead revived s)
    {runId : String} (hRevived : revived runId) (text : String) :
    ∃ next e, s.bus.emit runId text = some (next, e) ∧ Continues s runId e := by
  obtain ⟨next, e, hEmit, -⟩ := emits h.behind runId text
  have hSeq := (EventBus.emit_spec hEmit).1
  have hLater (old : Envelope) (hOld : old ∈ s.adapter.persisted runId) : old.seq < e.seq := by
    have hStored := h.stored runId hRevived old hOld
    rw [hSeq]
    linarith
  refine ⟨next, e, hEmit, hLater, Adapter.not_discards h.keyed hLater, ?_⟩
  intro old hOld since hSince window hWindow
  cases window with
  | nil => cases hWindow
  | cons first rest =>
    exact List.mem_filter.mpr ⟨hWindow, decide_eq_true (hSince ▸ hLater old hOld)⟩

/-- The counter after a restart is not behind what is stored of the revived runs exactly if no
event of one is above what the restart counts. -/
theorem stored_le_iff (mark : RunEntry String → String × Nat) (store : Store) (bus : EventBus)
    {old : Envelope} {runId : String} (hOld : old ∈ store.adapter.persisted runId) :
    old.seq ≤ (restorePersisted mark store.adapter bus).globalSeq ↔
      old.seq ≤ bus.globalSeq ∨ ∃ entry ∈ store.adapter.loadRunIndex.rtake 50, entry.id ≠ "" ∧
        bus.eventLogs.has entry.id = false ∧
        ∃ e ∈ store.adapter.loadEvents entry.id, old.seq ≤ e.seq := by
  obtain ⟨n, hn⟩ := store.natural runId old hOld
  rw [hn, Nat.cast_le, le_restorePersisted, Nat.cast_le]

theorem restored_ahead {revived : String → Prop} (mark : RunEntry String → String × Nat)
    {store : Store} {bus : Bus} (h : Covered store bus revived) :
    Ahead (fun id => id ∈ store.adapter.indexed ∧ revived id)
      ⟨restorePersisted mark store.adapter bus.bus, store.adapter⟩ := by
  have hGrown : bus.bus.globalSeq ≤ (restorePersisted mark store.adapter bus.bus).globalSeq :=
    (le_restorePersisted mark store bus.bus _).mpr (.inl le_rfl)
  have hStored (id : String) (hId : id ∈ store.adapter.indexed ∧ revived id) (e : Envelope)
      (he : e ∈ store.adapter.persisted id) :
      e.seq ≤ (restorePersisted mark store.adapter bus.bus).globalSeq :=
    (stored_le_iff mark store bus.bus he).mpr (h id hId.1 hId.2 e he)
  refine ⟨fun id n hNumber => ?_, fun id hId e he => ?_, hStored, store.keyed⟩
  · have hOld : bus.bus.runSeq.get id = some n := by
      rw [← foldl_restoreEntry_runSeq]
      exact hNumber
    exact (bus.behind id n hOld).trans hGrown
  · obtain hOld | hLoaded := foldl_restoreEntry_logOf store.adapter
      ((rewritten mark store.adapter.loadRunIndex).rtake 50) bus.bus id
    · have hMem : e ∈ bus.bus.logOf id := hOld ▸ he
      exact (bus.numbered id e hMem).trans (Nat.cast_le.mpr hGrown)
    · have hMem : e ∈ store.adapter.loadEvents id := hLoaded ▸ he
      exact hStored id hId e (store.adapter.loadEvents_subset id hMem)

/-- Numbers go on from what is stored of every run that is revived exactly if no event of one is
above what the restart counts. -/
theorem numbering_iff (maxBytes : Nat) (mark : RunEntry String → String × Nat) (store : Store)
    (bus : Bus) (revived : String → Prop) :
    Monotone maxBytes mark store bus revived ↔ Covered store bus revived := by
  constructor
  · intro h runId hIndexed hRevived old hOld
    obtain ⟨next, e, hEmit, hContinues⟩ := h [] _ rfl runId hIndexed hRevived ""
    rw [← stored_le_iff mark store bus.bus hOld]
    obtain ⟨n, hn⟩ := store.natural runId old hOld
    have hLater := hContinues.later old hOld
    rw [(EventBus.emit_spec hEmit).1, hn] at hLater
    rw [hn, Nat.cast_le]
    exact Nat.lt_succ_iff.mp (by exact_mod_cast hLater)
  · intro h labels s hRun runId hIndexed hRevived text
    let start := fun s : Server =>
      s = ⟨restorePersisted mark store.adapter bus.bus, store.adapter⟩
    have hReach : Reach (Server.step maxBytes) Anything start s := reach_of_run rfl hRun
    have hAhead := hReach.invariant (I := Ahead _) (fun _ hStart => hStart ▸ restored_ahead mark h)
      fun _ _ _ hs _ hStep => hs.step hStep
    exact hAhead.continues ⟨hIndexed, hRevived⟩ text

def freshBus : EventBus := ⟨500, 500, .empty, .empty, 0, []⟩

theorem freshBus_behind (runId : String) (n : Nat) (h : freshBus.runSeq.get runId = some n) :
    n ≤ freshBus.globalSeq := by
  cases h

theorem freshBus_numbered (runId : String) (e : Envelope) (h : e ∈ freshBus.logOf runId) :
    e.seq ≤ freshBus.globalSeq := by
  cases h

def fresh : Bus := ⟨freshBus, freshBus_behind, freshBus_numbered⟩

def runName (i : Nat) : String := toString i

def manyRuns : Adapter :=
  .postgres
    ((List.range 51).reverse.map fun i => ⟨⟨runName i, [], [], [], "", 0⟩, i + 1⟩)
    ((List.range 51).map fun i => ⟨runName i, i + 1, ⟨i + 1, ""⟩⟩)

theorem keyed_manyRuns : manyRuns.Keyed := by
  constructor
  · decide +kernel
  · decide +kernel

theorem natural_manyRuns (runId : String) (e : Envelope) (he : e ∈ manyRuns.persisted runId) :
    ∃ n : Nat, e.seq = n := by
  obtain ⟨row, hRow, -, rfl⟩ := Postgres.mem_stored.mp he
  obtain ⟨i, -, rfl⟩ := List.mem_map.mp hRow
  exact ⟨i + 1, by push_cast; rfl⟩

/-- The oldest fifty are loaded, and the newest run gets the number of its own event again. -/
theorem number_given_twice : ¬ ∀ maxBytes mark store bus revived,
    Monotone maxBytes mark store bus revived := by
  intro h
  obtain ⟨next, e, hEmit, hContinues⟩ :=
    h 5000000 (fun _ => ("", 0)) ⟨manyRuns, keyed_manyRuns, natural_manyRuns⟩ fresh (fun _ => True)
      [] _ rfl "50" (by decide +kernel) trivial "retry"
  have hSeq := (EventBus.emit_spec hEmit).1
  have hCounter : (restorePersisted (fun _ => ("", 0)) manyRuns fresh.bus).globalSeq = 50 := by
    decide +kernel
  rw [hCounter] at hSeq
  have hStored : (⟨51, ""⟩ : Envelope) ∈ manyRuns.persisted "50" := by decide +kernel
  have hLater := hContinues.later _ hStored
  rw [hSeq] at hLater
  norm_num at hLater

end OrchestraAI.Persistence.Restore
