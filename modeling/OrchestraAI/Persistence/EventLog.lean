import OrchestraAI.Library.LabelledSystem
import OrchestraAI.Library.NewestWindow
import OrchestraAI.Library.OrderedMap
import OrchestraAI.Library.TextUnits
import OrchestraAI.Persistence.FileStore
import Mathlib.Data.Rat.Defs
import Mathlib.Algebra.Order.Ring.Rat

/-! # The event logs of the two adapters

`saveEvents`, `appendEvents` and `loadEvents` of `FileStore` in `persistence.js` and of
`PostgresDatastore` in `infrastructure/postgres.js`, over a file for each run and over a
table with the key `(run_id, seq)`.
-/

namespace OrchestraAI.Persistence

open LastEntries NewestWindow

structure Envelope where
  seq : ℚ
  /-- Its JSON text. -/
  text : String
  deriving DecidableEq

def maxEventsPerRun : Nat := 500

def bySeq (events : List Envelope) : List Envelope :=
  events.insertionSort fun a b => a.seq ≤ b.seq

namespace FileStore

def limits (maxBytes : Nat) : FileLimits Envelope :=
  ⟨maxBytes, fun e => Text.codeUnitCount e.text.toList⟩

variable (maxBytes : Nat)

/-- A file is what `loadEvents` reads from it. -/
def saveEvents (file events : List Envelope) : List Envelope :=
  (limits maxBytes).writeJson file (events.rtake maxEventsPerRun)

/-- The map `merged` with the envelopes of the file. -/
def storedMap (file : List Envelope) : OrderedMap ℚ Envelope :=
  OrderedMap.empty.setAll Envelope.seq file

/-- The envelopes of the file, and those of the events with another `seq`, in order. -/
def mergedEvents (file events : List Envelope) : List Envelope :=
  bySeq ((storedMap file).addAll Envelope.seq events).values

def appendEvents (file events : List Envelope) : List Envelope :=
  saveEvents maxBytes file ((mergedEvents file events).rtake maxEventsPerRun)

end FileStore

/-- A row of `run_events`. -/
structure Row where
  runId : String
  seq : ℤ
  envelope : Envelope
  deriving DecidableEq

namespace Postgres

abbrev Table := List Row

def toBigint (seq : ℚ) : Option ℤ :=
  if seq.den = 1 ∧ -2 ^ 63 ≤ seq.num ∧ seq.num < 2 ^ 63 then some seq.num else none

def hasKey (table : Table) (runId : String) (seq : ℤ) : Bool :=
  table.any fun r => r.runId = runId ∧ r.seq = seq

/-- `INSERT … ON CONFLICT (run_id, seq) DO NOTHING`. -/
def insertNew (runId : String) (table : Table) (envelope : Envelope) : Option Table :=
  (toBigint envelope.seq).map fun seq =>
    if hasKey table runId seq then table else table ++ [⟨runId, seq, envelope⟩]

/-- `INSERT`, which the primary key may refuse. -/
def insert (runId : String) (table : Table) (envelope : Envelope) : Option Table :=
  (toBigint envelope.seq).bind fun seq =>
    if hasKey table runId seq then none else some (table ++ [⟨runId, seq, envelope⟩])

/-- `SELECT … WHERE run_id = $1 ORDER BY seq ASC`. -/
def selectBySeq (table : Table) (runId : String) : List Row :=
  (table.filter fun r => r.runId = runId).insertionSort fun a b => a.seq ≤ b.seq

def deleteRun (table : Table) (runId : String) : Table := table.filter fun r => r.runId ≠ runId

def trim (table : Table) (runId : String) : Table :=
  let bound := ((selectBySeq table runId).reverse[499]?.map Row.seq).getD (-1)
  table.filter fun r => ¬ (r.runId = runId ∧ r.seq < bound)

def saveEvents (table : Table) (runId : String) (events : List Envelope) : Table :=
  ((events.rtake 500).foldlM (insert runId) (deleteRun table runId)).getD table

def appendEvents (table : Table) (runId : String) (events : List Envelope) : Table :=
  (((events.rtake 500).foldlM (insertNew runId) table).map fun t => trim t runId).getD table

def loadEvents (table : Table) (runId : String) (limit : Nat) : List Envelope :=
  (((selectBySeq table runId).take limit).map Row.envelope).rtake limit

end Postgres

namespace FileStore

variable {file events : List Envelope}

theorem keyed (file events : List Envelope) :
    ((storedMap file).addAll Envelope.seq events).Keyed Envelope.seq := by
  have hEmpty : (OrderedMap.empty : OrderedMap ℚ Envelope).Keyed Envelope.seq :=
    OrderedMap.keyed_empty
  exact hEmpty.setAll.addAll

theorem mergedEvents_ascending (file events : List Envelope) :
    Ascending Envelope.seq (mergedEvents file events) := by
  refine ascending_insertionSort (List.pairwise_map.mp ?_)
  rw [← List.Nodup, (keyed file events).values_map]
  exact OrderedMap.keys_nodup _

theorem mem_mergedEvents (hFile : Ascending Envelope.seq file)
    (hDistinct : (events.map Envelope.seq).Nodup) (e : Envelope) :
    e ∈ mergedEvents file events ↔
      e ∈ file ∨ e ∈ events ∧ ∀ stored ∈ file, stored.seq ≠ e.seq := by
  have hStored {stored : Envelope} (h : stored ∈ file) :
      (storedMap file).get stored.seq = some stored := by
    have hKeys : stored.seq ∈ (storedMap file).keys :=
      OrderedMap.mem_keys_setAll.mpr (.inr (List.mem_map_of_mem h))
    obtain ⟨v, hGet⟩ := (OrderedMap.mem_keys_iff _ _).mp hKeys
    obtain ⟨hv, hKey⟩ | ⟨hEmpty, -⟩ := OrderedMap.get_setAll hGet
    · rwa [hFile.eq_of_key hv h hKey] at hGet
    · rw [OrderedMap.get_empty] at hEmpty
      cases hEmpty
  have hFrom {k : ℚ} {v : Envelope}
      (h : (storedMap file).get k = some v) : v ∈ file ∧ v.seq = k := by
    obtain hMem | ⟨hEmpty, -⟩ := OrderedMap.get_setAll h
    · exact hMem
    · rw [OrderedMap.get_empty] at hEmpty
      cases hEmpty
  unfold mergedEvents bySeq
  rw [List.mem_insertionSort, (keyed file events).mem_values, OrderedMap.get_addAll,
    Option.or_eq_some_iff]
  constructor
  · rintro (hGet | ⟨hNone, hFind⟩)
    · exact .inl (hFrom hGet).1
    · refine .inr ⟨List.mem_of_find?_eq_some hFind, fun stored h hKey => ?_⟩
      have hSome := hStored h
      rw [hKey, hNone] at hSome
      cases hSome
  · rintro (h | ⟨h, hOther⟩)
    · exact .inl (hStored h)
    · refine .inr ⟨?_, find?_key hDistinct h⟩
      cases hGet : (storedMap file).get e.seq with
      | none => rfl
      | some v =>
        obtain ⟨hv, hKey⟩ := hFrom hGet
        exact absurd hKey (hOther v hv)

variable {maxBytes : Nat}

/-- The text of what `saveEvents` writes is not too long. -/
def Fits (maxBytes : Nat) (events : List Envelope) : Prop :=
  (limits maxBytes).textLength (events.rtake maxEventsPerRun) ≤ maxBytes

instance (maxBytes : Nat) (events : List Envelope) : Decidable (Fits maxBytes events) :=
  inferInstanceAs (Decidable (_ ≤ _))

end FileStore

end OrchestraAI.Persistence
