import OrchestraAI.Library.LabelledSystem
import OrchestraAI.Library.NewestWindow
import OrchestraAI.Library.OrderedMap
import OrchestraAI.Library.TextUnits

/-! # The store of one process

`IdempotencyStore` of `idempotency.js` with its file. The records are bounded; when there are too
many, the terminal one that was written first goes, and without a terminal one the first of all.

The records of `idempotency.js` and what their stores promise: who begins an operation does so
alone, its record stays until it has ended, and then holds what it holds.
-/

namespace OrchestraAI.Idempotency

open LabelledSystem LastEntries

inductive OperationState
  | pending
  | running
  | completed
  | failed
  deriving DecidableEq

/-- `completed` and `failed`. -/
def OperationState.terminal : OperationState → Bool
  | .completed => true
  | .failed => true
  | _ => false

abbrev Key := { key : String // key ≠ "" }

/-- A record with a result of type `ρ`. What is not there or `null` is `none`. -/
structure OperationRecord (ρ : Type) where
  key : Key
  state : OperationState
  result : Option ρ := none
  error : Option Text := none
  runId : Option String := none
  op : Option String := none
  createdAt : Option Nat := none
  updatedAt : Nat

/-- `meta` of a begin. -/
structure BeginMeta where
  state : Option OperationState := none
  runId : Option String := none
  op : Option String := none

variable {ρ : Type}

def BeginMeta.record (info : BeginMeta) (key : Key) (now : Nat) : OperationRecord ρ where
  key := key
  state := info.state.getD .running
  runId := info.runId
  op := info.op
  createdAt := some now
  updatedAt := now

def safeError (message : Text) : Text := Text.sliceUnits 500 (if message = [] then "failed".toList else message)

inductive Ending (ρ : Type)
  | complete (result : Option ρ)
  | fail (message : Text)

namespace Ending

def state : Ending ρ → OperationState
  | .complete _ => .completed
  | .fail _ => .failed

/-- The result in a record that is ended: a failure leaves the one that is there. -/
def resultOf (old : Option ρ) : Ending ρ → Option ρ
  | .complete result => result
  | .fail _ => old

def errorOf : Ending ρ → Option Text
  | .complete _ => none
  | .fail message => some (safeError message)

def of (ending : Ending ρ) (r : OperationRecord ρ) (now : Nat) : OperationRecord ρ :=
  { r with
    state := ending.state
    result := ending.resultOf r.result
    error := ending.errorOf
    updatedAt := now }

theorem terminal_of (ending : Ending ρ) (r : OperationRecord ρ) (now : Nat) :
    (ending.of r now).state.terminal = true := by
  cases ending <;> rfl

def Repeats (ending : Ending ρ) (r : OperationRecord ρ) : Prop :=
  ending.state = r.state ∧ ending.resultOf r.result = r.result

end Ending

inductive Move (ρ : Type)
  /-- A begin that answers `fresh`, with its record. -/
  | begun (r : OperationRecord ρ)
  | ended (key : Key)
  | other

/-- The unfinished keys with that of a begin, unless its record is terminal from the start. -/
def Move.open (unfinished : List Key) : Move ρ → List Key
  | .begun r => if r.state.terminal then unfinished else r.key :: unfinished
  | _ => unfinished

def unfinishedAfter (unfinished : List Key) (move : Move ρ) (after : Key → Option (OperationRecord ρ)) :
    List Key :=
  (move.open unfinished).filter fun k => !(after k).any fun r : OperationRecord ρ => r.state.terminal

/-- What a step should keep, with the records before and after it. -/
structure Keeps (unfinished : List Key) (move : Move ρ)
    (before after : Key → Option (OperationRecord ρ)) : Prop where
  /-- A begin is fresh only if the record of the last one was terminal. -/
  alone : ∀ r, move = .begun r → r.key ∉ unfinished
  /-- The record of an operation that is pending or running is not dropped. -/
  held : ∀ k r, before k = some r → r.state.terminal = false →
    after k = some r ∨ move = .ended k ∧ (after k).isSome
  /-- The state and the result of a terminal record do not change. -/
  settled : ∀ k r r', before k = some r → r.state.terminal = true → after k = some r' →
    r'.state = r.state ∧ r'.result = r.result

def Tracked (unfinished : List Key) (records : Key → Option (OperationRecord ρ)) : Prop :=
  ∀ k ∈ unfinished, ∃ r, records k = some r ∧ r.state.terminal = false

theorem Tracked.alone {unfinished : List Key} {records : Key → Option (OperationRecord ρ)}
    (h : Tracked unfinished records) {key : Key} (hNone : records key = none) : key ∉ unfinished := by
  intro hMem
  obtain ⟨r, hr, -⟩ := h key hMem
  rw [hNone] at hr
  nomatch hr

theorem keeps_same {unfinished : List Key} {move : Move ρ}
    {records : Key → Option (OperationRecord ρ)} (hMove : ∀ r, move ≠ .begun r) :
    Keeps unfinished move records records where
  alone r h := absurd h (hMove r)
  held _ _ h _ := .inl h
  settled _ _ _ h _ h' := by
    cases h.symm.trans h'
    exact ⟨rfl, rfl⟩

theorem Tracked.after {unfinished : List Key} {move : Move ρ}
    {before after : Key → Option (OperationRecord ρ)} (h : Tracked unfinished before)
    (hKeeps : Keeps unfinished move before after)
    (hBegun : ∀ r, move = .begun r → r.state.terminal = false → after r.key = some r) :
    Tracked (unfinishedAfter unfinished move after) after := by
  intro k hk
  obtain ⟨hOpen, hNot⟩ := List.mem_filter.mp hk
  have hOld (hMem : k ∈ unfinished) : ∃ r, after k = some r := by
    obtain ⟨r, hr, hRunning⟩ := h k hMem
    obtain hSame | ⟨-, hEnded⟩ := hKeeps.held k r hr hRunning
    · exact ⟨r, hSame⟩
    · exact Option.isSome_iff_exists.mp hEnded
  have hThere : ∃ r, after k = some r := by
    cases move with
    | begun r =>
      by_cases hTerminal : r.state.terminal = true
      · rw [Move.open, if_pos hTerminal] at hOpen
        exact hOld hOpen
      · rw [Move.open, if_neg hTerminal] at hOpen
        obtain rfl | hMem := List.mem_cons.mp hOpen
        · exact ⟨r, hBegun r rfl (Bool.eq_false_iff.mpr hTerminal)⟩
        · exact hOld hMem
    | ended _ => exact hOld hOpen
    | other => exact hOld hOpen
  obtain ⟨r, hr⟩ := hThere
  refine ⟨r, hr, ?_⟩
  simpa [hr] using hNot

abbrev Records (ρ : Type) := OrderedMap Key (OperationRecord ρ)

structure IdempotencyStore (ρ : Type) where
  max : Nat
  records : Records ρ
  /-- `idempotency.json`, if there is one. -/
  file : Option (List (OperationRecord ρ))

/-- `options.max || 1000`. -/
def capacity (max : Nat) : Nat := if max = 0 then 1000 else max

namespace IdempotencyStore

/-- `_restore`. -/
def restored (max : Nat) (file : Option (List (OperationRecord ρ))) : Records ρ :=
  OrderedMap.empty.setAll OperationRecord.key ((file.getD []).rtake max)

def new (max : Nat) (file : Option (List (OperationRecord ρ))) : IdempotencyStore ρ :=
  ⟨capacity max, restored (capacity max) file, file⟩

/-- `_persist`, which may fail. -/
def persist (s : IdempotencyStore ρ) (works : Bool) : IdempotencyStore ρ :=
  if works then { s with file := some (s.records.values.rtake s.max) } else s

/-- One entry of the search for the terminal record with the least `updatedAt`. -/
def older (oldest : Option (Key × OperationRecord ρ)) (e : Key × OperationRecord ρ) :
    Option (Key × OperationRecord ρ) :=
  if e.2.state.terminal && oldest.all fun o => e.2.updatedAt < o.2.updatedAt then some e else oldest

def oldestTerminal (entries : List (Key × OperationRecord ρ)) : Option (Key × OperationRecord ρ) :=
  entries.foldl older none

def victim (records : Records ρ) : Option Key :=
  ((oldestTerminal records.entries).map Prod.fst).or records.keys.head?

def evict : Nat → Records ρ → Records ρ
  | 0, records => records
  | n + 1, records =>
    match victim records with
    | none => records
    | some key => evict n (records.delete key)

def evictIfNeeded (s : IdempotencyStore ρ) : IdempotencyStore ρ :=
  { s with records := evict (s.records.size - s.max) s.records }

def begin (s : IdempotencyStore ρ) (key : Key) (info : BeginMeta) (now : Nat) (works : Bool) :
    IdempotencyStore ρ × Option (OperationRecord ρ) :=
  if s.records.has key then (s, none)
  else
    let r := info.record key now
    ((evictIfNeeded { s with records := s.records.set key r }).persist works, some r)

/-- `complete` and `fail`. -/
def finish (s : IdempotencyStore ρ) (key : Key) (ending : Ending ρ) (now : Nat) (works : Bool) :
    IdempotencyStore ρ :=
  let r := (s.records.get key).getD { key, state := .running, createdAt := some now, updatedAt := now }
  (evictIfNeeded { s with records := s.records.set key (ending.of r now) }).persist works

def restart (s : IdempotencyStore ρ) : IdempotencyStore ρ := { s with records := restored s.max s.file }

end IdempotencyStore

inductive LocalStep (ρ : Type)
  | begin (key : Key) (info : BeginMeta) (now : Nat) (works : Bool)
  | finish (key : Key) (ending : Ending ρ) (now : Nat) (works : Bool)
  | persist (works : Bool)
  | restart

namespace IdempotencyStore

def step (s : IdempotencyStore ρ) : LocalStep ρ → IdempotencyStore ρ × Move ρ
  | .begin key info now works =>
    let out := s.begin key info now works
    (out.1, out.2.elim .other .begun)
  | .finish key ending now works => (s.finish key ending now works, .ended key)
  | .persist works => (s.persist works, .other)
  | .restart => (s.restart, .other)

end IdempotencyStore

structure WatchedStore (ρ : Type) where
  store : IdempotencyStore ρ
  unfinished : List Key

namespace WatchedStore

def new (max : Nat) (file : Option (List (OperationRecord ρ))) : WatchedStore ρ := ⟨.new max file, []⟩

def step (w : WatchedStore ρ) (l : LocalStep ρ) : Option (WatchedStore ρ) :=
  let out := w.store.step l
  some ⟨out.1, unfinishedAfter w.unfinished out.2 out.1.records.get⟩

def Keeps (w : WatchedStore ρ) (l : LocalStep ρ) : Prop :=
  Idempotency.Keeps w.unfinished (w.store.step l).2 w.store.records.get (w.store.step l).1.records.get

/-- No step meets a branch that drops what is unfinished or writes over what has ended: a full store
has a terminal record to evict, an ending repeats what is terminal, and the file has what a restart
needs. -/
def Harmless (w : WatchedStore ρ) : LocalStep ρ → Prop
  | .begin key info _ _ =>
    w.store.records.get key = none → w.store.max ≤ w.store.records.size →
      (info.state.getD .running).terminal = true ∨
        ∃ k r, w.store.records.get k = some r ∧ r.state.terminal = true
  | .finish key ending _ _ =>
    ∀ r, w.store.records.get key = some r → r.state.terminal = true → ending.Repeats r
  | .persist _ => True
  | .restart =>
    ∀ k r, w.store.records.get k = some r →
      if r.state.terminal then
        ∀ r', (IdempotencyStore.restored w.store.max w.store.file).get k = some r' →
          r'.state = r.state ∧ r'.result = r.result
      else (IdempotencyStore.restored w.store.max w.store.file).get k = some r

end WatchedStore

end OrchestraAI.Idempotency
