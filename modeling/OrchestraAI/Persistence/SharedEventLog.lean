import Mathlib.Data.List.Dedup
import OrchestraAI.Persistence.LogAgreement
import OrchestraAI.Persistence.Replay
import OrchestraAI.Persistence.Restore

/-! # One event table for several instances

`appendEvents` and `loadEvents` of `PostgresDatastore` under the buses of several server
instances, each with a counter of its own. `persistRunArtifacts` reads the log of its bus and
calls `appendEvents`, whose transaction is later carried out or rolled back.
-/

namespace OrchestraAI.Persistence

open LabelledSystem LastEntries NewestWindow

namespace Postgres

variable {table t : Table} {runId : String} {events : List Envelope} {e : Envelope}

/-- The transaction of `appendEvents`, unless it fails. -/
def appendTransaction (table : Table) (runId : String) (events : List Envelope) : Option Table :=
  ((events.rtake 500).foldlM (insertNew runId) table).map fun t => trim t runId

theorem length_stored_trim (h : Valid table) (runId : String) :
    (stored (trim table runId) runId).length ≤ 500 := by
  have hAscending : Ascending Envelope.seq (stored table runId) := stored_ascending h runId
  have hTrimmed : Ascending Envelope.seq (stored (trim table runId) runId) :=
    stored_ascending (h.filter _) runId
  cases hRow : (selectBySeq table runId).reverse[499]? with
  | none =>
    have hShort := length_stored_of_none hRow
    have hPart : (stored (trim table runId) runId).Subperm (stored table runId) := by
      refine List.subperm_of_subset hTrimmed.nodup fun e he => ?_
      exact ((mem_stored_trim h rfl).mp he).1
    have hLe := hPart.length_le
    omega
  | some r =>
    have hDefault : 500 ≤ (stored table runId).length := by
      have hReverse := reverse_stored table runId
      rw [hRow] at hReverse
      obtain ⟨hLong, -⟩ := List.getElem?_eq_some_iff.mp hReverse
      rw [List.length_reverse] at hLong
      omega
    rw [stored_trim h (.inl hDefault)]
    exact length_rtake_le _ _

theorem mem_stored_trim_of_newer (h : Valid table) (he : e ∈ stored table runId)
    (hPositive : 0 < e.seq) (hNewer : newer Envelope.seq (stored table runId) e.seq < 500) :
    e ∈ stored (trim table runId) runId := by
  have hAscending : Ascending Envelope.seq (stored table runId) := stored_ascending h runId
  obtain hShort | hLong := Nat.lt_or_ge (stored table runId).length 500
  · have hNone : (selectBySeq table runId).reverse[499]? = none := by
      rw [List.getElem?_eq_none_iff, List.length_reverse]
      rw [stored, List.length_map] at hShort
      omega
    refine (mem_stored_trim h (by rw [hNone])).mpr ⟨he, ?_⟩
    have hFrom : ((-1 : ℤ) : ℚ) ≤ e.seq := by
      push_cast
      linarith
    exact hFrom
  · rw [stored_trim h (.inl hLong)]
    exact (hAscending.mem_rtake he).mpr hNewer

/-- What a transaction does to the run of its list and to the others. -/
structure Appended (runId : String) (events : List Envelope) (table t : Table) : Prop where
  valid : Valid t
  short : (stored t runId).length ≤ 500
  other : ∀ id, id ≠ runId → stored t id = stored table id
  /-- An event of the table, and one whose number no other event has. -/
  there : ∀ e, 0 < e.seq →
    newer Envelope.seq (stored table runId ++ events.rtake 500).dedup e.seq < 500 →
    (e ∈ stored table runId ∨ e ∈ events.rtake 500 ∧
      ∀ e' ∈ stored table runId ++ events.rtake 500, e'.seq = e.seq → e' = e) →
    e ∈ stored t runId

theorem appended_appendTransaction (hTable : Valid table)
    (h : appendTransaction table runId events = some t) : Appended runId events table t := by
  obtain ⟨inserts, hInserts, rfl⟩ := Option.map_eq_some_iff.mp h
  have hInserted := inserted_foldlM hTable hInserts
  have hTrimmed : Valid (trim inserts runId) := hInserted.valid.filter _
  have hRows : ∀ e ∈ stored inserts runId, e ∈ stored table runId ++ events.rtake 500 := by
    intro e he
    obtain ⟨r, hr, hRun, rfl⟩ := mem_stored.mp he
    obtain hOld | ⟨-, hNew⟩ := hInserted.source r hr
    · exact List.mem_append_left _ (mem_stored.mpr ⟨r, hOld, hRun, rfl⟩)
    · exact List.mem_append_right _ hNew
  refine ⟨hTrimmed, length_stored_trim hInserted.valid runId,
    fun id hOther => stored_trim_other hTable hInserted hOther, fun e hPositive hNewer hThere => ?_⟩
  have hStored : e ∈ stored inserts runId := by
    obtain hOld | ⟨hNew, hOwn⟩ := hThere
    · obtain ⟨r, hr, hRun, rfl⟩ := mem_stored.mp hOld
      exact mem_stored.mpr ⟨r, hInserted.kept r hr, hRun, rfl⟩
    · obtain ⟨r, hr, hRun, hSeq⟩ := hInserted.there e hNew
      have hFound := mem_stored.mpr ⟨r, hr, hRun, rfl⟩
      exact hOwn _ (hRows _ hFound) hSeq ▸ hFound
  refine mem_stored_trim_of_newer hInserted.valid hStored hPositive (lt_of_le_of_lt ?_ hNewer)
  refine newer_le_of_subset (stored_ascending hInserted.valid runId).nodup fun e' he' _ => ?_
  exact List.mem_dedup.mpr (hRows e' he')

end Postgres

/-- A call of `appendEvents` that has not returned. -/
structure AppendCall (ι : Type) where
  emitter : ι
  runId : String
  events : List Envelope
  /-- How many events of the run had been emitted. -/
  upTo : Nat

def AppendCall.kept {ι : Type} (call : AppendCall ι) : List Envelope := call.events.rtake 500

structure SharedLog (ι : Type) where
  bus : ι → EventBus
  table : Postgres.Table
  calls : List (AppendCall ι)
  /-- All events of a run, in order, with their emitters. -/
  emitted : String → List (ι × Envelope)
  /-- How many of them there were at a call of the emitter that has returned ok. -/
  confirmed : ι → String → Nat

/-- `serveRunEvents` gives a run without a log the one of the store. -/
def EventBus.reloadLog (bus : EventBus) (runId : String) (events : List Envelope) : EventBus :=
  if bus.eventLogs.has runId || events.isEmpty then bus
  else { bus with eventLogs := bus.eventLogs.set runId events }

/-- So does `restorePersisted`, which raises the counter by the events. -/
def EventBus.restoreLog (bus : EventBus) (runId : String) (events : List Envelope) : EventBus :=
  if bus.eventLogs.has runId || events.isEmpty then bus
  else events.foldl Restore.raise (bus.reloadLog runId events)

theorem EventBus.globalSeq_le_raise (bus : EventBus) (e : Envelope) :
    bus.globalSeq ≤ (Restore.raise bus e).globalSeq := by
  rw [Restore.raise]
  split
  · rename_i hAbove
    rw [Rat.lt_iff, Rat.num_natCast, Rat.den_natCast] at hAbove
    have hDen : (bus.globalSeq : ℤ) ≤ bus.globalSeq * e.seq.den :=
      le_mul_of_one_le_right (Int.natCast_nonneg _) (by exact_mod_cast e.seq.den_pos)
    change bus.globalSeq ≤ e.seq.num.toNat
    omega
  · exact le_rfl

theorem EventBus.globalSeq_le_restoreLog (bus : EventBus) (runId : String) (events : List Envelope) :
    bus.globalSeq ≤ (bus.restoreLog runId events).globalSeq := by
  have hRaised (l : List Envelope) (b : EventBus) : b.globalSeq ≤ (l.foldl Restore.raise b).globalSeq := by
    induction l generalizing b with
    | nil => exact le_rfl
    | cons e l ih => exact (b.globalSeq_le_raise e).trans (ih _)
  unfold restoreLog
  split
  · exact le_rfl
  · refine le_trans ?_ (hRaised events _)
    unfold reloadLog
    split
    · exact le_rfl
    · exact le_rfl

namespace SharedLog

variable {ι : Type}

inductive Label (ι : Type)
  | emits (i : ι) (runId text : String)
  | subscribes (i : ι) (runId : String)
  | unsubscribes (i : ι) (runId : String)
  | clears (i : ι) (runId : String)
  | reloads (i : ι) (runId : String)
  | restores (i : ι) (runId : String)
  /-- `persistRunArtifacts` calls `appendEvents` with the log of the bus. -/
  | calls (i : ι) (runId : String)
  /-- A call returns ok. -/
  | commits (index : Nat)
  /-- A call returns an error. -/
  | rollsBack (index : Nat)

def setBus [DecidableEq ι] (s : SharedLog ι) (i : ι) (bus : EventBus) : SharedLog ι :=
  { s with bus := Function.update s.bus i bus }

def confirm [DecidableEq ι] (s : SharedLog ι) (call : AppendCall ι) : ι → String → Nat :=
  Function.update s.confirmed call.emitter
    (Function.update (s.confirmed call.emitter) call.runId
      (max (s.confirmed call.emitter call.runId) call.upTo))

def step [DecidableEq ι] (s : SharedLog ι) : Label ι → Option (SharedLog ι)
  | .emits i runId text =>
    ((s.bus i).emit runId text).map fun emitted =>
      { s.setBus i emitted.1 with
        emitted := Function.update s.emitted runId (s.emitted runId ++ [(i, emitted.2)]) }
  | .subscribes i runId =>
    some (s.setBus i { s.bus i with subscribed := runId :: (s.bus i).subscribed })
  | .unsubscribes i runId =>
    some (s.setBus i { s.bus i with subscribed := (s.bus i).subscribed.filter (· ≠ runId) })
  | .clears i runId => some (s.setBus i ((s.bus i).clearRun runId))
  | .reloads i runId =>
    some (s.setBus i ((s.bus i).reloadLog runId (Postgres.loadEvents s.table runId 500)))
  | .restores i runId =>
    some (s.setBus i ((s.bus i).restoreLog runId (Postgres.loadEvents s.table runId 500)))
  | .calls i runId =>
    some
      { s with
        calls := s.calls ++ [⟨i, runId, (s.bus i).logOf runId, (s.emitted runId).length⟩] }
  | .commits index =>
    (s.calls[index]?).bind fun call =>
      (Postgres.appendTransaction s.table call.runId call.events).map fun table =>
        { s with
          table := table
          calls := s.calls.eraseIdx index
          confirmed := s.confirm call }
  | .rollsBack index => some { s with calls := s.calls.eraseIdx index }

def Start (s : SharedLog ι) : Prop :=
  (∀ i runId, (s.bus i).logOf runId = []) ∧ s.table = [] ∧ s.calls = [] ∧
    (∀ runId, s.emitted runId = []) ∧ ∀ i runId, s.confirmed i runId = 0

/-- Of the first `upTo` events of a run, `p` holds of each that is of the emitter and still among
the newest five hundred. -/
def Covers (emitted : List (ι × Envelope)) (i : ι) (upTo : Nat) (p : Envelope → Prop) : Prop :=
  ∀ k < upTo, ∀ e, emitted[k]? = some (i, e) → emitted.length ≤ k + 500 → p e

/-- Each newest event is in the table once an append of its emitter has returned ok. -/
def Kept (s : SharedLog ι) : Prop :=
  ∀ i runId, Covers (s.emitted runId) i (s.confirmed i runId)
    fun e => e ∈ Postgres.stored s.table runId

/-- `loadEvents` lists all that the table has for a run, and of two events of one emitter the
one that was emitted first comes first. -/
def Ordered (s : SharedLog ι) : Prop :=
  ∀ runId, (∀ e ∈ Postgres.stored s.table runId, e ∈ Postgres.loadEvents s.table runId 500) ∧
    (Postgres.loadEvents s.table runId 500).Pairwise fun a b => ∀ i (k l : Nat),
      (s.emitted runId)[k]? = some (i, a) → (s.emitted runId)[l]? = some (i, b) → k < l

def newest (s : SharedLog ι) (runId : String) : List (ι × Envelope) := (s.emitted runId).rtake 500

def rows (s : SharedLog ι) (call : AppendCall ι) : List Envelope :=
  Postgres.stored s.table call.runId ++ call.kept

/-- Of the newest events none has the number of another event if the call brings it, and none
has a number that five hundred events are above. -/
def Apart (s : SharedLog ι) (call : AppendCall ι) : Prop :=
  ∀ x ∈ s.newest call.runId, x.2 ∈ s.rows call →
    newer Envelope.seq (s.rows call).dedup x.2.seq < 500 ∧
      (x.2 ∈ call.kept → ∀ e ∈ s.rows call, e.seq = x.2.seq → e = x.2)

/-- A call brings each newest event of its emitter that the table lacks, and a transaction is
done on events that are apart. -/
def Aligned (s : SharedLog ι) : Label ι → Prop
  | .calls i runId => ∀ x ∈ s.newest runId, x.1 = i →
    x.2 ∈ ((s.bus i).logOf runId).rtake 500 ∨ x.2 ∈ Postgres.stored s.table runId
  | .commits index => ∀ call ∈ s.calls[index]?, s.Apart call
  | _ => True

section Cover

variable {emitted : List (ι × Envelope)} {i : ι} {upTo : Nat} {p q : Envelope → Prop}

theorem mem_newest {α : Type} {l : List α} {k n : Nat} {x : α} (h : l[k]? = some x)
    (hNew : l.length ≤ k + n) : x ∈ l.rtake n := by
  have hDrop : (l.drop (l.length - n))[k - (l.length - n)]? = some x := by
    rw [List.getElem?_drop, show l.length - n + (k - (l.length - n)) = k by omega]
    exact h
  exact List.mem_of_getElem? hDrop

theorem Covers.imp (h : Covers emitted i upTo p)
    (hpq : ∀ e, (i, e) ∈ emitted.rtake 500 → p e → q e) : Covers emitted i upTo q :=
  fun k hk e he hNew => hpq e (mem_newest he hNew) (h k hk e he hNew)

theorem Covers.emit (h : Covers emitted i upTo p) (hUpTo : upTo ≤ emitted.length)
    (x : ι × Envelope) : Covers (emitted ++ [x]) i upTo p := by
  intro k hk e he hNew
  rw [List.getElem?_append_left (by omega)] at he
  rw [List.length_append, List.length_singleton] at hNew
  exact h k hk e he (by omega)

end Cover

structure Inv (s : SharedLog ι) : Prop where
  valid : Postgres.Valid s.table
  short : ∀ runId, (Postgres.stored s.table runId).length ≤ 500
  positive : ∀ runId, ∀ x ∈ s.emitted runId, 0 < x.2.seq
  bound : ∀ runId, ∀ x ∈ s.emitted runId, x.2.seq ≤ (s.bus x.1).globalSeq
  /-- An emitter counts upwards. -/
  order : ∀ runId, (s.emitted runId).Pairwise fun x y => x.1 = y.1 → x.2.seq < y.2.seq
  called : ∀ call ∈ s.calls, call.upTo ≤ (s.emitted call.runId).length ∧
    Covers (s.emitted call.runId) call.emitter call.upTo
      fun e => e ∈ call.kept ∨ e ∈ Postgres.stored s.table call.runId
  reached : ∀ i runId, s.confirmed i runId ≤ (s.emitted runId).length
  kept : s.Kept

variable {s t : SharedLog ι} {l : Label ι}

theorem inv_start (h : Start s) : s.Inv := by
  obtain ⟨-, hTable, hCalls, hEmitted, hConfirmed⟩ := h
  constructor
  · rw [hTable]
    exact ⟨fun r hr => (by cases hr), List.Pairwise.nil⟩
  · intro runId
    rw [hTable]
    exact Nat.zero_le _
  · intro runId x hx
    rw [hEmitted] at hx
    cases hx
  · intro runId x hx
    rw [hEmitted] at hx
    cases hx
  · intro runId
    rw [hEmitted]
    exact List.Pairwise.nil
  · intro call hCall
    rw [hCalls] at hCall
    cases hCall
  · intro i runId
    rw [hConfirmed]
    exact Nat.zero_le _
  · intro i runId k hk
    rw [hConfirmed] at hk
    omega

theorem Inv.calls (hs : s.Inv) {i : ι} {runId : String} (hok : Aligned s (.calls i runId)) :
    Inv { s with
      calls := s.calls ++ [⟨i, runId, (s.bus i).logOf runId, (s.emitted runId).length⟩] } := by
  refine { hs with called := fun call hCall => ?_ }
  obtain hOld | hNew := List.mem_append.mp hCall
  · exact hs.called call hOld
  · cases List.mem_singleton.mp hNew
    exact ⟨le_rfl, fun k _ e he hNewest => hok (i, e) (mem_newest he hNewest) rfl⟩

/-- What is newest and in the table stays there, and what a transaction brings is there. -/
theorem Inv.there (hs : s.Inv) {call : AppendCall ι} {table : Postgres.Table}
    (hApart : s.Apart call)
    (h : Postgres.Appended call.runId call.events s.table table) {i : ι} {e : Envelope}
    (hNewest : (i, e) ∈ s.newest call.runId)
    (hRow : e ∈ call.kept ∨ e ∈ Postgres.stored s.table call.runId) :
    e ∈ Postgres.stored table call.runId := by
  have hPositive := hs.positive call.runId (i, e) (List.mem_of_mem_drop hNewest)
  have hMem : e ∈ s.rows call := by
    obtain hBrought | hStored := hRow
    · exact List.mem_append_right _ hBrought
    · exact List.mem_append_left _ hStored
  obtain ⟨hNewer, hOwn⟩ := hApart (i, e) hNewest hMem
  refine h.there e hPositive hNewer ?_
  obtain hBrought | hStored := hRow
  · exact .inr ⟨hBrought, hOwn hBrought⟩
  · exact .inl hStored

section Steps

variable [DecidableEq ι]

theorem setBus_same (s : SharedLog ι) (i : ι) (bus : EventBus) : (s.setBus i bus).bus i = bus :=
  Function.update_self ..

theorem setBus_other (s : SharedLog ι) {i j : ι} (bus : EventBus) (h : j ≠ i) :
    (s.setBus i bus).bus j = s.bus j := Function.update_of_ne h ..

theorem Inv.setBus (hs : s.Inv) {i : ι} {bus : EventBus}
    (hSeq : (s.bus i).globalSeq ≤ bus.globalSeq) : (s.setBus i bus).Inv := by
  refine { hs with bound := fun runId x hx => ?_ }
  have hBound := hs.bound runId x hx
  obtain rfl | hOther := eq_or_ne x.1 i
  · rw [setBus_same]
    exact hBound.trans (Nat.cast_le.mpr hSeq)
  · rw [setBus_other _ _ hOther]
    exact hBound

theorem Inv.emits (hs : s.Inv) {i : ι} {runId text : String} {bus : EventBus} {e : Envelope}
    (h : (s.bus i).emit runId text = some (bus, e)) :
    Inv { s.setBus i bus with
      emitted := Function.update s.emitted runId (s.emitted runId ++ [(i, e)]) } := by
  obtain ⟨hSeq, hNext, -, -⟩ := EventBus.emit_spec h
  have hBus : Inv (s.setBus i bus) := hs.setBus (by omega)
  have hCount : ∀ id, (s.emitted id).length ≤
      (Function.update s.emitted runId (s.emitted runId ++ [(i, e)]) id).length := by
    intro id
    obtain rfl | hOther := eq_or_ne id runId
    · rw [Function.update_self, List.length_append]
      omega
    · rw [Function.update_of_ne hOther]
  have hCovers {id : String} {j : ι} {upTo : Nat} {p : Envelope → Prop}
      (hUpTo : upTo ≤ (s.emitted id).length) (hOld : Covers (s.emitted id) j upTo p) :
      Covers (Function.update s.emitted runId (s.emitted runId ++ [(i, e)]) id) j upTo p := by
    obtain rfl | hOther := eq_or_ne id runId
    · rw [Function.update_self]
      exact hOld.emit hUpTo _
    · rw [Function.update_of_ne hOther]
      exact hOld
  have hMem {id : String} {x : ι × Envelope}
      (hx : x ∈ Function.update s.emitted runId (s.emitted runId ++ [(i, e)]) id) :
      x ∈ s.emitted id ∨ x = (i, e) := by
    obtain rfl | hOther := eq_or_ne id runId
    · rw [Function.update_self] at hx
      exact (List.mem_append.mp hx).imp_right List.mem_singleton.mp
    · rw [Function.update_of_ne hOther] at hx
      exact .inl hx
  refine ⟨hs.valid, hs.short, fun id x hx => ?_, fun id x hx => ?_, fun id => ?_,
    fun call hCall => ?_, fun j id => (hs.reached j id).trans (hCount id),
    fun j id => hCovers (hs.reached j id) (hs.kept j id)⟩
  · obtain hOld | rfl := hMem hx
    · exact hs.positive id x hOld
    · rw [hSeq]
      positivity
  · obtain hOld | rfl := hMem hx
    · exact hBus.bound id x hOld
    · change e.seq ≤ (((s.setBus i bus).bus i).globalSeq : ℚ)
      rw [setBus_same, hSeq, hNext]
      push_cast
      exact le_rfl
  · obtain rfl | hOther := eq_or_ne id runId
    · change (Function.update s.emitted id (s.emitted id ++ [(i, e)]) id).Pairwise _
      rw [Function.update_self]
      refine List.pairwise_append.mpr ⟨hs.order id, List.pairwise_singleton _ _, ?_⟩
      intro x hx y hy hSame
      cases List.mem_singleton.mp hy
      have hBound := hs.bound id x hx
      rw [hSame] at hBound
      rw [hSeq]
      linarith
    · change (Function.update s.emitted runId (s.emitted runId ++ [(i, e)]) id).Pairwise _
      rw [Function.update_of_ne hOther]
      exact hs.order id
  · obtain ⟨hUpTo, hOld⟩ := hs.called call hCall
    exact ⟨hUpTo.trans (hCount _), hCovers hUpTo hOld⟩

theorem confirm_cases (s : SharedLog ι) (call : AppendCall ι) (i : ι) (runId : String) :
    s.confirm call i runId = s.confirmed i runId ∨
      i = call.emitter ∧ runId = call.runId ∧
        s.confirm call i runId = max (s.confirmed i runId) call.upTo := by
  unfold confirm
  obtain rfl | hOther := eq_or_ne i call.emitter
  · rw [Function.update_self]
    obtain rfl | hRun := eq_or_ne runId call.runId
    · exact .inr ⟨rfl, rfl, Function.update_self ..⟩
    · exact .inl (Function.update_of_ne hRun ..)
  · rw [Function.update_of_ne hOther]
    exact .inl rfl

theorem Inv.commits (hs : s.Inv) {index : Nat} {call : AppendCall ι}
    (hCall : s.calls[index]? = some call) (hApart : s.Apart call) {table : Postgres.Table}
    (h : Postgres.Appended call.runId call.events s.table table) :
    Inv { s with
      table := table
      calls := s.calls.eraseIdx index
      confirmed := s.confirm call } := by
  have hStays {id : String} {i : ι} {e : Envelope} (hNewest : (i, e) ∈ s.newest id)
      (hStored : e ∈ Postgres.stored s.table id) : e ∈ Postgres.stored table id := by
    obtain rfl | hOther := eq_or_ne id call.runId
    · exact hs.there hApart h hNewest (.inr hStored)
    · rw [h.other id hOther]
      exact hStored
  have hOld (i : ι) (id : String) : Covers (s.emitted id) i (s.confirmed i id)
      fun e => e ∈ Postgres.stored table id :=
    (hs.kept i id).imp fun e hNewest hStored => hStays hNewest hStored
  obtain ⟨hUpTo, hCovers⟩ := hs.called call (List.mem_of_getElem? hCall)
  have hNew : Covers (s.emitted call.runId) call.emitter call.upTo
      fun e => e ∈ Postgres.stored table call.runId :=
    hCovers.imp fun e hNewest hRow => hs.there hApart h hNewest hRow
  refine { hs with
    valid := h.valid, short := fun id => ?_, called := fun other hOther => ?_,
    reached := fun i id => ?_, kept := fun i id => ?_ }
  · obtain rfl | hOther := eq_or_ne id call.runId
    · exact h.short
    · rw [h.other id hOther]
      exact hs.short id
  · obtain ⟨hOldUpTo, hOldCovers⟩ := hs.called other (List.mem_of_mem_eraseIdx hOther)
    refine ⟨hOldUpTo, hOldCovers.imp fun e hNewest => Or.imp_right fun hStored => ?_⟩
    exact hStays hNewest hStored
  · obtain hSame | ⟨rfl, rfl, hMax⟩ := confirm_cases s call i id
    · exact hSame.le.trans (hs.reached i id)
    · exact hMax.le.trans (max_le (hs.reached _ _) hUpTo)
  · obtain hSame | ⟨rfl, rfl, hMax⟩ := confirm_cases s call i id
    · intro k hk
      exact hOld i id k (hk.trans_eq hSame)
    · intro k hk
      obtain hBefore | hCalled := lt_max_iff.mp (hk.trans_eq hMax)
      · exact hOld _ _ k hBefore
      · exact hNew k hCalled

theorem inv_step (hs : s.Inv) (hok : Aligned s l) (h : step s l = some t) : t.Inv := by
  cases l with
  | emits i runId text =>
    obtain ⟨⟨bus, e⟩, hEmit, rfl⟩ := Option.map_eq_some_iff.mp h
    exact hs.emits hEmit
  | subscribes i runId =>
    cases h
    exact hs.setBus le_rfl
  | unsubscribes i runId =>
    cases h
    exact hs.setBus le_rfl
  | clears i runId =>
    cases h
    exact hs.setBus le_rfl
  | reloads i runId =>
    cases h
    refine hs.setBus ?_
    unfold EventBus.reloadLog
    split
    · exact le_rfl
    · exact le_rfl
  | restores i runId =>
    cases h
    exact hs.setBus (EventBus.globalSeq_le_restoreLog ..)
  | calls i runId =>
    cases h
    exact hs.calls hok
  | commits index =>
    obtain ⟨call, hCall, hDone⟩ := Option.bind_eq_some_iff.mp h
    obtain ⟨table, hTable, rfl⟩ := Option.map_eq_some_iff.mp hDone
    exact hs.commits hCall (hok call hCall)
      (Postgres.appended_appendTransaction hs.valid hTable)
  | rollsBack index =>
    cases h
    exact { hs with called := fun call hCall => hs.called call (List.mem_of_mem_eraseIdx hCall) }

end Steps

theorem Inv.ordered (hs : s.Inv) : s.Ordered := by
  intro runId
  rw [Postgres.loadEvents_of_length_le (hs.short runId)]
  refine ⟨fun _ => id, (Postgres.stored_ascending hs.valid runId).imp ?_⟩
  intro a b hLt i k m hk hm
  by_contra hNot
  obtain hSame | hAfter := (Nat.le_of_not_lt hNot).eq_or_lt
  · rw [hSame, hk] at hm
    cases hm
    exact lt_irrefl _ hLt
  · obtain ⟨hkLt, hkGet⟩ := List.getElem?_eq_some_iff.mp hk
    obtain ⟨hmLt, hmGet⟩ := List.getElem?_eq_some_iff.mp hm
    have hOrder := List.pairwise_iff_getElem.mp (hs.order runId) m k hmLt hkLt hAfter
    rw [hkGet, hmGet] at hOrder
    exact absurd (hOrder rfl) hLt.not_gt

/-- In every run whose calls bring what they should and whose transactions find the numbers
apart, the table has each newest event that was appended and lists the events in order. -/
theorem shared_log_kept [DecidableEq ι] (h : Reach step Aligned Start s) :
    s.Kept ∧ s.Ordered := by
  have hInv : s.Inv := h.invariant (I := Inv) (fun _ => inv_start)
    fun _ _ _ hs hok hstep => inv_step hs hok hstep
  exact ⟨hInv.kept, hInv.ordered⟩

instance decidableAligned [DecidableEq ι] (s : SharedLog ι) : ∀ l, Decidable (Aligned s l)
  | .calls i runId => inferInstanceAs (Decidable (∀ x ∈ s.newest runId, x.1 = i → _ ∨ _))
  | .commits index =>
    inferInstanceAs (Decidable (∀ call ∈ s.calls[index]?, ∀ x ∈ s.newest call.runId,
      x.2 ∈ s.rows call → _ ∧ (_ → ∀ e ∈ s.rows call, _)))
  | .emits .. => isTrue trivial
  | .subscribes .. => isTrue trivial
  | .unsubscribes .. => isTrue trivial
  | .clears .. => isTrue trivial
  | .reloads .. => isTrue trivial
  | .restores .. => isTrue trivial
  | .rollsBack .. => isTrue trivial

inductive Server
  | api
  | worker
  deriving DecidableEq

def boot (workerSeq : Nat) : SharedLog Server where
  bus
    | .api => ⟨500, 500, .empty, .empty, 0, []⟩
    | .worker => ⟨500, 500, .empty, .empty, workerSeq, []⟩
  table := []
  calls := []
  emitted := fun _ => []
  confirmed := fun _ _ => 0

theorem start_boot (workerSeq : Nat) : Start (boot workerSeq) := by
  refine ⟨fun i runId => ?_, rfl, rfl, fun _ => rfl, fun _ _ => rfl⟩
  cases i with
  | api => rfl
  | worker => rfl

/-- The run is created on one instance and executed by the other, and both append. -/
def createdAndExecuted : List (Label Server) :=
  [.emits .api "run-1" "run_created", .calls .api "run-1", .emits .worker "run-1" "run_started",
    .commits 0, .calls .worker "run-1", .commits 0]

theorem shared_log_kept_apart : ∃ s, run step (boot 100) createdAndExecuted = some s ∧
    Postgres.loadEvents s.table "run-1" 500 = [⟨1, "run_created"⟩, ⟨101, "run_started"⟩] ∧
    s.Kept ∧ s.Ordered := by
  have hRun : (run step (boot 100) createdAndExecuted).map
      (fun s => Postgres.loadEvents s.table "run-1" 500) =
      some [⟨1, "run_created"⟩, ⟨101, "run_started"⟩] := by
    decide +kernel
  obtain ⟨s, hs, hLoaded⟩ := Option.map_eq_some_iff.mp hRun
  have hReach : Reach step Aligned Start s :=
    (Reach.start (start_boot 100)).run hs (by decide +kernel)
  exact ⟨s, hs, hLoaded, shared_log_kept hReach⟩

/-- Two fresh counters give the first event of each instance the same number, and the second
of them to be appended is dropped. -/
theorem started_dropped : ¬ ∀ s : SharedLog Server, Reach step Anything Start s →
    s.Kept ∧ s.Ordered := by
  intro h
  have hRun : (run step (boot 0) createdAndExecuted).map (fun s =>
      (s.confirmed .worker "run-1", s.emitted "run-1", Postgres.stored s.table "run-1")) =
      some (2, [(.api, ⟨1, "run_created"⟩), (.worker, ⟨1, "run_started"⟩)],
        [⟨1, "run_created"⟩]) := by
    decide +kernel
  obtain ⟨s, hs, hState⟩ := Option.map_eq_some_iff.mp hRun
  obtain ⟨hConfirmed, hRest⟩ := Prod.mk.inj hState
  obtain ⟨hEmitted, hStored⟩ := Prod.mk.inj hRest
  have hKept := (h s (reach_of_run (start_boot 0) hs)).1 .worker "run-1" 1
    (by rw [hConfirmed]; decide) ⟨1, "run_started"⟩ (by rw [hEmitted]; rfl)
    (by rw [hEmitted]; decide)
  rw [hStored] at hKept
  exact absurd hKept (by decide +kernel)

end SharedLog

end OrchestraAI.Persistence
