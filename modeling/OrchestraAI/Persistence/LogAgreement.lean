import Mathlib.Algebra.Order.Ring.Cast
import Mathlib.Data.List.Pairwise
import OrchestraAI.Persistence.EventLog

/-! # When the two event logs agree

A run of `saveEvents` and `appendEvents` calls on both adapters, beside the log of all
envelopes that were written since the last save.
-/

namespace OrchestraAI.Persistence

open LabelledSystem LastEntries NewestWindow

namespace Postgres

theorem toBigint_eq {q : ℚ} {z : ℤ} (h : toBigint q = some z) : q = z := by
  unfold toBigint at h
  split at h
  · rename_i hInt
    cases h
    exact (Rat.coe_int_num_of_den_eq_one hInt.1).symm
  · cases h

/-- The rows have the `seq` of their envelopes, and the primary key is one. -/
structure Valid (table : Table) : Prop where
  seq : ∀ r ∈ table, toBigint r.envelope.seq = some r.seq
  key : table.Pairwise fun r r' => r.runId = r'.runId → r.seq ≠ r'.seq

def stored (table : Table) (runId : String) : List Envelope :=
  (selectBySeq table runId).map Row.envelope

variable {table t : Table} {runId : String} {events : List Envelope}

theorem Valid.eq_of_key (h : Valid table) {r r' : Row} (hr : r ∈ table) (hr' : r' ∈ table)
    (hRun : r.runId = r'.runId) (hSeq : r.envelope.seq = r'.envelope.seq) : r = r' := by
  by_contra hne
  have hSame : r.seq = r'.seq := by
    have hInt := h.seq r hr
    rw [hSeq, h.seq r' hr'] at hInt
    exact (Option.some.inj hInt).symm
  have hSymm : Std.Symm fun r r' : Row => r.runId = r'.runId → r.seq ≠ r'.seq :=
    ⟨fun _ _ hab hRun => (hab hRun.symm).symm⟩
  exact h.key.forall hr hr' hne hRun hSame

theorem Valid.filter (h : Valid table) (p : Row → Bool) : Valid (table.filter p) :=
  ⟨fun r hr => h.seq r (List.mem_filter.mp hr).1, h.key.filter p⟩

theorem mem_stored {e : Envelope} :
    e ∈ stored table runId ↔ ∃ r ∈ table, r.runId = runId ∧ r.envelope = e := by
  unfold stored selectBySeq
  simp only [List.mem_map, List.mem_insertionSort, List.mem_filter, decide_eq_true_eq, and_assoc]

theorem stored_ascending (h : Valid table) (runId : String) :
    Ascending Envelope.seq (stored table runId) := by
  have hRows : Ascending Row.seq (selectBySeq table runId) := by
    refine ascending_insertionSort (List.Pairwise.imp_of_mem ?_ (h.key.filter _))
    intro r r' hr hr' hKey
    have hRun := of_decide_eq_true (List.mem_filter.mp hr).2
    have hRun' := of_decide_eq_true (List.mem_filter.mp hr').2
    exact hKey (hRun.trans hRun'.symm)
  refine List.pairwise_map.mpr (List.Pairwise.imp_of_mem ?_ hRows)
  intro r r' hr hr' hLt
  have hMem {r : Row} (hr : r ∈ selectBySeq table runId) : r ∈ table :=
    (List.mem_filter.mp ((List.mem_insertionSort _).mp hr)).1
  rw [toBigint_eq (h.seq r (hMem hr)), toBigint_eq (h.seq r' (hMem hr'))]
  exact Int.cast_lt.mpr hLt

theorem stored_congr (h : Valid table) (h' : Valid t)
    (hRows : ∀ r : Row, r.runId = runId → (r ∈ table ↔ r ∈ t)) :
    stored table runId = stored t runId := by
  refine (stored_ascending h runId).eq_of_mem (stored_ascending h' runId) fun e => ?_
  rw [mem_stored, mem_stored]
  constructor
  · rintro ⟨r, hr, hRun, he⟩
    exact ⟨r, (hRows r hRun).mp hr, hRun, he⟩
  · rintro ⟨r, hr, hRun, he⟩
    exact ⟨r, (hRows r hRun).mpr hr, hRun, he⟩

/-- A table after envelopes of a run were inserted into another. -/
structure Inserted (runId : String) (events : List Envelope) (table t : Table) : Prop where
  valid : Valid t
  kept : ∀ r ∈ table, r ∈ t
  source : ∀ r ∈ t, r ∈ table ∨ r.runId = runId ∧ r.envelope ∈ events
  there : ∀ e ∈ events, ∃ r ∈ t, r.runId = runId ∧ r.envelope.seq = e.seq

theorem hasKey_iff {seq : ℤ} :
    hasKey table runId seq = true ↔ ∃ r ∈ table, r.runId = runId ∧ r.seq = seq := by
  unfold hasKey
  simp only [List.any_eq_true, decide_eq_true_eq]

theorem inserted_insertNew (hTable : Valid table) {e : Envelope}
    (h : insertNew runId table e = some t) : Inserted runId [e] table t := by
  obtain ⟨seq, hSeq, rfl⟩ := Option.map_eq_some_iff.mp h
  split
  · rename_i hKey
    obtain ⟨r, hr, hRun, rfl⟩ := hasKey_iff.mp hKey
    refine ⟨hTable, fun _ => id, fun _ => .inl, fun e' he' => ⟨r, hr, hRun, ?_⟩⟩
    rw [List.mem_singleton.mp he', toBigint_eq hSeq, toBigint_eq (hTable.seq r hr)]
  · rename_i hKey
    refine ⟨⟨fun r hr => ?_, ?_⟩, fun r hr => List.mem_append_left _ hr, fun r hr => ?_,
      fun e' he' => ⟨⟨runId, seq, e⟩, List.mem_append_right _ (List.mem_singleton_self _), rfl, ?_⟩⟩
    · obtain hOld | hNew := List.mem_append.mp hr
      · exact hTable.seq r hOld
      · cases List.mem_singleton.mp hNew
        exact hSeq
    · refine List.pairwise_append.mpr ⟨hTable.key, List.pairwise_singleton _ _, ?_⟩
      intro r hr r' hr' hRun hSame
      cases List.mem_singleton.mp hr'
      exact hKey (hasKey_iff.mpr ⟨r, hr, hRun, hSame⟩)
    · obtain hOld | hNew := List.mem_append.mp hr
      · exact .inl hOld
      · cases List.mem_singleton.mp hNew
        exact .inr ⟨rfl, List.mem_singleton_self _⟩
    · rw [List.mem_singleton.mp he']

theorem inserted_foldlM (hTable : Valid table)
    (h : events.foldlM (insertNew runId) table = some t) : Inserted runId events table t := by
  induction events generalizing table with
  | nil =>
    cases h
    exact ⟨hTable, fun _ => id, fun _ => .inl, fun e he => by cases he⟩
  | cons e events ih =>
    obtain ⟨next, hNext, hRest⟩ := Option.bind_eq_some_iff.mp h
    have hFirst := inserted_insertNew hTable hNext
    have hLast := ih hFirst.valid hRest
    refine ⟨hLast.valid, fun r hr => hLast.kept r (hFirst.kept r hr), fun r hr => ?_,
      fun e' he' => ?_⟩
    · obtain hMid | ⟨hRun, hMem⟩ := hLast.source r hr
      · obtain hOld | ⟨hRun, hMem⟩ := hFirst.source r hMid
        · exact .inl hOld
        · exact .inr ⟨hRun, List.mem_cons.mpr (.inl (List.mem_singleton.mp hMem))⟩
      · exact .inr ⟨hRun, List.mem_cons_of_mem e hMem⟩
    · obtain rfl | hMem := List.mem_cons.mp he'
      · obtain ⟨r, hr, hFound⟩ := hFirst.there e' (List.mem_singleton_self _)
        exact ⟨r, hLast.kept r hr, hFound⟩
      · exact hLast.there e' hMem

/-- The envelopes have a `seq` that the column takes. -/
def Storable (events : List Envelope) : Prop := ∀ e ∈ events, (toBigint e.seq).isSome

instance (events : List Envelope) : Decidable (Storable events) :=
  inferInstanceAs (Decidable (∀ e ∈ events, _))

theorem mem_stored_trim (h : Valid table) {bound : ℤ}
    (hBound : ((selectBySeq table runId).reverse[499]?.map Row.seq).getD (-1) = bound)
    {e : Envelope} : e ∈ stored (trim table runId) runId ↔
      e ∈ stored table runId ∧ (bound : ℚ) ≤ e.seq := by
  have hKept {r : Row} (hr : r ∈ table) (hRun : r.runId = runId) :
      ¬ (r.runId = runId ∧ r.seq < bound) ↔ (bound : ℚ) ≤ r.envelope.seq := by
    rw [toBigint_eq (h.seq r hr), Int.cast_le, not_and, not_lt]
    exact forall_prop_of_true hRun
  rw [mem_stored, mem_stored]
  constructor
  · rintro ⟨r, hr, hRun, rfl⟩
    obtain ⟨hMem, hNot⟩ := List.mem_filter.mp hr
    rw [hBound] at hNot
    exact ⟨⟨r, hMem, hRun, rfl⟩, (hKept hMem hRun).mp (of_decide_eq_true hNot)⟩
  · rintro ⟨⟨r, hMem, hRun, rfl⟩, hFrom⟩
    refine ⟨r, List.mem_filter.mpr ⟨hMem, ?_⟩, hRun, rfl⟩
    rw [hBound]
    exact decide_eq_true ((hKept hMem hRun).mpr hFrom)

theorem reverse_stored (table : Table) (runId : String) :
    (stored table runId).reverse[499]? =
      (selectBySeq table runId).reverse[499]?.map Row.envelope := by
  rw [stored, ← List.map_reverse, List.getElem?_map]

theorem length_stored_of_none (h : (selectBySeq table runId).reverse[499]? = none) :
    (stored table runId).length ≤ 499 := by
  have hReverse := reverse_stored table runId
  rw [h] at hReverse
  rw [← List.length_reverse]
  exact List.getElem?_eq_none_iff.mp hReverse

/-- The trim keeps the newest five hundred, if it finds as many or nothing is below its
default bound. -/
theorem stored_trim (h : Valid table)
    (hDefault : 500 ≤ (stored table runId).length ∨ ∀ e ∈ stored table runId, -1 ≤ e.seq) :
    stored (trim table runId) runId = (stored table runId).rtake 500 := by
  have hAscending : Ascending Envelope.seq (stored table runId) := stored_ascending h runId
  have hReverse := reverse_stored table runId
  have hTrimmed : Ascending Envelope.seq (stored (trim table runId) runId) :=
    stored_ascending (h.filter _) runId
  refine hTrimmed.eq_of_mem (hAscending.rtake 500) fun e => ?_
  cases hRow : (selectBySeq table runId).reverse[499]? with
  | none =>
    have hShort := length_stored_of_none hRow
    rw [rtake_of_length_le (by omega), mem_stored_trim h (by rw [hRow])]
    refine and_iff_left_of_imp fun he => ?_
    obtain hLong | hAll := hDefault
    · omega
    · simpa using hAll e he
  | some r =>
    rw [hRow] at hReverse
    have hMem : r ∈ table := by
      have hSelected := List.mem_reverse.mp (List.mem_of_getElem? hRow)
      exact (List.mem_filter.mp ((List.mem_insertionSort _).mp hSelected)).1
    rw [mem_stored_trim h (by rw [hRow]), ← hAscending.filter_from hReverse, List.mem_filter,
      decide_eq_true_eq, toBigint_eq (h.seq r hMem)]
    rfl

theorem stored_trim_other (hTable : Valid table) (h : Inserted runId events table t) {other : String}
    (hOther : other ≠ runId) : stored (trim t runId) other = stored table other := by
  refine stored_congr (h.valid.filter _) hTable fun r hRun => ?_
  have hNot : ¬ r.runId = runId := hRun ▸ hOther
  constructor
  · intro hr
    obtain hOld | ⟨hSame, -⟩ := h.source r (List.mem_filter.mp hr).1
    · exact hOld
    · exact absurd hSame hNot
  · intro hr
    exact List.mem_filter.mpr ⟨h.kept r hr, decide_eq_true fun hBoth => hNot hBoth.1⟩

theorem loadEvents_of_length_le (h : (stored table runId).length ≤ 500) :
    loadEvents table runId 500 = stored table runId := by
  have hRows : (selectBySeq table runId).length ≤ 500 := by
    rwa [stored, List.length_map] at h
  rw [loadEvents, List.take_of_length_le hRows]
  exact rtake_of_length_le h

end Postgres

structure Batch where
  envelopes : List Envelope
  distinct : (envelopes.map Envelope.seq).Nodup

namespace Batch

variable (b : Batch)

def kept : List Envelope := b.envelopes.rtake 500

def dropped : List Envelope := b.envelopes.take (b.envelopes.length - 500)

theorem mem_iff {b : Batch} {e : Envelope} : e ∈ b.envelopes ↔ e ∈ b.dropped ∨ e ∈ b.kept := by
  rw [dropped, kept, List.rtake, ← List.mem_append, List.take_append_drop]

end Batch

inductive Call
  | append (runId : String) (events : Batch)
  | save (runId : String) (events : Batch)

structure Logs where
  /-- The event file of each run. -/
  file : String → List Envelope
  table : Postgres.Table
  /-- What was written for each run since the last save, the first writer winning. -/
  log : String → ℚ → Option Envelope

namespace Logs

variable (maxBytes : Nat)

def put {α : Type} (f : String → α) (runId : String) (value : α) : String → α :=
  fun id => if id = runId then value else f id

def step (s : Logs) : Call → Option Logs
  | .append runId events =>
    some
      { file := put s.file runId
          (FileStore.appendEvents maxBytes (s.file runId) events.envelopes)
        table := Postgres.appendEvents s.table runId events.envelopes
        log := put s.log runId (append Envelope.seq (s.log runId) events.envelopes) }
  | .save runId events =>
    some
      { file := put s.file runId (FileStore.saveEvents maxBytes (s.file runId) events.envelopes)
        table := Postgres.saveEvents s.table runId events.envelopes
        log := put s.log runId (append Envelope.seq (fun _ => none) events.envelopes) }

def Start (s : Logs) : Prop :=
  (∀ runId, s.file runId = []) ∧ s.table = [] ∧ ∀ runId k, s.log runId k = none

/-- An append loses no newest envelope to a list that is too long, and the trim finds five
hundred rows or none below its default bound. A save gets the newest envelopes of its list in
order at the end. Every number fits the column, and the text of what is kept the file. -/
def Aligned (s : Logs) : Call → Prop
  | .append runId events =>
    let merged := FileStore.mergedEvents (s.file runId) events.kept
    Postgres.Storable events.kept ∧
      (∀ e ∈ events.dropped, e.seq ∈ (s.file runId).map Envelope.seq ∨
        500 ≤ newer Envelope.seq merged e.seq) ∧
      (500 ≤ merged.length ∨ ∀ e ∈ merged, -1 ≤ e.seq) ∧
      FileStore.Fits maxBytes (FileStore.mergedEvents (s.file runId) events.envelopes)
  | .save _ events =>
    Postgres.Storable events.kept ∧ Ascending Envelope.seq events.kept ∧
      (∀ e ∈ events.dropped, ∀ e' ∈ events.kept, e.seq < e'.seq) ∧
      FileStore.Fits maxBytes events.envelopes

structure Agree (s : Logs) : Prop where
  valid : Postgres.Valid s.table
  file : ∀ runId, Window Envelope.seq 500 (s.log runId) (s.file runId)
  table : ∀ runId, Postgres.stored s.table runId = s.file runId

variable {maxBytes} {s t : Logs} {call : Call}

theorem put_same {α : Type} (f : String → α) (runId : String) (value : α) :
    put f runId value runId = value := if_pos rfl

theorem put_other {α : Type} (f : String → α) {runId other : String} (value : α)
    (h : other ≠ runId) : put f runId value other = f other := if_neg h

theorem Agree.put (hs : s.Agree) {runId : String} {file : List Envelope} {table : Postgres.Table}
    {log : ℚ → Option Envelope} (hValid : Postgres.Valid table)
    (hWindow : Window Envelope.seq 500 log file) (hStored : Postgres.stored table runId = file)
    (hOthers : ∀ other, other ≠ runId →
      Postgres.stored table other = Postgres.stored s.table other) :
    Agree ⟨put s.file runId file, table, put s.log runId log⟩ := by
  refine ⟨hValid, fun id => ?_, fun id => ?_⟩
  · by_cases hId : id = runId
    · subst hId
      simpa only [put_same] using hWindow
    · simpa only [put_other _ _ hId] using hs.file id
  · by_cases hId : id = runId
    · subst hId
      simpa only [put_same] using hStored
    · simpa only [put_other _ _ hId] using (hOthers id hId).trans (hs.table id)

instance (s : Logs) : ∀ call, Decidable (Aligned maxBytes s call)
  | .append _ _ => inferInstanceAs (Decidable (_ ∧ _ ∧ _ ∧ _))
  | .save _ _ => inferInstanceAs (Decidable (_ ∧ _ ∧ _ ∧ _))

def empty : Logs := ⟨fun _ => [], [], fun _ _ => none⟩

theorem start_empty : empty.Start := ⟨fun _ => rfl, rfl, fun _ _ => rfl⟩

end Logs

end OrchestraAI.Persistence
