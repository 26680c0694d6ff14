import Mathlib.Tactic.Linarith
import OrchestraAI.Persistence.EventLog

/-! # Replay of events

`EventBus` of `events/event-bus.js`, `serveRunEvents` of `services/sse-service.js` and
`readDurableSince` of `infrastructure/event-log.js`, over runs of emits that overflow
buffers and prune runs, with the events persisted to files and loaded again.
-/

namespace OrchestraAI.Persistence

open LabelledSystem NewestWindow

structure EventBus where
  maxReplayBuffer : Nat
  maxRuns : Nat
  eventLogs : OrderedMap String (List Envelope)
  runSeq : OrderedMap String Nat
  globalSeq : Nat
  /-- The runs with live subscribers. -/
  subscribed : List String

structure Answer where
  events : List Envelope
  gap : Bool
  oldestSeq : ℚ
  latestSeq : ℚ
  deriving DecidableEq

namespace EventBus

/-- The loop of `_pruneRunsIfNeeded`, with as many turns as there are logs. -/
def pruneRuns (bus : EventBus) : Nat → EventBus
  | 0 => bus
  | turns + 1 =>
    if bus.eventLogs.size ≤ bus.maxRuns then bus
    else
      match bus.eventLogs.entries.head? with
      | none => bus
      | some (oldest, log) =>
        -- a run with subscribers goes to the back, and the loop ends
        if oldest ∈ bus.subscribed then
          { bus with eventLogs := (bus.eventLogs.delete oldest).set oldest log }
        else
          pruneRuns
            { bus with
              eventLogs := bus.eventLogs.delete oldest
              runSeq := bus.runSeq.delete oldest } turns

def withLog (bus : EventBus) (runId : String) : EventBus :=
  if bus.eventLogs.has runId then bus
  else
    let bus := { bus with eventLogs := bus.eventLogs.set runId [] }
    bus.pruneRuns bus.eventLogs.size

def logOf (bus : EventBus) (runId : String) : List Envelope := (bus.eventLogs.get runId).getD []

def pushEvent (maxReplayBuffer : Nat) (log : List Envelope) (envelope : Envelope) :
    List Envelope :=
  let pushed := log ++ [envelope]
  if maxReplayBuffer < pushed.length then pushed.tail else pushed

/-- `emit`, with the envelope; it throws when the number of a run goes backwards. -/
def emit (bus : EventBus) (runId text : String) : Option (EventBus × Envelope) :=
  let seq := bus.globalSeq + 1
  let envelope : Envelope := ⟨seq, text⟩
  let bus := { bus with globalSeq := seq }.withLog runId
  let log := pushEvent bus.maxReplayBuffer (bus.logOf runId) envelope
  if seq ≤ (bus.runSeq.get runId).getD 0 then none
  else
    some
      ({ bus with
          eventLogs := bus.eventLogs.set runId log
          runSeq := bus.runSeq.set runId seq }, envelope)

def clearRun (bus : EventBus) (runId : String) : EventBus :=
  { bus with
    eventLogs := bus.eventLogs.delete runId
    runSeq := bus.runSeq.delete runId
    subscribed := bus.subscribed.filter (· ≠ runId) }

end EventBus

def answerFrom (window : List Envelope) (since : Nat) : Answer :=
  match window with
  | [] => ⟨[], false, 0, 0⟩
  | oldest :: rest =>
    { events := window.filter fun e => since < e.seq
      gap := 0 < since && since < oldest.seq - 1
      oldestSeq := oldest.seq
      latestSeq := ((oldest :: rest).getLast (List.cons_ne_nil _ _)).seq }

def EventBus.getEventsSinceWithGap (bus : EventBus) (runId : String) (since : Nat) : Answer :=
  answerFrom (bus.logOf runId) since

def dedupeBySeq (events : List Envelope) : List Envelope :=
  ((OrderedMap.empty : OrderedMap ℚ Envelope).addAll Envelope.seq (bySeq events)).values

/-- A bus beside the event files, and all that was ever emitted. -/
structure EventServer where
  bus : EventBus
  /-- `loadEvents` of the store. -/
  store : String → List Envelope
  emitted : String → List Envelope

namespace EventServer

variable (maxBytes : Nat)

def reload (s : EventServer) (runId : String) : EventServer :=
  if s.bus.eventLogs.has runId || (s.store runId).isEmpty then s
  else { s with bus := { s.bus with eventLogs := s.bus.eventLogs.set runId (s.store runId) } }

/-- `serveRunEvents`; an answer that is missing is `not_found`. -/
def serveRunEvents (s : EventServer) (runId : String) (since : Nat) :
    EventServer × Option Answer :=
  let s := s.reload runId
  if s.bus.eventLogs.has runId then (s, some (s.bus.getEventsSinceWithGap runId since))
  else (s, none)

def readDurableSince (s : EventServer) (runId : String) (since : Nat) : Answer :=
  let live := (s.bus.getEventsSinceWithGap runId 0).events
  answerFrom (dedupeBySeq (s.store runId ++ live)) since

inductive Label
  | emits (runId text : String)
  | subscribes (runId : String)
  | unsubscribes (runId : String)
  | clears (runId : String)
  /-- `persistRunArtifacts` appends the log of the bus. -/
  | persists (runId : String)
  | serves (runId : String) (since : Nat)

def step (s : EventServer) : Label → Option EventServer
  | .emits runId text =>
    (s.bus.emit runId text).map fun emitted =>
      { s with
        bus := emitted.1
        emitted := fun id => if id = runId then s.emitted id ++ [emitted.2] else s.emitted id }
  | .subscribes runId =>
    some { s with bus := { s.bus with subscribed := runId :: s.bus.subscribed } }
  | .unsubscribes runId =>
    some { s with bus := { s.bus with subscribed := s.bus.subscribed.filter (· ≠ runId) } }
  | .clears runId => some { s with bus := s.bus.clearRun runId }
  | .persists runId =>
    some
      { s with
        store := fun id =>
          if id = runId then FileStore.appendEvents maxBytes (s.store id) (s.bus.logOf id)
          else s.store id }
  | .serves runId since => some (s.serveRunEvents runId since).1

/-- A new process with nothing stored; zero is no limit of a bus. -/
structure Start (s : EventServer) : Prop where
  logs : s.bus.eventLogs = .empty
  runSeq : s.bus.runSeq = .empty
  store : ∀ runId, s.store runId = []
  emitted : ∀ runId, s.emitted runId = []
  buffer : 0 < s.bus.maxReplayBuffer
  runs : 0 < s.bus.maxRuns

/-- What `not_found` tells. -/
def notFound : Answer := ⟨[], false, 0, 0⟩

theorem ascending_addAll {m : OrderedMap ℚ Envelope} {l : List Envelope}
    (hl : l.Pairwise fun a b => a.seq ≤ b.seq) (hKeyed : m.Keyed Envelope.seq)
    (hm : Ascending Envelope.seq m.values) (hBelow : ∀ v ∈ m.values, ∀ e ∈ l, v.seq ≤ e.seq) :
    Ascending Envelope.seq (m.addAll Envelope.seq l).values := by
  induction l generalizing m with
  | nil => exact hm
  | cons e l ih =>
    obtain ⟨hHead, hTail⟩ := List.pairwise_cons.mp hl
    have hRest : ∀ v ∈ m.values, ∀ e' ∈ l, v.seq ≤ e'.seq :=
      fun v hv e' he' => hBelow v hv e' (List.mem_cons_of_mem e he')
    change Ascending Envelope.seq (OrderedMap.values
      (OrderedMap.addAll Envelope.seq (if m.has e.seq then m else m.set e.seq e) l))
    split
    · exact ih hTail hKeyed hm hRest
    · rename_i hHas
      have hNew : e.seq ∉ m.keys := fun h => hHas ((m.has_iff e.seq).mpr h)
      have hValues : (m.set e.seq e).values = m.values ++ [e] := OrderedMap.values_set_new e hNew
      refine ih hTail (hKeyed.setAll (l := [e])) ?_ ?_
      · rw [hValues]
        refine List.pairwise_append.mpr ⟨hm, List.pairwise_singleton _ _, fun v hv e' he' => ?_⟩
        cases List.mem_singleton.mp he'
        refine lt_of_le_of_ne (hBelow v hv e List.mem_cons_self) fun hEq => hNew ?_
        rw [← hKeyed.values_map, ← hEq]
        exact List.mem_map_of_mem hv
      · intro v hv e' he'
        rw [hValues] at hv
        obtain hOld | hLast := List.mem_append.mp hv
        · exact hRest v hOld e' he'
        · cases List.mem_singleton.mp hLast
          exact hHead e' he'

theorem mem_dedupeBySeq {events : List Envelope}
    (hSame : ∀ e ∈ events, ∀ e' ∈ events, e'.seq = e.seq → e' = e) (e : Envelope) :
    e ∈ dedupeBySeq events ↔ e ∈ events := by
  have hKeyed : (OrderedMap.addAll Envelope.seq .empty (bySeq events)).Keyed Envelope.seq :=
    OrderedMap.keyed_empty.addAll
  have hSorted (e : Envelope) : e ∈ bySeq events ↔ e ∈ events := List.mem_insertionSort _
  unfold dedupeBySeq
  rw [hKeyed.mem_values, OrderedMap.get_addAll, OrderedMap.get_empty, Option.none_or]
  constructor
  · exact fun h => (hSorted e).mp (List.mem_of_find?_eq_some h)
  · intro he
    cases hFind : (bySeq events).find? fun v => v.seq = e.seq with
    | none =>
      exact absurd (decide_eq_true rfl) (List.find?_eq_none.mp hFind e ((hSorted e).mpr he))
    | some e' =>
      have hKey : e'.seq = e.seq := by simpa using List.find?_some hFind
      have hMem := (hSorted e').mp (List.mem_of_find?_eq_some hFind)
      rw [hSame e he e' hMem hKey]

theorem dedupeBySeq_ascending (events : List Envelope) :
    Ascending Envelope.seq (dedupeBySeq events) := by
  have hTotal : Std.Total fun a b : Envelope => a.seq ≤ b.seq := ⟨fun a b => le_total _ _⟩
  have hTrans : IsTrans Envelope fun a b => a.seq ≤ b.seq := ⟨fun a b c => le_trans⟩
  refine ascending_addAll (List.pairwise_insertionSort _ events) OrderedMap.keyed_empty ?_ ?_
  · exact List.Pairwise.nil
  · intro v hv
    cases hv

end EventServer

namespace EventBus

variable {bus : EventBus}

theorem pruneRuns_logOf (turns : Nat) (runId : String) :
    (bus.pruneRuns turns).logOf runId = bus.logOf runId ∨ (bus.pruneRuns turns).logOf runId = [] := by
  induction turns generalizing bus with
  | zero => exact .inl rfl
  | succ turns ih =>
    unfold pruneRuns
    split
    · exact .inl rfl
    · split
      · exact .inl rfl
      · rename_i oldest log hHead
        have hGet : bus.eventLogs.get oldest = some log :=
          (OrderedMap.mem_entries_iff _ _ _).mp (List.mem_of_mem_head? hHead)
        split
        · refine .inl ?_
          simp only [logOf, OrderedMap.get_set, OrderedMap.get_delete]
          split
          · rename_i hSame
            rw [hSame, hGet]
          · rfl
        · let rest : EventBus :=
            { bus with
              eventLogs := bus.eventLogs.delete oldest
              runSeq := bus.runSeq.delete oldest }
          obtain hKept | hGone := @ih rest
          · rw [hKept]
            simp only [rest, logOf, OrderedMap.get_delete]
            split
            · exact .inr rfl
            · exact .inl rfl
          · exact .inr hGone

theorem pruneRuns_globalSeq (turns : Nat) : (bus.pruneRuns turns).globalSeq = bus.globalSeq := by
  induction turns generalizing bus with
  | zero => rfl
  | succ turns ih =>
    unfold pruneRuns
    split
    · rfl
    · split
      · rfl
      · split
        · rfl
        · exact ih

theorem pruneRuns_limits (turns : Nat) :
    (bus.pruneRuns turns).maxReplayBuffer = bus.maxReplayBuffer ∧
      (bus.pruneRuns turns).maxRuns = bus.maxRuns := by
  induction turns generalizing bus with
  | zero => exact ⟨rfl, rfl⟩
  | succ turns ih =>
    unfold pruneRuns
    split
    · exact ⟨rfl, rfl⟩
    · split
      · exact ⟨rfl, rfl⟩
      · split
        · exact ⟨rfl, rfl⟩
        · exact ih

theorem withLog_limits (runId : String) :
    (bus.withLog runId).maxReplayBuffer = bus.maxReplayBuffer ∧
      (bus.withLog runId).maxRuns = bus.maxRuns := by
  unfold withLog
  split
  · exact ⟨rfl, rfl⟩
  · exact pruneRuns_limits _

theorem emit_limits {runId text : String} {bus' : EventBus} {e : Envelope}
    (h : bus.emit runId text = some (bus', e)) :
    bus'.maxReplayBuffer = bus.maxReplayBuffer ∧ bus'.maxRuns = bus.maxRuns := by
  unfold emit at h
  simp only at h
  split at h
  · cases h
  · cases h
    exact @withLog_limits { bus with globalSeq := bus.globalSeq + 1 } runId

theorem withLog_logOf (runId id : String) :
    (bus.withLog runId).logOf id = bus.logOf id ∨ (bus.withLog runId).logOf id = [] := by
  unfold withLog
  split
  · exact .inl rfl
  · rename_i hHas
    let opened : EventBus := { bus with eventLogs := bus.eventLogs.set runId [] }
    obtain hKept | hGone := opened.pruneRuns_logOf opened.eventLogs.size id
    · refine .inl (hKept.trans ?_)
      simp only [opened, logOf, OrderedMap.get_set]
      split
      · rename_i hSame
        subst hSame
        have hNone : bus.eventLogs.get id = none := by simpa [OrderedMap.has] using hHas
        rw [hNone]
        rfl
      · rfl
    · exact .inr hGone

theorem withLog_globalSeq (runId : String) : (bus.withLog runId).globalSeq = bus.globalSeq := by
  unfold withLog
  split
  · rfl
  · exact pruneRuns_globalSeq _

theorem pushEvent_sublist (maxReplayBuffer : Nat) (log : List Envelope) (envelope : Envelope) :
    (pushEvent maxReplayBuffer log envelope).Sublist (log ++ [envelope]) := by
  unfold pushEvent
  simp only
  split
  · exact List.tail_sublist _
  · exact List.Sublist.refl _

/-- What an emit does: the envelope has the next number and is the last of the log of its run,
from which old ones may be gone; other logs are kept or gone. -/
theorem emit_spec {runId text : String} {bus' : EventBus} {e : Envelope}
    (h : bus.emit runId text = some (bus', e)) :
    e.seq = bus.globalSeq + 1 ∧ bus'.globalSeq = bus.globalSeq + 1 ∧
      (bus'.logOf runId).Sublist (bus.logOf runId ++ [e]) ∧
      ∀ id, id ≠ runId → (bus'.logOf id).Sublist (bus.logOf id) := by
  unfold emit at h
  simp only at h
  split at h
  · cases h
  · cases h
    let next : EventBus := { bus with globalSeq := bus.globalSeq + 1 }
    have hSublist (id : String) : ((next.withLog runId).logOf id).Sublist (bus.logOf id) := by
      obtain hKept | hGone := next.withLog_logOf runId id
      · rw [hKept]
        exact List.Sublist.refl _
      · rw [hGone]
        exact List.nil_sublist _
    refine ⟨by push_cast; rfl, next.withLog_globalSeq runId, ?_, fun id hOther => ?_⟩
    · simp only [logOf, OrderedMap.get_set_self, Option.getD_some]
      exact (pushEvent_sublist _ _ _).trans ((hSublist runId).append_right _)
    · simp only [logOf, OrderedMap.get_set_ne _ _ hOther]
      exact hSublist id

end EventBus

namespace EventServer

variable {maxBytes : Nat} {s t : EventServer} {l : Label}

structure Sound (s : EventServer) : Prop where
  log : ∀ runId, Ascending Envelope.seq (s.bus.logOf runId) ∧
    ∀ e ∈ s.bus.logOf runId, e ∈ s.emitted runId
  store : ∀ runId, Ascending Envelope.seq (s.store runId) ∧
    ∀ e ∈ s.store runId, e ∈ s.emitted runId
  emitted : ∀ runId, Ascending Envelope.seq (s.emitted runId)
  bound : ∀ runId, ∀ e ∈ s.emitted runId, 0 < e.seq ∧ e.seq ≤ s.bus.globalSeq
  limits : 0 < s.bus.maxReplayBuffer ∧ 0 < s.bus.maxRuns

theorem sound_start (h : Start s) : s.Sound := by
  have hNoLog (runId : String) : s.bus.logOf runId = [] := by
    rw [EventBus.logOf, h.logs]
    rfl
  constructor
  · intro runId
    rw [hNoLog]
    exact ⟨List.Pairwise.nil, fun e he => by cases he⟩
  · intro runId
    rw [h.store]
    exact ⟨List.Pairwise.nil, fun e he => by cases he⟩
  · intro runId
    rw [h.emitted]
    exact List.Pairwise.nil
  · intro runId e he
    rw [h.emitted] at he
    cases he
  · exact ⟨h.buffer, h.runs⟩

/-- The file of a run after an append is in order and a part of the file and the events. -/
theorem appendEvents_part (maxBytes : Nat) {file events : List Envelope} (hFile : Ascending Envelope.seq file)
    (hEvents : Ascending Envelope.seq events) :
    Ascending Envelope.seq (FileStore.appendEvents maxBytes file events) ∧
      ∀ e ∈ FileStore.appendEvents maxBytes file events, e ∈ file ∨ e ∈ events := by
  have hDistinct : (events.map Envelope.seq).Nodup :=
    List.pairwise_map.mpr (hEvents.imp fun hLt => ne_of_lt hLt)
  have hMem := FileStore.mem_mergedEvents hFile hDistinct
  obtain hSame | hPart := (FileStore.limits maxBytes).writeJson_cases file
    (((FileStore.mergedEvents file events).rtake maxEventsPerRun).rtake maxEventsPerRun)
  · have hWritten : FileStore.appendEvents maxBytes file events = file := hSame
    rw [hWritten]
    exact ⟨hFile, fun _ => .inl⟩
  · have hPart : (FileStore.appendEvents maxBytes file events).Sublist
        (FileStore.mergedEvents file events) :=
      hPart.trans ((List.drop_sublist _ _).trans (List.drop_sublist _ _))
    refine ⟨(FileStore.mergedEvents_ascending file events).sublist hPart, fun e he => ?_⟩
    exact ((hMem e).mp (hPart.subset he)).imp_right And.left

theorem Sound.withBus (hs : s.Sound) {bus : EventBus} (hSeq : bus.globalSeq = s.bus.globalSeq)
    (hLimits : bus.maxReplayBuffer = s.bus.maxReplayBuffer ∧ bus.maxRuns = s.bus.maxRuns)
    (hLogs : ∀ runId, (bus.logOf runId).Sublist (s.bus.logOf runId) ∨
      bus.logOf runId = s.store runId) :
    ({ s with bus := bus } : EventServer).Sound := by
  refine ⟨fun runId => ?_, hs.store, hs.emitted,
    fun runId e he => by rw [hSeq]; exact hs.bound runId e he, ?_⟩
  rotate_left
  · rw [hLimits.1, hLimits.2]
    exact hs.limits
  obtain hPart | hStored := hLogs runId
  · obtain ⟨hAscending, hEmitted⟩ := hs.log runId
    exact ⟨hAscending.sublist hPart, fun e he => hEmitted e (hPart.subset he)⟩
  · change Ascending Envelope.seq (bus.logOf runId) ∧ ∀ e ∈ bus.logOf runId, e ∈ s.emitted runId
    rw [hStored]
    exact hs.store runId

theorem sound_reload (hs : s.Sound) (runId : String) : (s.reload runId).Sound := by
  unfold reload
  split
  · exact hs
  · refine hs.withBus rfl ⟨rfl, rfl⟩ fun id => ?_
    by_cases hSame : id = runId
    · subst hSame
      exact .inr (by rw [EventBus.logOf, OrderedMap.get_set_self, Option.getD_some])
    · refine .inl ?_
      rw [EventBus.logOf, OrderedMap.get_set_ne _ _ hSame]
      exact List.Sublist.refl _

theorem sound_step (hs : s.Sound) (h : step maxBytes s l = some t) : t.Sound := by
  cases l with
  | emits runId text =>
    obtain ⟨⟨bus, e⟩, hEmit, rfl⟩ := Option.map_eq_some_iff.mp h
    obtain ⟨hSeq, hGlobal, hOwn, hOthers⟩ := EventBus.emit_spec hEmit
    have hGrown : (bus.globalSeq : ℚ) = s.bus.globalSeq + 1 := by
      rw [hGlobal]
      push_cast
      rfl
    have hOlder {id : String} {e' : Envelope} (he' : e' ∈ s.emitted id) :
        0 < e'.seq ∧ e'.seq ≤ bus.globalSeq := by
      obtain ⟨hPositive, hBound⟩ := hs.bound id e' he'
      rw [hGrown]
      exact ⟨hPositive, by linarith⟩
    have hPush {id : String} {l : List Envelope} (hAscending : Ascending Envelope.seq l)
        (hEmitted : ∀ e' ∈ l, e' ∈ s.emitted id) : Ascending Envelope.seq (l ++ [e]) := by
      refine List.pairwise_append.mpr ⟨hAscending, List.pairwise_singleton _ _, ?_⟩
      intro e' he' last hLast
      cases List.mem_singleton.mp hLast
      have hBound := (hs.bound id e' (hEmitted e' he')).2
      rw [hSeq]
      linarith
    constructor
    · intro id
      simp only
      split
      · rename_i hSame
        subst hSame
        obtain ⟨hAscending, hEmitted⟩ := hs.log id
        refine ⟨(hPush hAscending hEmitted).sublist hOwn, fun e' he' => ?_⟩
        exact List.mem_append.mpr ((List.mem_append.mp (hOwn.subset he')).imp_left (hEmitted e'))
      · rename_i hOther
        obtain ⟨hAscending, hEmitted⟩ := hs.log id
        have hPart := hOthers id hOther
        exact ⟨hAscending.sublist hPart, fun e' he' => hEmitted e' (hPart.subset he')⟩
    · intro id
      obtain ⟨hAscending, hEmitted⟩ := hs.store id
      refine ⟨hAscending, fun e' he' => ?_⟩
      simp only
      split
      · exact List.mem_append_left _ (hEmitted e' he')
      · exact hEmitted e' he'
    · intro id
      simp only
      split
      · exact hPush (hs.emitted id) fun _ he' => he'
      · exact hs.emitted id
    · intro id e' he'
      simp only at he'
      split at he'
      · obtain hOld | hNew := List.mem_append.mp he'
        · exact hOlder hOld
        · cases List.mem_singleton.mp hNew
          rw [hSeq, hGrown]
          exact ⟨by positivity, le_rfl⟩
      · exact hOlder he'
    · obtain ⟨hBuffer, hRuns⟩ := EventBus.emit_limits hEmit
      rw [hBuffer, hRuns]
      exact hs.limits
  | subscribes runId | unsubscribes runId =>
    cases h
    exact hs.withBus rfl ⟨rfl, rfl⟩ fun id => .inl (List.Sublist.refl _)
  | clears runId =>
    cases h
    refine hs.withBus rfl ⟨rfl, rfl⟩ fun id => .inl ?_
    simp only [EventBus.clearRun, EventBus.logOf, OrderedMap.get_delete]
    split
    · exact List.nil_sublist _
    · exact List.Sublist.refl _
  | persists runId =>
    cases h
    refine ⟨hs.log, fun id => ?_, hs.emitted, hs.bound, hs.limits⟩
    simp only
    split
    · obtain ⟨hAscending, hPart⟩ := appendEvents_part maxBytes (hs.store id).1 (hs.log id).1
      exact ⟨hAscending, fun e he => (hPart e he).elim ((hs.store id).2 e) ((hs.log id).2 e)⟩
    · exact hs.store id
  | serves runId since =>
    cases h
    have hReloaded := sound_reload hs runId
    unfold serveRunEvents
    simp only
    split
    · exact hReloaded
    · exact hReloaded

end EventServer

end OrchestraAI.Persistence
