import OrchestraAI.Persistence.Replay

/-! # Events that a replay loses

The three reads of a run's events, and the emits, prunings, clears and appends after which an
event that was emitted is no longer where a read looks. A client that has seen nothing is never
told of a gap, so that every such loss is silent for it.
-/

namespace OrchestraAI.Persistence

open LabelledSystem NewestWindow

namespace EventBus

variable {bus : EventBus}

/-- The runs whose logs go when a run gets its first: the oldest ones, as many as are too many, up to
the first with subscribers. -/
def pruned (bus : EventBus) (runId : String) : List String :=
  if bus.eventLogs.has runId then []
  else
    (bus.eventLogs.keys.take (bus.eventLogs.size + 1 - bus.maxRuns)).takeWhile
      fun id => id ∉ bus.subscribed

end EventBus

namespace EventServer

def Complete (emitted : List Envelope) (since : Nat) (events : List Envelope) : Prop :=
  (∀ e ∈ emitted, since < e.seq → e ∈ events) ∧ Ascending Envelope.seq events

def NoSilentLoss (emitted : List Envelope) (since : Nat) (a : Answer) : Prop :=
  Complete emitted since a.events ∨ a.gap = true

def Reached (emitted : List Envelope) (since : Nat) : Prop :=
  since = 0 ∨ ∃ e ∈ emitted, e.seq = since

inductive Read
  | bus
  | served
  | durable
  deriving DecidableEq

variable {maxBytes : Nat} {read : Read} {s t : EventServer}

def answer (s : EventServer) (runId : String) (since : Nat) : Read → Answer
  | .bus => s.bus.getEventsSinceWithGap runId since
  | .served => (s.serveRunEvents runId since).2.getD notFound
  | .durable => s.readDurableSince runId since

def Answered (read : Read) (s : EventServer) : Prop :=
  ∀ runId since, Reached (s.emitted runId) since →
    NoSilentLoss (s.emitted runId) since (s.answer runId since read)

def Backed (s : EventServer) (runId : String) (e : Envelope) : Read → Prop
  | .bus => False
  | .served | .durable => e ∈ s.store runId

def Spared (s : EventServer) (runId : String) (e : Envelope) : Read → Prop
  | .bus => True
  | .served => s.bus.eventLogs.has runId = true
  | .durable => e ∈ s.bus.logOf runId

/-- A step loses nothing that the read needs. An emit that finds the log of its run full drops the
oldest event, and only `readDurableSince` looks further, into the file; the logs that it prunes have
to be in the files, as has one that is cleared; an emit for a run whose log has gone hides the file
from `serveRunEvents`. An append keeps what was in the file or is still in the log. -/
def Keeps (maxBytes : Nat) (read : Read) (s : EventServer) : Label → Prop
  | .emits runId _ =>
    (s.bus.maxReplayBuffer ≤ (s.bus.logOf runId).length →
        ∀ oldest ∈ (s.bus.logOf runId).head?, read = .durable ∧ oldest ∈ s.store runId) ∧
      (∀ other ∈ s.bus.pruned runId, ∀ e ∈ s.bus.logOf other, s.Backed other e read) ∧
      (read = .served → s.bus.eventLogs.has runId = false → s.emitted runId = [])
  | .clears runId => ∀ e ∈ s.bus.logOf runId, s.Backed runId e read
  | .persists runId => ∀ e ∈ s.store runId, s.Spared runId e read ∨
      e ∈ FileStore.appendEvents maxBytes (s.store runId) (s.bus.logOf runId)
  | .subscribes _ | .unsubscribes _ | .serves _ _ => True

def Found (log : Option (List Envelope)) (file : List Envelope) (e : Envelope) : Read → Prop
  | .bus => e ∈ log.getD []
  | .served => e ∈ log.getD file
  | .durable => e ∈ file ∨ e ∈ log.getD []

def Whole (read : Read) (s : EventServer) : Prop :=
  ∀ runId, ∀ e ∈ s.emitted runId, Found (s.bus.eventLogs.get runId) (s.store runId) e read

def window (s : EventServer) (runId : String) : Read → List Envelope
  | .bus => s.bus.logOf runId
  | .served => (s.bus.eventLogs.get runId).getD (s.store runId)
  | .durable => dedupeBySeq (s.store runId ++ (s.bus.getEventsSinceWithGap runId 0).events)

theorem serveRunEvents_answer (s : EventServer) (runId : String) (since : Nat) :
    (s.serveRunEvents runId since).2.getD notFound = answerFrom (s.window runId .served) since := by
  unfold serveRunEvents window reload
  cases hGet : s.bus.eventLogs.get runId with
  | some log =>
    simp only [OrderedMap.has, hGet, Option.isSome_some, Bool.true_or, if_true,
      EventBus.getEventsSinceWithGap, EventBus.logOf, Option.getD_some]
  | none =>
    cases hStore : s.store runId with
    | nil =>
      simp only [OrderedMap.has, hGet, Option.isSome_none, List.isEmpty_nil, Bool.or_true, if_true,
        Bool.false_eq_true, if_false, Option.getD_none]
      rfl
    | cons e stored =>
      simp [OrderedMap.has, EventBus.getEventsSinceWithGap, EventBus.logOf, hGet]

theorem answer_eq (s : EventServer) (runId : String) (since : Nat) (read : Read) :
    s.answer runId since read = answerFrom (s.window runId read) since := by
  cases read with
  | bus => rfl
  | served => exact serveRunEvents_answer s runId since
  | durable => rfl

namespace Sound

variable (hs : s.Sound)
include hs

theorem same {runId : String} {e e' : Envelope} (he : e ∈ s.emitted runId)
    (he' : e' ∈ s.emitted runId) (hSeq : e'.seq = e.seq) : e' = e :=
  (hs.emitted runId).eq_of_key he' he hSeq

theorem log_emitted {runId : String} {e : Envelope} (he : e ∈ s.bus.logOf runId) :
    e ∈ s.emitted runId := (hs.log runId).2 e he

theorem mem_events {runId : String} {e : Envelope} :
    e ∈ (s.bus.getEventsSinceWithGap runId 0).events ↔ e ∈ s.bus.logOf runId := by
  unfold EventBus.getEventsSinceWithGap answerFrom
  cases hLog : s.bus.logOf runId with
  | nil => exact Iff.rfl
  | cons oldest rest =>
    refine List.mem_filter.trans (and_iff_left_of_imp fun he => decide_eq_true ?_)
    rw [← hLog] at he
    exact_mod_cast (hs.bound runId e (hs.log_emitted he)).1

theorem mem_window {runId : String} {e : Envelope} :
    e ∈ s.window runId read ↔ Found (s.bus.eventLogs.get runId) (s.store runId) e read := by
  cases read with
  | bus => exact Iff.rfl
  | served => exact Iff.rfl
  | durable =>
    have hOf {e : Envelope}
        (he : e ∈ s.store runId ++ (s.bus.getEventsSinceWithGap runId 0).events) :
        e ∈ s.emitted runId := by
      obtain hStored | hLive := List.mem_append.mp he
      · exact (hs.store runId).2 e hStored
      · exact hs.log_emitted (hs.mem_events.mp hLive)
    unfold window
    rw [mem_dedupeBySeq fun e he e' he' => hs.same (hOf he) (hOf he'), List.mem_append,
      hs.mem_events]
    rfl

theorem window_ascending (runId : String) : Ascending Envelope.seq (s.window runId read) := by
  cases read with
  | bus => exact (hs.log runId).1
  | served =>
    have hLog := (hs.log runId).1
    unfold window
    unfold EventBus.logOf at hLog
    cases hGet : s.bus.eventLogs.get runId with
    | none => exact (hs.store runId).1
    | some log => rwa [hGet] at hLog
  | durable => exact dedupeBySeq_ascending _

/-- No read loses an event silently just if every event is where it looks: a client that has seen
nothing is told of no gap. -/
theorem answered_iff : Answered read s ↔ Whole read s := by
  constructor
  · intro h runId e he
    have hFirst := h runId 0 (.inl rfl)
    have hPositive := (hs.bound runId e he).1
    rw [answer_eq] at hFirst
    rw [← hs.mem_window]
    cases hWindow : s.window runId read with
    | nil =>
      rw [hWindow] at hFirst
      obtain ⟨hAll, -⟩ | hGap := hFirst
      · exact hAll e he (by exact_mod_cast hPositive)
      · cases hGap
    | cons oldest rest =>
      rw [hWindow] at hFirst
      obtain ⟨hAll, -⟩ | hGap := hFirst
      · exact (List.mem_filter.mp (hAll e he (by exact_mod_cast hPositive))).1
      · simp [answerFrom] at hGap
  · intro h runId since _
    have hAll (e : Envelope) (he : e ∈ s.emitted runId) : e ∈ s.window runId read :=
      hs.mem_window.mpr (h runId e he)
    have hOrder : Ascending Envelope.seq (s.window runId read) := hs.window_ascending runId
    rw [answer_eq]
    left
    unfold answerFrom
    cases hWindow : s.window runId read with
    | nil =>
      rw [hWindow] at hAll
      exact ⟨fun e he _ => hAll e he, List.Pairwise.nil⟩
    | cons oldest rest =>
      rw [hWindow] at hAll hOrder
      exact ⟨fun e he hNew => List.mem_filter.mpr ⟨hAll e he, decide_eq_true hNew⟩,
        hOrder.sublist List.filter_sublist⟩

end Sound

def idle (maxRuns : Nat) : EventServer :=
  ⟨⟨500, maxRuns, .empty, .empty, 0, []⟩, fun _ => [], fun _ => []⟩

instance (s : EventServer) (runId : String) (e : Envelope) : (read : Read) →
    Decidable (s.Backed runId e read)
  | .bus => inferInstanceAs (Decidable False)
  | .served | .durable => inferInstanceAs (Decidable (e ∈ s.store runId))

instance (s : EventServer) (runId : String) (e : Envelope) : (read : Read) →
    Decidable (s.Spared runId e read)
  | .bus => inferInstanceAs (Decidable True)
  | .served => inferInstanceAs (Decidable (s.bus.eventLogs.has runId = true))
  | .durable => inferInstanceAs (Decidable (e ∈ s.bus.logOf runId))

instance (maxBytes : Nat) (read : Read) (s : EventServer) :
    (l : Label) → Decidable (Keeps maxBytes read s l)
  | .emits _ _ => inferInstanceAs (Decidable (_ ∧ _ ∧ _))
  | .clears _ => inferInstanceAs (Decidable (∀ _ ∈ _, _))
  | .persists _ => inferInstanceAs (Decidable (∀ _ ∈ _, _))
  | .subscribes _ | .unsubscribes _ | .serves _ _ => inferInstanceAs (Decidable True)

end EventServer

end OrchestraAI.Persistence
