import OrchestraAI.Library.JsonText
import OrchestraAI.Library.LabelledSystem

/-! # The event stream of the page

The reducer of `state/store.tsx` and the hook `useEventStream` for one run, with a server that keeps
an ordered log. Of a snapshot the model has what has been applied to it, in order: texts by their
characters, other events whole. The fields in which the page shows it are left out.
-/

namespace OrchestraAI.Frontend

variable {ε : Type}

inductive Payload (ε : Type)
  | delta (text : Text)
  | other (event : ε)

def Payload.shows : Payload ε → List (Char ⊕ ε)
  | .delta text => text.map .inl
  | .other event => [.inr event]

structure Envelope (ε : Type) where
  runId : String
  seq : Nat
  payload : Payload ε
  /-- The events that it stands for, which the program does not keep: several for a coalesced
  delta. -/
  carries : List Nat

structure RuntimeSnapshot (ε : Type) where
  runId : String
  lastSeq : Nat
  shown : List (Char ⊕ ε)
  /-- The events that it reflects, which the program does not keep. -/
  reflects : List Nat

def applyEventToSnapshot (snap : RuntimeSnapshot ε) (env : Envelope ε) : RuntimeSnapshot ε :=
  { snap with
    lastSeq := max snap.lastSeq env.seq
    shown := snap.shown ++ env.payload.shows
    reflects := snap.reflects ++ env.carries }

/-- The snapshot of the store and its cursor, `conn.lastSeq`. -/
structure Store (ε : Type) where
  snapshot : Option (RuntimeSnapshot ε)
  lastSeq : Nat

inductive Action (ε : Type)
  | snapSet (snap : RuntimeSnapshot ε)
  | eventApply (env : Envelope ε)

def reducer (s : Store ε) : Action ε → Store ε
  | .snapSet snap => ⟨some snap, snap.lastSeq⟩
  | .eventApply env =>
    match s.snapshot with
    | none => s
    | some snap =>
      if env.runId ≠ snap.runId then s
      else if env.seq ≤ s.lastSeq then s
      else ⟨some (applyEventToSnapshot snap env), env.seq⟩

structure Hook (ε : Type) where
  lastSeqRef : Nat
  bufferedDelta : Text
  bufferedDeltaEnv : Option (Envelope ε)
  resyncing : Bool

def Hook.flushDelta (h : Hook ε) : Hook ε × List (Action ε) :=
  match h.bufferedDeltaEnv with
  | none => (h, [])
  | some env =>
    ({ h with bufferedDelta := [], bufferedDeltaEnv := none },
      [.eventApply { env with payload := .delta h.bufferedDelta }])

def Hook.carried (h : Hook ε) : List Nat := h.bufferedDeltaEnv.elim [] Envelope.carries

/-- `apply`. -/
def Hook.receive (h : Hook ε) (env : Envelope ε) : Hook ε × List (Action ε) :=
  match env.payload with
  | .delta text =>
    ({ h with
      bufferedDelta := h.bufferedDelta ++ text
      bufferedDeltaEnv := some { env with carries := h.carried ++ env.carries } }, [])
  | .other _ => (h.flushDelta.1, h.flushDelta.2 ++ [.eventApply env])

/-- Who asks for a snapshot: the page when it opens the run, or `resyncSnapshot`. -/
inductive Source
  | load
  | resync
  deriving DecidableEq

structure Session (ε : Type) where
  /-- The events of the run; the first has the number one. -/
  log : List (Payload ε)
  /-- How many events the open stream has passed. -/
  stream : Option Nat
  /-- The stream begins with a gap frame that is not read yet. -/
  gap : Bool
  asked : List Source
  /-- The answers of the server on their way. -/
  answers : List (Source × RuntimeSnapshot ε)
  hook : Hook ε
  store : Store ε

inductive Label (ε : Type)
  /-- The server appends an event. -/
  | emit (payload : Payload ε)
  /-- A stream is opened that begins after so many events. -/
  | connect (start : Nat)
  | deliver
  /-- An event that the stream has passed is delivered again. -/
  | again (i : Nat)
  | gapFrame
  /-- The timer of the buffer. -/
  | flush
  | fail
  /-- The effect that follows the cursor. -/
  | sync
  /-- The server answers a request. -/
  | answer (i : Nat)
  | arrive (i : Nat)
  /-- A request fails. -/
  | lose (i : Nat)

variable (runId : String)

def envelope (i : Nat) (payload : Payload ε) : Envelope ε := ⟨runId, i + 1, payload, [i + 1]⟩

def takeSnapshot (log : List (Payload ε)) : RuntimeSnapshot ε where
  runId := runId
  lastSeq := log.length
  shown := log.flatMap Payload.shows
  reflects := List.range' 1 log.length

def Hook.settled (h : Hook ε) : Source → Hook ε
  | .load => h
  | .resync => { h with resyncing := false }

def react (s : Session ε) : Label ε → Option (Session ε × List (Action ε))
  | .emit payload => some ({ s with log := s.log ++ [payload] }, [])
  | .connect start =>
    if s.stream = none ∧ min s.hook.lastSeqRef s.log.length ≤ start ∧ start ≤ s.log.length then
      some ({ s with stream := some start, gap := s.hook.lastSeqRef < start }, [])
    else none
  | .deliver =>
    match s.stream, s.gap with
    | some i, false =>
      (s.log[i]?).map fun payload =>
        ({ s with stream := some (i + 1), hook := (s.hook.receive (envelope runId i payload)).1 },
          (s.hook.receive (envelope runId i payload)).2)
    | _, _ => none
  | .again i =>
    match s.stream with
    | some n =>
      if i < n then
        (s.log[i]?).map fun payload =>
          ({ s with hook := (s.hook.receive (envelope runId i payload)).1 },
            (s.hook.receive (envelope runId i payload)).2)
      else none
    | none => none
  | .gapFrame =>
    if s.stream ≠ none ∧ s.gap = true then
      if s.hook.resyncing then some ({ s with gap := false }, [])
      else
        some ({ s with
          gap := false
          hook := { s.hook with resyncing := true }
          asked := s.asked ++ [.resync] }, [])
    else none
  | .flush => some ({ s with hook := s.hook.flushDelta.1 }, s.hook.flushDelta.2)
  | .fail => some ({ s with stream := none, gap := false }, [])
  | .sync => some ({ s with hook := { s.hook with lastSeqRef := s.store.lastSeq } }, [])
  | .answer i =>
    (s.asked[i]?).map fun source =>
      ({ s with
        asked := s.asked.eraseIdx i
        answers := s.answers ++ [(source, takeSnapshot runId s.log)] }, [])
  | .arrive i =>
    (s.answers[i]?).map fun answer =>
      let hook :=
        match answer.1 with
        | .load => s.hook
        | .resync => { s.hook with lastSeqRef := answer.2.lastSeq }
      ({ s with answers := s.answers.eraseIdx i, hook := hook.settled answer.1 },
        [.snapSet answer.2])
  | .lose i =>
    (s.asked[i]?).map fun source =>
      ({ s with asked := s.asked.eraseIdx i, hook := s.hook.settled source }, [])

def step (s : Session ε) (l : Label ε) : Option (Session ε) :=
  (react runId s l).map fun r => { r.1 with store := r.2.foldl reducer s.store }

/-- The run has been opened: the page has asked for its snapshot, and its store may still hold the
snapshot of another run. -/
structure Opened (s : Session ε) : Prop where
  stream : s.stream = none
  asked : s.asked = [.load]
  answers : s.answers = []
  buffer : s.hook.bufferedDeltaEnv = none
  text : s.hook.bufferedDelta = []
  store : ∀ snap ∈ s.store.snapshot, snap.runId ≠ runId

end OrchestraAI.Frontend
