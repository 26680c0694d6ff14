import OrchestraAI.Library.LabelledSystem
import OrchestraAI.Library.WorkBag
import OrchestraAI.Queue.Job

/-! # The memory provider

`MemoryJobQueue` with the asynchronous work it leaves behind: handlers that have
not settled, slots whose `finally` is still to run, retry timers, calls of
`enqueueAndClaim` and `close` between their awaits. A label is one turn of the
event loop. `_drain` never awaits, so `_draining` is never seen set.
-/

namespace OrchestraAI.Queue

open WorkBag

structure CloseOptions where
  drain : Bool := true
  graceMs : Nat := 10000
  rejectWaiters : Bool := true
  deriving DecidableEq, Repr

/-- A retry timer of `_drain`: the attempt's error settles the job if the queue closes first. -/
structure Backoff where
  job : Job
  err : JobError
  deriving DecidableEq, Repr

/-- A `close({ drain: true })` in its waiting loop. -/
structure Closing where
  deadline : Nat
  rejectWaiters : Bool
  deriving DecidableEq, Repr

structure MemoryJobQueue where
  base : BaseJobQueue
  pending : List Job
  invoked : List Job
  finishing : List JobId
  backoff : List Backoff
  claiming : List JobId
  claimOpen : List JobId
  closing : List Closing
  -- What has happened so far, for the statements only.
  accepted : List Job
  lateAccepted : List JobId
  attempts : List (JobId × Outcome)
  completed : List JobId
  failedJobs : List JobId
  dropped : List JobId
  closeReturns : Nat

namespace MemoryJobQueue

def create (concurrency : Nat) : MemoryJobQueue where
  base := .create concurrency
  pending := []
  invoked := []
  finishing := []
  backoff := []
  claiming := []
  claimOpen := []
  closing := []
  accepted := []
  lateAccepted := []
  attempts := []
  completed := []
  failedJobs := []
  dropped := []
  closeReturns := 0

variable (s : MemoryJobQueue)

def push (job : Job) (base : BaseJobQueue) : MemoryJobQueue :=
  { s with
    base := base
    pending := s.pending ++ [job]
    accepted := s.accepted ++ [job]
    lateAccepted := if s.base.closed then s.lateAccepted ++ [job.id] else s.lateAccepted }

def enqueue (opts : EnqueueOptions) (id : JobId) (now : Nat) : MemoryJobQueue :=
  match s.base.normalizeEnqueue opts id now with
  | (.job job, base) => s.push job base
  | (_, base) => { s with base := base }

def enqueueAndWait (opts : EnqueueOptions) (id : JobId) (now : Nat) : MemoryJobQueue :=
  match s.base.normalizeEnqueue opts id now with
  | (.job job, base) =>
    s.push job { base with waiters := base.waiters.set job.id .enqueueAndWait }
  | (_, base) => { s with base := base }

def enqueueAndClaim (opts : EnqueueOptions) (id : JobId) (now : Nat) : MemoryJobQueue :=
  match s.base.normalizeEnqueue opts id now with
  | (.job job, base) => { s.push job base with claiming := s.claiming ++ [job.id] }
  | (_, base) => { s with base := base }

def noHandlerError (job : Job) : JobError :=
  ⟨"no_handler", "no handler for job type \"" ++ job.type ++ "\""⟩

def settleSuccess (job : Job) (result : String) (now : Nat) : MemoryJobQueue :=
  { s with
    base := s.base.afterSuccess job result now
    attempts := (job.id, .success result) :: s.attempts
    completed := s.completed ++ [job.id] }

def settleFailure (job : Job) (err : JobError) (base : BaseJobQueue) : MemoryJobQueue :=
  { s with
    base := base
    attempts := (job.id, .failure err) :: s.attempts
    failedJobs := s.failedJobs ++ [job.id] }

/-- One turn of the loop of `_drain`; `none` when the loop ends. -/
def dispatch (now : Nat) : Option MemoryJobQueue :=
  match s.pending with
  | [] => none
  | job :: rest =>
    if s.base.closed = true ∨ ¬ s.base.running < s.base.concurrency then none
    else if s.base.handlers.contains job.type then
      some { s with
        pending := rest
        base := { s.base with running := s.base.running + 1 }.notifyClaim job.id
        invoked := s.invoked ++ [job] }
    else
      some ({ s with pending := rest }.settleFailure job (noHandlerError job)
        (s.base.failTerminally job (noHandlerError job) now))

def drainLoop (now : Nat) : Nat → MemoryJobQueue → MemoryJobQueue
  | 0, s => s
  | fuel + 1, s => match s.dispatch now with
    | none => s
    | some t => drainLoop now fuel t

/-- `_drain`: each turn takes one job off `pending`. -/
def drain (now : Nat) : MemoryJobQueue := drainLoop now s.pending.length s

def handlerSucceeded (k : Nat) (result : String) (now : Nat) : Option MemoryJobQueue :=
  (s.invoked[k]?).map fun job =>
    { s with
      invoked := serve s.invoked k []
      finishing := s.finishing ++ [job.id] }.settleSuccess job result now

/-- The rejection path, timeouts included; the retry timer starts inside `_afterFailure`. -/
def handlerFailed (k : Nat) (err : JobError) (now : Nat) : Option MemoryJobQueue :=
  (s.invoked[k]?).map fun job =>
    let s' : MemoryJobQueue :=
      { s with invoked := serve s.invoked k [], finishing := s.finishing ++ [job.id] }
    match s.base.afterFailure job err now with
    | (base, some attempted) =>
      { s' with
        base := base
        attempts := (job.id, .failure err) :: s.attempts
        backoff := s.backoff ++ [⟨attempted, err⟩] }
    | (base, none) => s'.settleFailure job err base

def slotReleased (k : Nat) : Option MemoryJobQueue :=
  (s.finishing[k]?).map fun _ =>
    { s with
      base := { s.base with running := s.base.running - 1 }
      finishing := serve s.finishing k [] }

def backoffElapsed (k : Nat) (now : Nat) : Option MemoryJobQueue :=
  (s.backoff[k]?).map fun b =>
    let s' : MemoryJobQueue := { s with backoff := serve s.backoff k [] }
    if s.base.closed then
      { s' with
        base := s.base.failTerminally b.job b.err now
        failedJobs := s.failedJobs ++ [b.job.id] }
    else { s' with pending := s.pending ++ [b.job] }

def claimRegistered (k : Nat) : Option MemoryJobQueue :=
  (s.claiming[k]?).map fun id =>
    { s with
      base := s.base.registerClaim id
      claiming := serve s.claiming k []
      claimOpen := s.claimOpen ++ [id] }

/-- The `finally` of `enqueueAndClaim`, however its race ended. -/
def claimReturned (k : Nat) : Option MemoryJobQueue :=
  (s.claimOpen[k]?).map fun id =>
    { s with
      base := { s.base with claimWaiters := s.base.claimWaiters.delete id }
      claimOpen := serve s.claimOpen k [] }

/-- The timer of `enqueueAndWait`: its race is rejected and the waiter is forgotten. -/
def waitTimedOut (id : JobId) : Option MemoryJobQueue :=
  if s.base.waiters.get id = some .enqueueAndWait then
    some { s with base := { s.base with waiters := s.base.waiters.delete id } }
  else none

def closeCalled (opts : CloseOptions) (now : Nat) : MemoryJobQueue :=
  let s := { s with base := { s.base with closed := true } }
  if opts.drain then { s with closing := s.closing ++ [⟨now + opts.graceMs, opts.rejectWaiters⟩] }
  else
    { s with
      pending := []
      dropped := s.dropped ++ s.pending.map Job.id
      closeReturns := s.closeReturns + 1 }

/-- The rest of `close`, once no handler runs or the grace period is over. -/
def closeReturned (k : Nat) (now : Nat) : Option MemoryJobQueue :=
  (s.closing[k]?).bind fun c =>
    if 0 < s.base.running ∧ now < c.deadline then none
    else
      let base := if c.rejectWaiters then s.base.rejectAllWaiters else s.base
      some { s with
        base := { base with inflightKeys := .empty }
        closing := serve s.closing k []
        pending := []
        dropped := s.dropped ++ s.pending.map Job.id
        closeReturns := s.closeReturns + 1 }

end MemoryJobQueue

inductive MemoryLabel
  | on (type : String)
  | enqueue (opts : EnqueueOptions) (id : JobId) (now : Nat)
  | enqueueAndWait (opts : EnqueueOptions) (id : JobId) (now : Nat)
  | enqueueAndClaim (opts : EnqueueOptions) (id : JobId) (now : Nat)
  | claimRegistered (k : Nat)
  | claimReturned (k : Nat)
  | waitTimedOut (id : JobId)
  | dispatch (now : Nat)
  | handlerSucceeded (k : Nat) (result : String) (now : Nat)
  | handlerFailed (k : Nat) (err : JobError) (now : Nat)
  | slotReleased (k : Nat)
  | backoffElapsed (k : Nat) (now : Nat)
  | closeCalled (opts : CloseOptions) (now : Nat)
  | closeReturned (k : Nat) (now : Nat)
  deriving DecidableEq

namespace MemoryJobQueue

/-- `newJobId` draws an id that no job has had. -/
def Fresh (s : MemoryJobQueue) (id : JobId) : Prop := id ∉ s.accepted.map Job.id

instance (s : MemoryJobQueue) (id : JobId) : Decidable (s.Fresh id) :=
  inferInstanceAs (Decidable (_ ∉ _))

def step (s : MemoryJobQueue) : MemoryLabel → Option MemoryJobQueue
  | .on type => some { s with base := s.base.on type }
  | .enqueue opts id now => if s.Fresh id then some (s.enqueue opts id now) else none
  | .enqueueAndWait opts id now =>
    if s.Fresh id then some (s.enqueueAndWait opts id now) else none
  | .enqueueAndClaim opts id now =>
    if s.Fresh id then some (s.enqueueAndClaim opts id now) else none
  | .claimRegistered k => s.claimRegistered k
  | .claimReturned k => s.claimReturned k
  | .waitTimedOut id => s.waitTimedOut id
  | .dispatch now => s.dispatch now
  | .handlerSucceeded k result now => s.handlerSucceeded k result now
  | .handlerFailed k err now => s.handlerFailed k err now
  | .slotReleased k => s.slotReleased k
  | .backoffElapsed k now => s.backoffElapsed k now
  | .closeCalled opts now => some (s.closeCalled opts now)
  | .closeReturned k now => s.closeReturned k now

def Start (s : MemoryJobQueue) : Prop := ∃ concurrency, s = create concurrency

theorem drainLoop_reach {ok : MemoryJobQueue → MemoryLabel → Prop} (now : Nat)
    (hok : ∀ s, ok s (.dispatch now)) (fuel : Nat) {s : MemoryJobQueue}
    (h : LabelledSystem.Reach step ok Start s) :
    LabelledSystem.Reach step ok Start (drainLoop now fuel s) := by
  induction fuel generalizing s with
  | zero => exact h
  | succ fuel ih =>
    rw [drainLoop]
    split
    · exact h
    · rename_i t ht
      exact ih (h.next (hok s) (show step s (.dispatch now) = some t from ht))

/-- A whole `_drain` is a run of single turns. -/
theorem drain_reach {ok : MemoryJobQueue → MemoryLabel → Prop} (now : Nat)
    (hok : ∀ s, ok s (.dispatch now)) {s : MemoryJobQueue}
    (h : LabelledSystem.Reach step ok Start s) :
    LabelledSystem.Reach step ok Start (s.drain now) :=
  drainLoop_reach now hok _ h

end MemoryJobQueue

end OrchestraAI.Queue
