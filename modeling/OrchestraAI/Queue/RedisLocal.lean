import OrchestraAI.Library.LabelledSystem
import OrchestraAI.Library.WorkBag
import OrchestraAI.Queue.Memory

/-! # The Redis provider without Redis

`RedisJobQueue` when no client is attached: the list and the processing table are
local. Its `_drain` awaits between taking a job and invoking it, so a job can be
held by the loop alone. All holders of a job share one object, which is why the
attempt counter is a table of its own here.
-/

namespace OrchestraAI.Queue

open WorkBag

structure LocalRecord where
  job : Job
  deadline : Nat
  leaseToken : Nat
  deriving DecidableEq, Repr

/-- Where the loop of `_drain` awaits. -/
inductive DrainPoint
  | idle
  | popped (job : Job)
  | claimed (job : Job) (leaseToken : Nat)
  | unhandled (job : Job)
  | ending
  deriving DecidableEq, Repr

def DrainPoint.job : DrainPoint → List Job
  | .popped job => [job]
  | .claimed job _ => [job]
  | .unhandled job => [job]
  | .idle => []
  | .ending => []

/-- An invoked handler; `outcome` is set while its continuation awaits `_release`. -/
structure LocalTask where
  job : Job
  leaseToken : Nat
  outcome : Option Outcome
  deriving DecidableEq, Repr

structure RedisLocalQueue where
  base : BaseJobQueue
  visibilityMs : Nat
  pending : List Job
  localProcessing : OrderedMap JobId LocalRecord
  attempts : OrderedMap JobId Nat
  drain : DrainPoint
  tasks : List LocalTask
  finishing : List JobId
  retryTimers : List Backoff
  reclaimTimers : List Job
  claiming : List JobId
  claimOpen : List JobId
  closing : List Closing
  -- What has happened so far, for the statements only.
  accepted : List Job
  lateAccepted : List JobId
  completed : List JobId
  failedJobs : List JobId
  dropped : List JobId
  closeReturns : Nat

namespace RedisLocalQueue

def create (concurrency visibilityMs : Nat) : RedisLocalQueue where
  base := .create concurrency
  visibilityMs := Nat.max 5000 visibilityMs
  pending := []
  localProcessing := .empty
  attempts := .empty
  drain := .idle
  tasks := []
  finishing := []
  retryTimers := []
  reclaimTimers := []
  claiming := []
  claimOpen := []
  closing := []
  accepted := []
  lateAccepted := []
  completed := []
  failedJobs := []
  dropped := []
  closeReturns := 0

variable (s : RedisLocalQueue)

def attemptsOf (id : JobId) : Nat := (s.attempts.get id).getD 0

def current (job : Job) : Job := { job with attempts := s.attemptsOf job.id }

def accept (job : Job) (base : BaseJobQueue) : RedisLocalQueue :=
  { s with
    base := base
    pending := s.pending ++ [job]
    accepted := s.accepted ++ [job]
    lateAccepted := if s.base.closed then s.lateAccepted ++ [job.id] else s.lateAccepted }

/-- `_push` appends to the local list in the turn of its caller. -/
def enqueue (opts : EnqueueOptions) (id : JobId) (now : Nat) : RedisLocalQueue :=
  match s.base.normalizeEnqueue opts id now with
  | (.job job, base) => s.accept job base
  | (_, base) => { s with base := base }

def enqueueAndWait (opts : EnqueueOptions) (id : JobId) (now : Nat) : RedisLocalQueue :=
  match s.base.normalizeEnqueue opts id now with
  | (.job job, base) =>
    s.accept job { base with waiters := base.waiters.set job.id .enqueueAndWait }
  | (_, base) => { s with base := base }

def enqueueAndClaim (opts : EnqueueOptions) (id : JobId) (now : Nat) : RedisLocalQueue :=
  match s.base.normalizeEnqueue opts id now with
  | (.job job, base) => { s.accept job base with claiming := s.claiming ++ [job.id] }
  | (_, base) => { s with base := base }

/-- `_release`, local branch: only the holder of the lease deletes the record. -/
def release (job : Job) (leaseToken : Nat) : OrderedMap JobId LocalRecord :=
  match s.localProcessing.get job.id with
  | none => s.localProcessing
  | some record =>
    if record.leaseToken = leaseToken then s.localProcessing.delete job.id
    else s.localProcessing

def failJob (job : Job) (err : JobError) (now : Nat) : RedisLocalQueue :=
  { s with
    base := s.base.failTerminally job err now
    failedJobs := s.failedJobs ++ [job.id] }

/-- The head of the loop of `_drain`, up to the await inside `_claimNext`. -/
def drainNext : RedisLocalQueue :=
  if s.base.running < s.base.concurrency then
    match s.pending with
    | [] => { s with drain := .ending }
    | job :: rest => { s with pending := rest, drain := .popped job }
  else { s with drain := .idle }

/-- `closed` and `_draining` are read here and nowhere later in the loop. -/
def drainStarts : Option RedisLocalQueue :=
  if s.base.closed = false ∧ s.drain = .idle then some s.drainNext else none

def handlerTimeout (job : Job) : Nat :=
  Nat.max 1000 (if job.timeoutMs = 0 then DEFAULT_TIMEOUT_MS else job.timeoutMs)

def leaseDuration (job : Job) : Nat := Nat.max s.visibilityMs (handlerTimeout job + 5000)

def drainContinues (leaseToken now : Nat) : Option RedisLocalQueue :=
  match s.drain with
  | .idle => none
  | .ending => some { s with drain := .idle }
  | .popped job =>
    some { s with
      localProcessing :=
        s.localProcessing.set job.id ⟨job, now + s.leaseDuration job, leaseToken⟩
      drain := .claimed job leaseToken }
  | .claimed job token =>
    if s.base.handlers.contains job.type then
      some ({ s with
        base := { s.base with running := s.base.running + 1 }.notifyClaim job.id
        tasks := s.tasks ++ [⟨job, token, none⟩] } : RedisLocalQueue).drainNext
    else
      some { s with localProcessing := s.release job token, drain := .unhandled job }
  | .unhandled job => some (s.failJob job (MemoryJobQueue.noHandlerError job) now).drainNext

/-- The timer of `_startLeaseRenewal` on a handler that still runs. -/
def renew (k now : Nat) : Option RedisLocalQueue :=
  (s.tasks[k]?).bind fun task =>
    match task.outcome, s.localProcessing.get task.job.id with
    | none, some record =>
      let renewed := { record with deadline := now + s.leaseDuration task.job }
      if record.leaseToken = task.leaseToken then
        some { s with localProcessing := s.localProcessing.set task.job.id renewed }
      else none
    | _, _ => none

/-- The handler settles; its continuation stops the renewal and calls `_release`. -/
def handlerSettled (k : Nat) (outcome : Outcome) : Option RedisLocalQueue :=
  (s.tasks[k]?).bind fun task =>
    if task.outcome = none then
      some { s with
        localProcessing := s.release task.job task.leaseToken
        tasks := serve s.tasks k [{ task with outcome := some outcome }] }
    else none

def taskContinues (k now : Nat) : Option RedisLocalQueue :=
  (s.tasks[k]?).bind fun task =>
    let job := s.current task.job
    let s' : RedisLocalQueue :=
      { s with tasks := serve s.tasks k [], finishing := s.finishing ++ [job.id] }
    match task.outcome with
    | none => none
    | some (.success result) =>
      some { s' with
        base := s.base.afterSuccess job result now
        completed := s.completed ++ [job.id] }
    | some (.failure err) =>
      let s' := { s' with attempts := s.attempts.set job.id (job.attempts + 1) }
      match s.base.afterFailure job err now with
      | (base, some attempted) =>
        some { s' with base := base, retryTimers := s.retryTimers ++ [⟨attempted, err⟩] }
      | (base, none) =>
        some { s' with base := base, failedJobs := s.failedJobs ++ [job.id] }

def slotReleased (k : Nat) : Option RedisLocalQueue :=
  (s.finishing[k]?).map fun _ =>
    { s with
      base := { s.base with running := s.base.running - 1 }
      finishing := serve s.finishing k [] }

def retryElapsed (k now : Nat) : Option RedisLocalQueue :=
  (s.retryTimers[k]?).map fun b =>
    let s' : RedisLocalQueue := { s with retryTimers := serve s.retryTimers k [] }
    if s.base.closed then s'.failJob b.job b.err now
    else { s' with pending := s.pending ++ [b.job] }

def workerLost (job : Job) : JobError :=
  ⟨"worker_lost", "job " ++ toString job.id ++ " lost its worker and is not retryable"⟩

/-- The body of the second loop of `_reclaim`, which awaits nothing without a client. -/
def reclaimJob (now : Nat) (s : RedisLocalQueue) (record : LocalRecord) : RedisLocalQueue :=
  let n := s.attemptsOf record.job.id + 1
  let job := { record.job with attempts := n }
  let s := { s with attempts := s.attempts.set job.id n }
  if job.retryable && decide (n < job.max) && !s.base.closed then
    { s with
      base := { s.base with retried := s.base.retried + 1 }
      reclaimTimers := s.reclaimTimers ++ [job] }
  else
    { s with base := { s.base with deadLetter := s.base.deadLetter + 1 } }.failJob job
      (workerLost job) now

def staleRecords (now : Nat) : List LocalRecord :=
  (s.localProcessing.entries.map Prod.snd).filter fun record => record.deadline ≤ now

def reclaim (now : Nat) : Option RedisLocalQueue :=
  if s.base.closed then none
  else
    let stale := s.staleRecords now
    let kept := stale.foldl (fun table record => table.delete record.job.id) s.localProcessing
    some (stale.foldl (reclaimJob now) { s with localProcessing := kept })

def reclaimElapsed (k now : Nat) : Option RedisLocalQueue :=
  (s.reclaimTimers[k]?).map fun job =>
    let s' : RedisLocalQueue := { s with reclaimTimers := serve s.reclaimTimers k [] }
    if s.base.closed then
      s'.failJob job ⟨"queue_closed", "queue closed before reclaimed job was requeued"⟩ now
    else { s' with pending := s.pending ++ [job] }

def claimRegistered (k : Nat) : Option RedisLocalQueue :=
  (s.claiming[k]?).map fun id =>
    { s with
      base := s.base.registerClaim id
      claiming := serve s.claiming k []
      claimOpen := s.claimOpen ++ [id] }

def claimReturned (k : Nat) : Option RedisLocalQueue :=
  (s.claimOpen[k]?).map fun id =>
    { s with
      base := { s.base with claimWaiters := s.base.claimWaiters.delete id }
      claimOpen := serve s.claimOpen k [] }

def waitTimedOut (id : JobId) : Option RedisLocalQueue :=
  if s.base.waiters.get id = some .enqueueAndWait then
    some { s with base := { s.base with waiters := s.base.waiters.delete id } }
  else none

/-- The end of `close`: local jobs stay in the list and are reported as dropped. -/
def finishClose (rejectWaiters : Bool) : RedisLocalQueue :=
  let base := if rejectWaiters then s.base.rejectAllWaiters else s.base
  { s with
    base := { base with inflightKeys := .empty }
    dropped := s.dropped ++ s.pending.map Job.id
    closeReturns := s.closeReturns + 1 }

def closeCalled (opts : CloseOptions) (now : Nat) : RedisLocalQueue :=
  let s := { s with base := { s.base with closed := true } }
  if opts.drain then { s with closing := s.closing ++ [⟨now + opts.graceMs, opts.rejectWaiters⟩] }
  else s.finishClose opts.rejectWaiters

def closeReturned (k now : Nat) : Option RedisLocalQueue :=
  (s.closing[k]?).bind fun c =>
    if 0 < s.base.running ∧ now < c.deadline then none
    else some ({ s with closing := serve s.closing k [] }.finishClose c.rejectWaiters)

end RedisLocalQueue

inductive RedisLocalLabel
  | on (type : String)
  | enqueue (opts : EnqueueOptions) (id : JobId) (now : Nat)
  | enqueueAndWait (opts : EnqueueOptions) (id : JobId) (now : Nat)
  | enqueueAndClaim (opts : EnqueueOptions) (id : JobId) (now : Nat)
  | claimRegistered (k : Nat)
  | claimReturned (k : Nat)
  | waitTimedOut (id : JobId)
  | drainStarts
  | drainContinues (leaseToken now : Nat)
  | renew (k now : Nat)
  | handlerSettled (k : Nat) (outcome : Outcome)
  | taskContinues (k now : Nat)
  | slotReleased (k : Nat)
  | retryElapsed (k now : Nat)
  | reclaim (now : Nat)
  | reclaimElapsed (k now : Nat)
  | closeCalled (opts : CloseOptions) (now : Nat)
  | closeReturned (k now : Nat)
  deriving DecidableEq

namespace RedisLocalQueue

def Fresh (s : RedisLocalQueue) (id : JobId) : Prop := id ∉ s.accepted.map Job.id

instance (s : RedisLocalQueue) (id : JobId) : Decidable (s.Fresh id) :=
  inferInstanceAs (Decidable (_ ∉ _))

def step (s : RedisLocalQueue) : RedisLocalLabel → Option RedisLocalQueue
  | .on type => some { s with base := s.base.on type }
  | .enqueue opts id now => if s.Fresh id then some (s.enqueue opts id now) else none
  | .enqueueAndWait opts id now =>
    if s.Fresh id then some (s.enqueueAndWait opts id now) else none
  | .enqueueAndClaim opts id now =>
    if s.Fresh id then some (s.enqueueAndClaim opts id now) else none
  | .claimRegistered k => s.claimRegistered k
  | .claimReturned k => s.claimReturned k
  | .waitTimedOut id => s.waitTimedOut id
  | .drainStarts => s.drainStarts
  | .drainContinues leaseToken now => s.drainContinues leaseToken now
  | .renew k now => s.renew k now
  | .handlerSettled k outcome => s.handlerSettled k outcome
  | .taskContinues k now => s.taskContinues k now
  | .slotReleased k => s.slotReleased k
  | .retryElapsed k now => s.retryElapsed k now
  | .reclaim now => s.reclaim now
  | .reclaimElapsed k now => s.reclaimElapsed k now
  | .closeCalled opts now => some (s.closeCalled opts now)
  | .closeReturned k now => s.closeReturned k now

def Start (s : RedisLocalQueue) : Prop :=
  ∃ concurrency visibilityMs, s = create concurrency visibilityMs

end RedisLocalQueue

end OrchestraAI.Queue
