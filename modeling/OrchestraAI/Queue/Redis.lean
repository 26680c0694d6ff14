import Mathlib.Logic.Function.Basic
import OrchestraAI.Library.LabelledSystem
import OrchestraAI.Library.WorkBag
import OrchestraAI.Queue.Memory

/-! # The Redis provider

Any number of `RedisJobQueue` instances over one Redis with an eval-capable
client. The pending list and the processing hash are shared; everything else an
instance has going (commands sent, replies on their way, handlers, timers, the
entries of a reclaim pass) is an item of one bag and is lost when its process
crashes. Each Redis command and each Lua script is one step, and the commands of
one connection keep their order. A serialized record is equal to another exactly
when the records are, so records stand for their strings.
-/

namespace OrchestraAI.Queue

open WorkBag

structure ProcessingRecord where
  job : Job
  deadline : Nat
  leaseToken : Nat
  deriving DecidableEq, Repr

/-- The script of `compareAndDeleteHash`: its reply and the hash after it. -/
def compareAndDeleteHash (hash : OrderedMap JobId ProcessingRecord) (id : JobId)
    (expected : ProcessingRecord) : Bool × OrderedMap JobId ProcessingRecord :=
  if hash.get id = some expected then (true, hash.delete id) else (false, hash)

def compareAndSetHash (hash : OrderedMap JobId ProcessingRecord) (id : JobId)
    (expected next : ProcessingRecord) : Bool × OrderedMap JobId ProcessingRecord :=
  if hash.get id = some expected then (true, hash.set id next) else (false, hash)

structure Lease where
  token : Nat
  duration : Nat
  raw : ProcessingRecord

/-- A renewal between its command and its reply; `reply` is set once Redis has run it. -/
structure Renewal where
  expected : ProcessingRecord
  next : ProcessingRecord
  reply : Option Bool

inductive Verdict
  | unhandled
  | handled (outcome : Outcome)
  deriving DecidableEq, Repr

inductive TaskPhase
  | claimed
  | running
  | releasing (verdict : Verdict) (expected : ProcessingRecord) (reply : Option Bool)
  deriving DecidableEq, Repr

structure RedisTask where
  job : Job
  lease : Lease
  phase : TaskPhase
  renewing : Bool
  renewal : Option Renewal

inductive Work
  | push (job : Job) (first : Bool)
  | task (task : RedisTask)
  | retryTimer (job : Job) (err : JobError)
  | stale (id : JobId) (raw : ProcessingRecord)
  | reclaimed (job : Job)
  | requeueTimer (job : Job)

def Work.jobs : Work → List Job
  | .push job _ => [job]
  | .task held => [held.job]
  | .retryTimer job _ => [job]
  | .stale _ _ => []
  | .reclaimed job => [job]
  | .requeueTimer job => [job]

structure Item where
  worker : Nat
  work : Work

/-- What has happened to a job. `won`: a handler succeeded while its lease was the one
recorded. `decided`: the record is given up for good. -/
inductive Event
  | claimed (id : JobId)
  | started (id : JobId)
  | won (id : JobId)
  | decided (id : JobId)
  | completed (id : JobId)
  | failed (id : JobId)
  deriving DecidableEq, Repr

structure RedisSystem where
  instances : Nat → BaseJobQueue
  visibilityMs : Nat → Nat
  pending : List Job
  processing : OrderedMap JobId ProcessingRecord
  bag : List Item
  tokens : List Nat
  -- What has happened so far, for the statements only; the log has the newest event first.
  issued : List (Nat × Job)
  accepted : List Job
  log : List Event

namespace RedisSystem

def create (concurrency visibilityMs : Nat → Nat) : RedisSystem where
  instances i := .create (concurrency i)
  visibilityMs i := Nat.max 5000 (visibilityMs i)
  pending := []
  processing := .empty
  bag := []
  tokens := []
  issued := []
  accepted := []
  log := []

variable (s : RedisSystem)

def withInstance (i : Nat) (q : BaseJobQueue) : RedisSystem :=
  { s with instances := Function.update s.instances i q }

def addWork (i : Nat) (w : Work) : RedisSystem := { s with bag := s.bag ++ [⟨i, w⟩] }

/-- Item `k` turns into `ws`, still of instance `i`. -/
def turnInto (k i : Nat) (ws : List Work) : RedisSystem :=
  { s with bag := serve s.bag k (ws.map (Item.mk i)) }

def record (events : List Event) : RedisSystem := { s with log := events ++ s.log }

/-- `enqueue` up to the `RPUSH` it sends; `enqueueAndWait` also registers its waiter. -/
def enqueue (i : Nat) (opts : EnqueueOptions) (wait : Bool) (id : JobId) (now : Nat) :
    RedisSystem :=
  match (s.instances i).normalizeEnqueue opts id now with
  | (.job job, q) =>
    let waiters := if wait then q.waiters.set job.id .enqueueAndWait else q.waiters
    { (s.withInstance i { q with waiters := waiters }).addWork i (.push job true) with
      issued := s.issued ++ [(i, job)] }
  | (_, q) => s.withInstance i q

/-- Redis runs an `RPUSH`; that of an `enqueue` makes the call return. -/
def pushed (k : Nat) : Option RedisSystem :=
  (s.bag[k]?).bind fun item => match item.work with
    | .push job first =>
      some { s.turnInto k item.worker [] with
        pending := s.pending ++ [job]
        accepted := if first then s.accepted ++ [job] else s.accepted }
    | _ => none

def claimDuration (i : Nat) : Nat := Nat.max (s.visibilityMs i) (DEFAULT_TIMEOUT_MS + 5000)

/-- `CLAIM_LUA`: `LPOP` and `HSETNX` in one step; a job whose record exists goes back to
the tail. -/
def claim (i now leaseToken : Nat) : Option RedisSystem :=
  if (s.instances i).running < (s.instances i).concurrency ∧ leaseToken ∉ s.tokens then
    match s.pending with
    | [] => none
    | job :: rest =>
      if s.processing.has job.id then some { s with pending := rest ++ [job] }
      else
        let raw : ProcessingRecord := ⟨job, now + s.claimDuration i, leaseToken⟩
        let task : RedisTask := ⟨job, ⟨leaseToken, s.claimDuration i, raw⟩, .claimed, true, none⟩
        some { (s.addWork i (.task task)).record [.claimed job.id] with
          pending := rest
          processing := s.processing.set job.id raw
          tokens := leaseToken :: s.tokens }
  else none

/-- The claim's reply arrives: the handler is invoked, or the record is given up. -/
def start (k : Nat) : Option RedisSystem :=
  (s.bag[k]?).bind fun item => match item.work with
    | .task task =>
      if task.phase = .claimed then
        let q := s.instances item.worker
        if q.handlers.contains task.job.type then
          some (((s.turnInto k item.worker [.task { task with phase := .running }]).withInstance
            item.worker ({ q with running := q.running + 1 }.notifyClaim task.job.id)).record
            [.started task.job.id])
        else
          some (s.turnInto k item.worker
            [.task { task with phase := .releasing .unhandled task.lease.raw none }])
      else none
    | _ => none

/-- The renewal timer sends its compare-and-set; `refreshing` keeps a second one back. -/
def renewSent (k now : Nat) : Option RedisSystem :=
  (s.bag[k]?).bind fun item => match item.work with
    | .task task =>
      if task.phase = .running ∧ task.renewing = true ∧ task.renewal.isNone then
        let next : ProcessingRecord :=
          ⟨task.job, now + task.lease.duration, task.lease.token⟩
        some (s.turnInto k item.worker
          [.task { task with renewal := some ⟨task.lease.raw, next, none⟩ }])
      else none
    | _ => none

def renewRun (k : Nat) : Option RedisSystem :=
  (s.bag[k]?).bind fun item => match item.work with
    | .task task => match task.renewal with
      | some ⟨expected, next, none⟩ =>
        let (ok, hash) := compareAndSetHash s.processing task.job.id expected next
        some { s.turnInto k item.worker
            [.task { task with renewal := some ⟨expected, next, some ok⟩ }] with
          processing := hash }
      | _ => none
    | _ => none

/-- The renewal's reply moves `lease.raw` on, or stops the timer. -/
def renewReplied (k : Nat) : Option RedisSystem :=
  (s.bag[k]?).bind fun item => match item.work with
    | .task task => match task.renewal with
      | some ⟨_, next, some ok⟩ =>
        let task : RedisTask := if ok then { task with lease := { task.lease with raw := next } }
          else { task with renewing := false }
        some (s.turnInto k item.worker [.task { task with renewal := none }])
      | _ => none
    | _ => none

def Recorded (task : RedisTask) : Prop :=
  (s.processing.get task.job.id).map ProcessingRecord.leaseToken = some task.lease.token

instance (task : RedisTask) : Decidable (s.Recorded task) := inferInstanceAs (Decidable (_ = _))

/-- The handler of `task` succeeds under the recorded lease. -/
def Wins (task : RedisTask) : Outcome → Prop
  | .success _ => s.Recorded task
  | .failure _ => False

instance (task : RedisTask) (outcome : Outcome) : Decidable (s.Wins task outcome) := by
  cases outcome <;> unfold Wins <;> infer_instance

/-- The handler settles: renewal stops and the release is sent with `lease.raw` as it is now. -/
def handlerSettled (k : Nat) (outcome : Outcome) : Option RedisSystem :=
  (s.bag[k]?).bind fun item => match item.work with
    | .task task =>
      if task.phase = .running then
        let won := if s.Wins task outcome then [.won task.job.id] else []
        some ((s.turnInto k item.worker [.task { task with
          phase := .releasing (.handled outcome) task.lease.raw none
          renewing := false }]).record won)
      else none
    | _ => none

def final (q : BaseJobQueue) (job : Job) : Verdict → Bool
  | .unhandled => true
  | .handled (.success _) => true
  | .handled (.failure err) => !q.willRetry job err

def released (k : Nat) : Option RedisSystem :=
  (s.bag[k]?).bind fun item => match item.work with
    | .task task => match task.phase with
      | .releasing verdict expected none =>
        if task.renewal.any fun renewal => renewal.reply.isNone then none
        else
          let (ok, hash) := compareAndDeleteHash s.processing task.job.id expected
          let decided := if final (s.instances item.worker) task.job verdict then
            [.decided task.job.id] else []
          some { (s.turnInto k item.worker
              [.task { task with phase := .releasing verdict expected (some ok) }]).record
              decided with
            processing := hash }
      | _ => none
    | _ => none

def failJob (i : Nat) (job : Job) (err : JobError) (now : Nat) : RedisSystem :=
  (s.withInstance i ((s.instances i).failTerminally job err now)).record [.failed job.id]

/-- The rest of the settle path once the release has been answered, whatever the answer. -/
def concluded (k now : Nat) : Option RedisSystem :=
  (s.bag[k]?).bind fun item => match item.work with
    | .task task => match task.phase with
      | .releasing verdict _ (some _) =>
        let q := s.instances item.worker
        let freed := { q with running := q.running - 1 }
        match verdict with
        | .unhandled =>
          some ((s.turnInto k item.worker []).failJob item.worker task.job
            (MemoryJobQueue.noHandlerError task.job) now)
        | .handled (.success result) =>
          some (((s.turnInto k item.worker []).withInstance item.worker
            (freed.afterSuccess task.job result now)).record [.completed task.job.id])
        | .handled (.failure err) =>
          match freed.afterFailure task.job err now with
          | (q, some attempted) =>
            some ((s.turnInto k item.worker [.retryTimer attempted err]).withInstance
              item.worker q)
          | (q, none) =>
            some (((s.turnInto k item.worker []).withInstance item.worker q).record
              [.failed task.job.id])
      | _ => none
    | _ => none

def retryElapsed (k now : Nat) : Option RedisSystem :=
  (s.bag[k]?).bind fun item => match item.work with
    | .retryTimer job err =>
      if (s.instances item.worker).closed then
        some ((s.turnInto k item.worker []).failJob item.worker job err now)
      else some (s.turnInto k item.worker [.push job false])
    | _ => none

/-- `_reclaim` up to its second loop: the expired records as `HGETALL` returns them. -/
def reclaimScan (i now : Nat) : Option RedisSystem :=
  if (s.instances i).closed then none
  else
    let expired := s.processing.entries.filter fun e => e.2.deadline ≤ now
    some { s with bag := s.bag ++ expired.map fun e => ⟨i, .stale e.1 e.2⟩ }

/-- The test of `_reclaim` before it requeues. -/
def requeueable (q : BaseJobQueue) (job : Job) : Bool :=
  job.retryable && decide (job.attempts + 1 < job.max) && !q.closed

def reclaimRun (k : Nat) : Option RedisSystem :=
  (s.bag[k]?).bind fun item => match item.work with
    | .stale id raw =>
      match compareAndDeleteHash s.processing id raw with
      | (true, hash) =>
        let decided := if requeueable (s.instances item.worker) raw.job then []
          else [.decided id]
        some { (s.turnInto k item.worker [.reclaimed raw.job]).record decided with
          processing := hash }
      | (false, _) => some (s.turnInto k item.worker [])
    | _ => none

def workerLost (job : Job) : JobError :=
  ⟨"worker_lost", "job " ++ toString job.id ++ " lost its worker and is not retryable"⟩

def reclaimContinues (k now : Nat) : Option RedisSystem :=
  (s.bag[k]?).bind fun item => match item.work with
    | .reclaimed job =>
      let q := s.instances item.worker
      if requeueable q job then
        some ((s.turnInto k item.worker
          [.requeueTimer { job with attempts := job.attempts + 1 }]).withInstance item.worker
          { q with retried := q.retried + 1 })
      else
        some (((s.turnInto k item.worker []).withInstance item.worker
          { q with deadLetter := q.deadLetter + 1 }).failJob item.worker job (workerLost job) now)
    | _ => none

def requeueElapsed (k now : Nat) : Option RedisSystem :=
  (s.bag[k]?).bind fun item => match item.work with
    | .requeueTimer job =>
      if (s.instances item.worker).closed then
        some ((s.turnInto k item.worker []).failJob item.worker job
          ⟨"queue_closed", "queue closed before reclaimed job was requeued"⟩ now)
      else some (s.turnInto k item.worker [.push job false])
    | _ => none

/-- The process of instance `i` dies with all it had going and starts afresh. -/
def restart (i concurrency : Nat) : RedisSystem :=
  { s.withInstance i (.create concurrency) with
    bag := s.bag.filter fun item => item.worker ≠ i }

def closeReturned (i : Nat) (rejectWaiters : Bool) : RedisSystem :=
  let q := s.instances i
  let q := if rejectWaiters then q.rejectAllWaiters else q
  s.withInstance i { q with inflightKeys := .empty }

end RedisSystem

inductive RedisLabel
  | on (i : Nat) (type : String)
  | enqueue (i : Nat) (opts : EnqueueOptions) (wait : Bool) (id : JobId) (now : Nat)
  | claimRegistered (i : Nat) (id : JobId)
  | waitTimedOut (i : Nat) (id : JobId)
  | pushed (k : Nat)
  | claim (i now leaseToken : Nat)
  | start (k : Nat)
  | renewSent (k now : Nat)
  | renewRun (k : Nat)
  | renewReplied (k : Nat)
  | handlerSettled (k : Nat) (outcome : Outcome)
  | released (k : Nat)
  | concluded (k now : Nat)
  | retryElapsed (k now : Nat)
  | reclaimScan (i now : Nat)
  | reclaimRun (k : Nat)
  | reclaimContinues (k now : Nat)
  | requeueElapsed (k now : Nat)
  | restart (i concurrency : Nat)
  | closeCalled (i : Nat)
  | closeReturned (i : Nat) (rejectWaiters : Bool)
  deriving DecidableEq

namespace RedisSystem

/-- `newJobId` draws an id that no job has had. -/
def Fresh (s : RedisSystem) (id : JobId) : Prop := id ∉ s.issued.map fun e => e.2.id

instance (s : RedisSystem) (id : JobId) : Decidable (s.Fresh id) :=
  inferInstanceAs (Decidable (_ ∉ _))

def step (s : RedisSystem) : RedisLabel → Option RedisSystem
  | .on i type => some (s.withInstance i ((s.instances i).on type))
  | .enqueue i opts wait id now => if s.Fresh id then some (s.enqueue i opts wait id now) else none
  | .claimRegistered i id => some (s.withInstance i ((s.instances i).registerClaim id))
  | .waitTimedOut i id =>
    let q := s.instances i
    if q.waiters.get id = some .enqueueAndWait then
      some (s.withInstance i { q with waiters := q.waiters.delete id })
    else none
  | .pushed k => s.pushed k
  | .claim i now leaseToken => s.claim i now leaseToken
  | .start k => s.start k
  | .renewSent k now => s.renewSent k now
  | .renewRun k => s.renewRun k
  | .renewReplied k => s.renewReplied k
  | .handlerSettled k outcome => s.handlerSettled k outcome
  | .released k => s.released k
  | .concluded k now => s.concluded k now
  | .retryElapsed k now => s.retryElapsed k now
  | .reclaimScan i now => s.reclaimScan i now
  | .reclaimRun k => s.reclaimRun k
  | .reclaimContinues k now => s.reclaimContinues k now
  | .requeueElapsed k now => s.requeueElapsed k now
  | .restart i concurrency => some (s.restart i concurrency)
  | .closeCalled i => some (s.withInstance i { s.instances i with closed := true })
  | .closeReturned i rejectWaiters => some (s.closeReturned i rejectWaiters)

def Start (s : RedisSystem) : Prop :=
  ∃ concurrency visibilityMs, s = create concurrency visibilityMs

end RedisSystem

end OrchestraAI.Queue
