import OrchestraAI.Library.OrderedMap
import Mathlib.Algebra.Group.Nat.Defs
import Mathlib.Data.Nat.Basic
import Mathlib.Order.Lattice

/-! # Jobs and the state shared by both queue providers

This is `BaseJobQueue` of `infrastructure/queue.js`: the job record, the key
table, the waiter maps, the counters and the settle paths that the memory and
the Redis provider inherit. Promises appear only through the calls that settle
them, which `settlements` and `claimSettlements` record in order.
-/

namespace OrchestraAI.Queue

def DEFAULT_MAX_ATTEMPTS : Nat := 3
def DEFAULT_TIMEOUT_MS : Nat := 120000
def COMPLETED_KEY_TTL_MS : Nat := 10 * 60 * 1000
def MAX_COMPLETED_KEYS : Nat := 2000

abbrev JobId := Nat

structure Job where
  id : JobId
  type : String
  runId : Option String
  payload : String
  idempotencyKey : Option String
  enqueuedAt : Nat
  attempts : Nat
  maxAttempts : Nat
  timeoutMs : Nat
  retryable : Bool
  dedupeCompleted : Bool
  deriving DecidableEq, Repr

def truthyKey : Option String → Option String
  | none => none
  | some k => if k = "" then none else some k

def Job.key (job : Job) : Option String := truthyKey job.idempotencyKey

/-- `Math.max(1, Number(job.maxAttempts) || 1)`. -/
def Job.max (job : Job) : Nat := Nat.max 1 job.maxAttempts

structure JobError where
  code : String
  message : String
  deriving DecidableEq, Repr

inductive Outcome
  | success (result : String)
  | failure (err : JobError)
  deriving DecidableEq, Repr

inductive ClaimOutcome
  | claimed
  | settled (result : String)
  | rejected (err : JobError)
  deriving DecidableEq, Repr

inductive WaiterKind
  | enqueueAndWait
  | enqueueAndClaim
  deriving DecidableEq, Repr

structure BaseJobQueue where
  concurrency : Nat
  handlers : List String
  running : Nat
  closed : Bool
  waiters : OrderedMap JobId WaiterKind
  claimWaiters : OrderedMap JobId Unit
  settledCache : OrderedMap JobId (Outcome × Nat)
  inflightKeys : OrderedMap String JobId
  completedKeys : OrderedMap String Nat
  processed : Nat
  failed : Nat
  retried : Nat
  duplicates : Nat
  deadLetter : Nat
  settlements : List (JobId × Outcome)
  claimSettlements : List (JobId × ClaimOutcome)

namespace BaseJobQueue

/-- The constructor; `concurrency` is `Math.max(1, Number(concurrency) || 4)`. -/
def create (concurrency : Nat) : BaseJobQueue where
  concurrency := if concurrency = 0 then 4 else concurrency
  handlers := []
  running := 0
  closed := false
  waiters := .empty
  claimWaiters := .empty
  settledCache := .empty
  inflightKeys := .empty
  completedKeys := .empty
  processed := 0
  failed := 0
  retried := 0
  duplicates := 0
  deadLetter := 0
  settlements := []
  claimSettlements := []

variable (q : BaseJobQueue)

def on (type : String) : BaseJobQueue := { q with handlers := type :: q.handlers }

def rememberCompleted (key : Option String) (now : Nat) : BaseJobQueue :=
  { q with completedKeys := match truthyKey key with
    | none => q.completedKeys
    | some k =>
      let keys := q.completedKeys.set k now
      if keys.size > MAX_COMPLETED_KEYS then keys.dropOldest else keys }

def recentlyCompleted (k : String) (now : Nat) : Bool :=
  match q.completedKeys.get k with
  | none => false
  | some at_ => decide (now - at_ ≤ COMPLETED_KEY_TTL_MS)

/-- `_recentlyCompleted` forgets a key it finds expired. -/
def forgetExpired (k : String) (now : Nat) : BaseJobQueue :=
  { q with completedKeys :=
      if q.recentlyCompleted k now then q.completedKeys else q.completedKeys.delete k }

def releaseKey (job : Job) : BaseJobQueue :=
  { q with inflightKeys := match job.key with
    | none => q.inflightKeys
    | some k => q.inflightKeys.delete k }

/-- Without a waiter the outcome is cached for an `enqueueAndClaim` still on its way. -/
def cacheOutcome (id : JobId) (o : Outcome) (now : Nat) : OrderedMap JobId (Outcome × Nat) :=
  let cache := q.settledCache.set id (o, now)
  if cache.size > 500 then cache.dropOldest else cache

def settleWaiter (id : JobId) (o : Outcome) (now : Nat) : BaseJobQueue :=
  { q with
    waiters := q.waiters.delete id
    settlements := if q.waiters.has id then q.settlements ++ [(id, o)] else q.settlements
    settledCache := if q.waiters.has id then q.settledCache else q.cacheOutcome id o now
    claimWaiters := q.claimWaiters.delete id
    claimSettlements :=
      if q.claimWaiters.has id then
        q.claimSettlements ++ [(id, match o with
          | .success result => .settled result
          | .failure err => .rejected err)]
      else q.claimSettlements }

def notifyClaim (id : JobId) : BaseJobQueue :=
  { q with
    claimWaiters := q.claimWaiters.delete id
    claimSettlements :=
      if q.claimWaiters.has id then q.claimSettlements ++ [(id, .claimed)]
      else q.claimSettlements }

def afterSuccess (job : Job) (result : String) (now : Nat) : BaseJobQueue :=
  let q := { q with processed := q.processed + 1 }.releaseKey job
  let q := if job.dedupeCompleted then q.rememberCompleted job.idempotencyKey now else q
  q.settleWaiter job.id (.success result) now

def finalCodes : List String := ["terminal", "not_found", "busy", "bad_params", "denied"]

def isRetryable (job : Job) (err : JobError) : Bool :=
  job.retryable && !(finalCodes.contains err.code)

/-- The test of `_afterFailure` before it requeues. -/
def willRetry (job : Job) (err : JobError) : Bool :=
  isRetryable job err && decide (job.attempts + 1 < job.max) && !q.closed

/-- The path of `_afterFailure`, `_reclaim` and the retry timers to a failed job. -/
def failTerminally (job : Job) (err : JobError) (now : Nat) : BaseJobQueue :=
  ({ q with failed := q.failed + 1 }.releaseKey job).settleWaiter job.id (.failure err) now

/-- `some` job: the caller is to requeue it after its backoff. -/
def afterFailure (job : Job) (err : JobError) (now : Nat) : BaseJobQueue × Option Job :=
  let attempted := { job with attempts := job.attempts + 1 }
  if q.willRetry job err then
    ({ q with retried := q.retried + 1 }, some attempted)
  else
    let q := if isRetryable job err && decide (job.max ≤ attempted.attempts) then
      { q with deadLetter := q.deadLetter + 1 } else q
    (q.failTerminally job err now, none)

theorem releaseKey_get (job : Job) (k : String) :
    (q.releaseKey job).inflightKeys.get k =
      if job.key = some k then none else q.inflightKeys.get k := by
  unfold releaseKey
  cases hk : job.key with
  | none => simp
  | some j => simp [OrderedMap.get_delete, eq_comm]

theorem settleWaiter_settlements (id : JobId) (o : Outcome) (now : Nat) :
    (q.settleWaiter id o now).settlements = q.settlements ∨
    (q.settleWaiter id o now).settlements = q.settlements ++ [(id, o)] := by
  unfold settleWaiter
  cases q.waiters.has id
  · exact .inl rfl
  · exact .inr rfl

/-- What `_afterSuccess` leaves alone. -/
theorem afterSuccess_frame (job : Job) (result : String) (now : Nat) :
    q.afterSuccess job result now = { q with
      processed := q.processed + 1
      inflightKeys := (q.releaseKey job).inflightKeys
      completedKeys := (q.afterSuccess job result now).completedKeys
      waiters := q.waiters.delete job.id
      settlements := (q.settleWaiter job.id (.success result) now).settlements
      settledCache := (q.settleWaiter job.id (.success result) now).settledCache
      claimWaiters := q.claimWaiters.delete job.id
      claimSettlements :=
        (q.settleWaiter job.id (.success result) now).claimSettlements } := by
  unfold afterSuccess
  cases job.dedupeCompleted <;> rfl

/-- The two ends of `_afterFailure`: a requeue after the backoff, or a failed job. -/
theorem afterFailure_cases (job : Job) (err : JobError) (now : Nat) :
    (q.willRetry job err = true ∧ q.afterFailure job err now =
      ({ q with retried := q.retried + 1 }, some { job with attempts := job.attempts + 1 })) ∨
    (q.willRetry job err = false ∧ ∃ dead, q.afterFailure job err now =
      ({ q with deadLetter := dead }.failTerminally job err now, none)) := by
  unfold afterFailure
  cases q.willRetry job err with
  | true => exact .inl ⟨rfl, rfl⟩
  | false =>
    refine .inr ⟨rfl, ?_⟩
    dsimp only
    split
    · contradiction
    · split
      · exact ⟨_, rfl⟩
      · exact ⟨q.deadLetter, rfl⟩

end BaseJobQueue

structure EnqueueOptions where
  type : String
  runId : Option String := none
  payload : String := "{}"
  idempotencyKey : Option String := none
  maxAttempts : Nat := DEFAULT_MAX_ATTEMPTS
  timeoutMs : Nat := DEFAULT_TIMEOUT_MS
  retryable : Bool := true
  dedupeCompleted : Bool := false
  deriving DecidableEq, Repr

inductive Normalized
  | rejected (err : JobError)
  | duplicate (jobId : Option JobId) (completed : Bool)
  | job (job : Job)
  deriving DecidableEq, Repr

def Normalized.job? : Normalized → Option Job
  | .job j => some j
  | _ => none

def EnqueueOptions.toJob (opts : EnqueueOptions) (id : JobId) (now : Nat) : Job where
  id := id
  type := opts.type
  runId := opts.runId
  payload := opts.payload
  idempotencyKey := opts.idempotencyKey
  enqueuedAt := now
  attempts := 0
  maxAttempts := opts.maxAttempts
  timeoutMs := opts.timeoutMs
  retryable := opts.retryable
  dedupeCompleted := opts.dedupeCompleted

namespace BaseJobQueue

variable (q : BaseJobQueue)

/-- `_normalizeEnqueue`; `id` is what `newJobId` returns. -/
def normalizeEnqueue (opts : EnqueueOptions) (id : JobId) (now : Nat) :
    Normalized × BaseJobQueue :=
  if opts.type = "" then
    (.rejected ⟨"bad_params", "job type is required"⟩, q)
  else
    match truthyKey opts.idempotencyKey with
    | none => (.job (opts.toJob id now), q)
    | some k =>
      match q.inflightKeys.get k with
      | some holder => (.duplicate (some holder) false, { q with duplicates := q.duplicates + 1 })
      | none =>
        if opts.dedupeCompleted && q.recentlyCompleted k now then
          (.duplicate none true, { q with duplicates := q.duplicates + 1 })
        else
          let q := if opts.dedupeCompleted then q.forgetExpired k now else q
          (.job (opts.toJob id now), { q with inflightKeys := q.inflightKeys.set k id })

/-- What an accepted `enqueue` changes besides the memory of completed keys. -/
theorem normalizeEnqueue_job {q q' : BaseJobQueue} {opts : EnqueueOptions} {id : JobId}
    {now : Nat} {job : Job} (h : q.normalizeEnqueue opts id now = (.job job, q')) :
    job = opts.toJob id now ∧
    (∀ k, job.key = some k → q.inflightKeys.get k = none) ∧
    q' = { q with
      completedKeys := q'.completedKeys
      inflightKeys := match job.key with
        | none => q.inflightKeys
        | some k => q.inflightKeys.set k job.id } := by
  unfold normalizeEnqueue at h
  split at h
  · cases h
  · split at h
    · rename_i hKey
      cases h
      have hKey : (opts.toJob id now).key = none := hKey
      exact ⟨rfl, by simp [hKey], by simp [hKey]⟩
    · rename_i k hKey
      split at h
      · cases h
      · rename_i hFree
        split at h
        · cases h
        · cases h
          have hKey : (opts.toJob id now).key = some k := hKey
          refine ⟨rfl, ?_, ?_⟩
          · intro j hj
            rw [hKey, Option.some.injEq] at hj
            exact hj ▸ hFree
          · rw [hKey]
            by_cases hd : opts.dedupeCompleted = true
            · simp only [hd, if_true]; rfl
            · simp only [hd]; rfl

/-- A refused `enqueue` changes nothing but the count of duplicates. -/
theorem normalizeEnqueue_refused {q q' : BaseJobQueue} {opts : EnqueueOptions} {id : JobId}
    {now : Nat} {r : Normalized} (h : q.normalizeEnqueue opts id now = (r, q'))
    (hr : ∀ job, r ≠ .job job) : q' = { q with duplicates := q'.duplicates } := by
  unfold normalizeEnqueue at h
  split at h
  · cases h; rfl
  · split at h
    · cases h; exact absurd rfl (hr _)
    · split at h
      · cases h; rfl
      · split at h
        · cases h; rfl
        · cases h; exact absurd rfl (hr _)

/-- The continuation of `enqueueAndClaim` after its `enqueue`: a cached outcome
settles the call at once, otherwise both waiters are registered. -/
def registerClaim (id : JobId) : BaseJobQueue :=
  match q.settledCache.get id with
  | some _ => { q with settledCache := q.settledCache.delete id }
  | none => { q with claimWaiters := q.claimWaiters.set id (),
                     waiters := q.waiters.set id .enqueueAndClaim }

/-- The end of `close` in both providers: every waiter is rejected, the keys are dropped. -/
def rejectAllWaiters : BaseJobQueue :=
  { q with
    waiters := .empty
    settlements := q.settlements ++ q.waiters.keys.map fun id =>
      (id, .failure ⟨"queue_closed", "queue closed before job completed"⟩)
    claimWaiters := .empty
    claimSettlements := q.claimSettlements ++ q.claimWaiters.keys.map fun id =>
      (id, .rejected ⟨"queue_closed", "queue closed before job claimed"⟩) }

end BaseJobQueue

end OrchestraAI.Queue
