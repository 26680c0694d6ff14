import OrchestraAI.Queue.Desk
import OrchestraAI.Queue.GracefulClose

/-! # The hand-over of the start-up queue

With the Redis provider configured, `server.js` starts on a `RedisJobQueue` without a client and
replaces it once the coordinator is connected. The upgrade takes the local list and the waiters of
its jobs, closes the old queue, and pushes the jobs to a new one; it awaits after closing and after
each push. Whoever calls a queue meanwhile gets the one that is current.
-/

namespace OrchestraAI.Queue

open Rosters

structure Parcel where
  pending : List Job
  waiters : OrderedMap JobId WaiterKind
  claimWaiters : OrderedMap JobId Unit

/-- Where the upgrade awaits. `sent`: Redis has run the `RPUSH`, its reply is on the way. -/
inductive HandOverStage
  | startup
  | closing (parcel : Parcel)
  | pushing (job : Job) (sent : Bool) (parcel : Parcel)
  | finished

namespace HandOverStage

def buffer : HandOverStage → List Job
  | .startup => []
  | .closing parcel => parcel.pending
  | .pushing _ _ parcel => parcel.pending
  | .finished => []

def moved : HandOverStage → JobId → Bool
  | .startup => fun _ => false
  | .closing parcel => parcel.claimWaiters.has
  | .pushing _ _ parcel => parcel.claimWaiters.has
  | .finished => fun _ => false

def inFlight : HandOverStage → List Job
  | .pushing job false _ => [job]
  | _ => []

/-- `jobQueue` is the start-up queue until the upgrade has closed it. -/
def oldIsCurrent : HandOverStage → Bool
  | .startup => true
  | .closing _ => true
  | _ => false

end HandOverStage

structure HandOver where
  old : RedisLocalQueue
  new : RedisSystem
  stage : HandOverStage
  -- The calls of `enqueueAndClaim` that have registered and not returned, for the statements only.
  waiting : List JobId

inductive HandOverLabel
  | old (l : RedisLocalLabel)
  | new (l : RedisLabel)
  | upgradeStarts
  | oldClosed
  | pushRun
  | pushReplied
  | pushFailed (err : JobError) (now : Nat)
  deriving DecidableEq

namespace HandOver

def moveWaiter {ν : Type} (m : OrderedMap JobId ν × OrderedMap JobId ν) (id : JobId) :
    OrderedMap JobId ν × OrderedMap JobId ν :=
  match m.1.get id with
  | some w => (m.1.delete id, m.2.set id w)
  | none => m

variable (s : HandOver)

/-- The upgrade up to its first await: the list and its waiters are taken, the queue is closed. -/
def takeOver : HandOver :=
  let ids := s.old.pending.map Job.id
  let waiters := ids.foldl moveWaiter (s.old.base.waiters, .empty)
  let claimWaiters := ids.foldl moveWaiter (s.old.base.claimWaiters, .empty)
  let base := { s.old.base with waiters := waiters.1, claimWaiters := claimWaiters.1 }
  { s with
    old := ({ s.old with pending := [], base := base } : RedisLocalQueue).closeCalled
      { drain := false, rejectWaiters := false } 0
    stage := .closing ⟨s.old.pending, waiters.2, claimWaiters.2⟩ }

/-- The new queue gets the key and the waiters of a job that is about to be pushed. -/
def offer (q : BaseJobQueue) (job : Job) (parcel : Parcel) : BaseJobQueue :=
  { q with
    inflightKeys := match job.key with
      | none => q.inflightKeys
      | some k => q.inflightKeys.set k job.id
    waiters := match parcel.waiters.get job.id with
      | none => q.waiters
      | some w => q.waiters.set job.id w
    claimWaiters := match parcel.claimWaiters.get job.id with
      | none => q.claimWaiters
      | some w => q.claimWaiters.set job.id w }

/-- The loop over the pending jobs, up to the next `RPUSH`. -/
def pushNext (parcel : Parcel) : HandOver :=
  match parcel.pending with
  | [] => { s with stage := .finished }
  | job :: rest =>
    { s with
      new := s.new.withInstance 0 (offer (s.new.instances 0) job parcel)
      stage := .pushing (s.old.current job) false { parcel with pending := rest } }

def wireQueueHandlers (q : BaseJobQueue) : BaseJobQueue := (q.on "run.execute").on "maintenance.sweep"

/-- The start-up queue is called while it is current; what it has going goes on without end. -/
def MayOld : RedisLocalLabel → Bool
  | .enqueue _ _ _ => s.stage.oldIsCurrent
  | .enqueueAndWait _ _ _ => s.stage.oldIsCurrent
  | .enqueueAndClaim _ _ _ => s.stage.oldIsCurrent
  | .claimRegistered _ => true
  | .claimReturned _ => true
  | .waitTimedOut _ => true
  | .drainStarts => true
  | .drainContinues _ _ => true
  | .renew _ _ => true
  | .handlerSettled _ _ => true
  | .taskContinues _ _ => true
  | .slotReleased _ => true
  | .retryElapsed _ _ => true
  | _ => false

def MayNew : RedisLabel → Bool
  | .enqueue i _ _ id _ => i == 0 && decide (s.old.Fresh id)
  | .claimRegistered i id => i == 0 && (s.new.accepted.map Job.id).contains id
  | .waitTimedOut i _ => i == 0
  | .claim i _ _ => i == 0
  | .pushed _ => true
  | .start _ => true
  | .renewSent _ _ => true
  | .renewRun _ => true
  | .renewReplied _ => true
  | .handlerSettled _ _ => true
  | .released _ => true
  | .concluded _ _ => true
  | .retryElapsed _ _ => true
  | _ => false

/-- A call that finds the outcome of its job returns at once, any other one waits. -/
def joins (q : BaseJobQueue) (id : JobId) : List JobId :=
  if (q.settledCache.get id).isNone then s.waiting ++ [id] else s.waiting

def waitingAfterOld : RedisLocalLabel → List JobId
  | .claimRegistered k =>
    match s.old.claiming[k]? with
    | some id => s.joins s.old.base id
    | none => s.waiting
  | .claimReturned k =>
    match s.old.claimOpen[k]? with
    | some id => s.waiting.filter (· ≠ id)
    | none => s.waiting
  | _ => s.waiting

def waitingAfterNew : RedisLabel → List JobId
  | .claimRegistered _ id => s.joins (s.new.instances 0) id
  | _ => s.waiting

def step (s : HandOver) : HandOverLabel → Option HandOver
  | .old l =>
    if s.MayOld l then
      (s.old.step l).map fun old => { s with old := old, waiting := s.waitingAfterOld l }
    else none
  | .new l =>
    if s.stage.oldIsCurrent = false ∧ s.MayNew l = true then
      (s.new.step l).map fun new => { s with new := new, waiting := s.waitingAfterNew l }
    else none
  | .upgradeStarts => match s.stage with
    | .startup => some s.takeOver
    | _ => none
  | .oldClosed => match s.stage with
    | .closing parcel =>
      some (({ s with new := s.new.withInstance 0 (wireQueueHandlers (s.new.instances 0)) } :
        HandOver).pushNext parcel)
    | _ => none
  | .pushRun => match s.stage with
    | .pushing job false parcel =>
      some { s with
        new := { s.new with pending := s.new.pending ++ [job] }
        stage := .pushing job true parcel }
    | _ => none
  | .pushReplied => match s.stage with
    | .pushing _ true parcel => some (s.pushNext parcel)
    | _ => none
  | .pushFailed err now => match s.stage with
    | .pushing job _ parcel =>
      let q := ((s.new.instances 0).releaseKey job).settleWaiter job.id (.failure err) now
      some (({ s with new := s.new.withInstance 0 q } : HandOver).pushNext parcel)
    | _ => none

def Start (s : HandOver) : Prop :=
  ∃ concurrency visibilityMs : Nat, s =
    { old := { RedisLocalQueue.create concurrency visibilityMs with
        base := wireQueueHandlers (.create concurrency) }
      new := .create (fun _ => concurrency) (fun _ => visibilityMs)
      stage := .startup
      waiting := [] }

def transfer : Transfer where
  old := s.old.roster
  new := s.new.roster.plus ↑(s.stage.inFlight.map Job.entry)
  buffer := ↑(s.stage.buffer.map Job.entry)
  moved := s.stage.moved
  waiting := s.waiting

/-- The job's waiters are registered with the queue that has it, or its outcome is kept. -/
def ClaimAtHand (q : BaseJobQueue) (r : Roster) (id : JobId) : Prop :=
  q.settledCache.has id = true ∨ id ∈ r.ids

/-- An `enqueue` that would be accepted brings none of these keys. -/
def KeyElsewhere (q : BaseJobQueue) (m : Multiset Entry) (opts : EnqueueOptions) (id : JobId)
    (now : Nat) : Prop :=
  match q.normalizeEnqueue opts id now with
  | (.job job, _) => ∀ f ∈ m, job.key = none ∨ f.2 ≠ job.key
  | _ => True

/-- What the hand-over relies on: nobody enqueues at the closed queue, a claim is registered with
the queue that has the job, the new queue accepts no key of a job that is still with the old one
or on its way, and every `RPUSH` succeeds. -/
def Orderly (s : HandOver) : HandOverLabel → Prop
  | .old (.enqueue opts id now) => IntakeOpen s.old.base opts id now
  | .old (.enqueueAndWait opts id now) => IntakeOpen s.old.base opts id now
  | .old (.enqueueAndClaim opts id now) => IntakeOpen s.old.base opts id now
  | .old (.claimRegistered k) => ∀ id ∈ s.old.claiming[k]?, ClaimAtHand s.old.base s.old.roster id
  | .new (.enqueue _ opts _ id now) =>
    KeyElsewhere (s.new.instances 0) (s.transfer.old.unfinished + s.transfer.buffer) opts id now
  | .new (.claimRegistered _ id) => ClaimAtHand (s.new.instances 0) s.transfer.new id
  | .pushFailed _ _ => False
  | _ => True

instance (q : BaseJobQueue) (r : Roster) (id : JobId) : Decidable (ClaimAtHand q r id) :=
  inferInstanceAs (Decidable (_ ∨ _))

theorem keyElsewhere_iff {q : BaseJobQueue} {m : Multiset Entry} {opts : EnqueueOptions}
    {id : JobId} {now : Nat} : KeyElsewhere q m opts id now ↔
      ∀ job ∈ (q.normalizeEnqueue opts id now).1.job?, ∀ f ∈ m,
        job.key = none ∨ f.2 ≠ job.key := by
  rw [KeyElsewhere]
  split
  · rename_i hNorm
    simp [hNorm, Normalized.job?]
  · rename_i hOther
    cases hNorm : q.normalizeEnqueue opts id now with
    | mk n q' =>
      cases n with
      | job job => exact absurd hNorm (hOther job q')
      | _ => simp [Normalized.job?]

instance (q : BaseJobQueue) (m : Multiset Entry) (opts : EnqueueOptions) (id : JobId) (now : Nat) :
    Decidable (KeyElsewhere q m opts id now) :=
  decidable_of_iff (∀ job ∈ (q.normalizeEnqueue opts id now).1.job?, ∀ f ∈ m,
    job.key = none ∨ f.2 ≠ job.key) keyElsewhere_iff.symm

instance (s : HandOver) (l : HandOverLabel) : Decidable (s.Orderly l) := by
  unfold Orderly; split <;> infer_instance

variable {s} {t : HandOver}

section Waiters

variable {ν : Type} {m : OrderedMap JobId ν × OrderedMap JobId ν} {j : JobId}

theorem get_moveWaiter (m : OrderedMap JobId ν × OrderedMap JobId ν) (id j : JobId) :
    (moveWaiter m id).1.get j = if j = id then none else m.1.get j := by
  unfold moveWaiter
  cases hId : m.1.get id with
  | none =>
    by_cases hj : j = id
    · simp [hj, hId]
    · simp [hj]
  | some w => exact OrderedMap.get_delete _ _ _

theorem get_moveWaiters (ids : List JobId) (m : OrderedMap JobId ν × OrderedMap JobId ν) :
    (ids.foldl moveWaiter m).1.get j = if j ∈ ids then none else m.1.get j := by
  induction ids generalizing m with
  | nil => simp
  | cons id ids ih =>
    rw [List.foldl_cons, ih, get_moveWaiter]
    by_cases hj : j = id
    · simp [hj]
    · simp [hj]

theorem has_moveWaiter (id : JobId) (h : m.2.has j = true) : (moveWaiter m id).2.has j = true := by
  unfold moveWaiter
  split
  · rw [OrderedMap.has, OrderedMap.get_set]
    split
    · rfl
    · exact h
  · exact h

theorem has_moveWaiters (ids : List JobId) (h : m.2.has j = true) :
    (ids.foldl moveWaiter m).2.has j = true := by
  induction ids generalizing m with
  | nil => exact h
  | cons id ids ih => exact ih (has_moveWaiter id h)

theorem has_moved {ids : List JobId} (hj : j ∈ ids) (h : m.1.has j = true) :
    (ids.foldl moveWaiter m).2.has j = true := by
  induction ids generalizing m with
  | nil => cases hj
  | cons id ids ih =>
    by_cases hId : j = id
    · refine has_moveWaiters ids ?_
      obtain ⟨w, hw⟩ := Option.isSome_iff_exists.mp h
      subst hId
      unfold moveWaiter
      rw [hw]
      simp [OrderedMap.has]
    · refine ih ((List.mem_cons.mp hj).resolve_left hId) ?_
      rw [OrderedMap.has, get_moveWaiter, if_neg hId]
      exact h

end Waiters

theorem kept_takeOver (h : s.transfer.Kept) (hStage : s.stage = .startup) :
    s.takeOver.transfer.Kept := by
  have hIds : (↑(s.old.pending.map Job.entry) : Multiset Entry).map Prod.fst =
      ↑(s.old.pending.map Job.id) := by
    rw [Multiset.map_coe, List.map_map]
    rfl
  have hSplit : s.transfer.old.unfinished =
      ↑(s.old.pending.map Job.entry) + s.takeOver.old.roster.unfinished := by
    simp only [transfer, RedisLocalQueue.roster, takeOver, RedisLocalQueue.closeCalled,
      RedisLocalQueue.finishClose]
    simp only [List.map_nil, Multiset.coe_nil, zero_add, Bool.false_eq_true, if_false, add_assoc]
  have hTaken := h.take s.takeOver.old.base.desk s.takeOver.stage.moved hSplit ?_ rfl ?_ ?_
  · have hFlight : s.stage.inFlight = [] := by rw [hStage]; rfl
    have hNew : s.transfer.new = s.takeOver.transfer.new := by
      simp only [transfer, hFlight]
      rfl
    have hEnds : s.takeOver.old.roster.ended = s.old.roster.ended := rfl
    rw [hNew] at hTaken
    exact hTaken
  · simp only [transfer, hStage]
    rfl
  · intro id hId
    rw [hIds, Multiset.mem_coe] at hId
    have hGet := get_moveWaiters (j := id) (s.old.pending.map Job.id)
      (s.old.base.claimWaiters, .empty)
    rw [if_neg hId] at hGet
    exact congrArg Option.isSome hGet
  · intro id hId hClaim
    rw [hIds, Multiset.mem_coe] at hId
    exact has_moved hId hClaim

theorem desk_offer (q : BaseJobQueue) (job : Job) (parcel : Parcel) :
    (offer q job parcel).desk.keys = (q.desk.hold job.key job.id).keys ∧
    (offer q job parcel).desk.settled = q.desk.settled ∧
    (∀ id, q.desk.claims id = true → (offer q job parcel).desk.claims id = true) ∧
    (parcel.claimWaiters.has job.id = true → (offer q job parcel).desk.claims job.id = true) := by
  refine ⟨funext fun k => ?_, rfl, fun id hId => ?_, fun hHas => ?_⟩
  · cases hKey : job.key with
    | none => simp only [BaseJobQueue.desk, offer, hKey, Desk.hold]
    | some j =>
      simp only [BaseJobQueue.desk, offer, hKey, Desk.hold, OrderedMap.get_set,
        Function.update_apply]
  · simp only [BaseJobQueue.desk, offer] at hId ⊢
    split
    · exact hId
    · rw [BaseJobQueue.has_set, Function.update_apply]
      split
      · rfl
      · exact hId
  · obtain ⟨w, hw⟩ := Option.isSome_iff_exists.mp hHas
    simp only [BaseJobQueue.desk, offer, hw]
    rw [BaseJobQueue.has_set, Function.update_self]

theorem kept_pushNext {parcel : Parcel} (h : s.transfer.Kept)
    (hBuffer : s.stage.buffer = parcel.pending) (hMoved : s.stage.moved = parcel.claimWaiters.has)
    (hFlight : s.stage.inFlight = []) : (s.pushNext parcel).transfer.Kept := by
  have hNew : s.transfer.new = s.new.roster := by
    simp only [transfer, hFlight, Roster.plus, List.map_nil, Multiset.coe_nil, zero_add]
  unfold pushNext
  split
  · rename_i hNone
    have hEmpty : s.transfer.buffer = 0 := by simp only [transfer, hBuffer, hNone]; rfl
    have hArrived := h.arrived hEmpty fun _ => false
    have hSame : transfer { s with stage := .finished } =
        { s.transfer with moved := fun _ => false } := by
      simp only [transfer, hFlight, hBuffer, hNone]
      rfl
    rwa [hSame]
  · rename_i job rest hSome
    have hTake : s.transfer.moved = parcel.claimWaiters.has := hMoved
    obtain ⟨hKeys, hSettled, hClaims, hTaken⟩ := desk_offer (s.new.instances 0) job parcel
    have hSplit : s.transfer.buffer = job.entry ::ₘ ↑(rest.map Job.entry) := by
      simp only [transfer, hBuffer, hSome, List.map_cons]
      rfl
    have hGiven := h.give (offer (s.new.instances 0) job parcel).desk hSplit ?_ ?_ ?_ ?_
    · rw [hNew, hTake] at hGiven
      have hSame : transfer { s with
          new := s.new.withInstance 0 (offer (s.new.instances 0) job parcel)
          stage := .pushing (s.old.current job) false { parcel with pending := rest } } =
          ⟨s.transfer.old, ⟨s.new.roster.accepted, job.entry ::ₘ s.new.roster.unfinished,
            s.new.roster.ended, (offer (s.new.instances 0) job parcel).desk⟩,
            ↑(rest.map Job.entry), parcel.claimWaiters.has, s.transfer.waiting⟩ := by
        simp only [transfer, HandOverStage.buffer, HandOverStage.moved, HandOverStage.inFlight,
          Roster.plus, List.map_cons, List.map_nil, Multiset.coe_singleton, Multiset.singleton_add]
        simp only [RedisSystem.roster, RedisSystem.withInstance, Function.update_self]
        rfl
      exact hSame ▸ hGiven
    · rw [hNew]
      exact hKeys
    · rw [hNew]
      exact hSettled
    · rw [hNew]
      exact hClaims
    · intro hHas
      rw [hTake] at hHas
      exact hTaken hHas

end HandOver

end OrchestraAI.Queue
