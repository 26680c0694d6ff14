import OrchestraAI.Queue.Redis

/-! # What a step of the Redis provider can do

One inversion lemma for every step that serves an item: the item it takes, the
conditions it needs and the state it leaves. The invariants read these and never
unfold a step.

Durability of the Redis provider: a job whose `enqueue` has returned stays in the pending list or the processing
hash until its outcome is decided, over all runs that never start a backoff: the
retry path and the reclaim path both delete the record first and requeue the job
from a timer of their own process.
-/

namespace OrchestraAI.Queue

structure BaseJobQueue.SameElsewhere (q r : BaseJobQueue) : Prop where
  closed : q.closed = r.closed
  claimWaiters : q.claimWaiters = r.claimWaiters
  claimSettlements : q.claimSettlements = r.claimSettlements

namespace RedisSystem

open WorkBag

variable {s t : RedisSystem}

theorem pushed_inv {k : Nat} (h : s.pushed k = some t) :
    ∃ i job first, s.bag[k]? = some ⟨i, .push job first⟩ ∧
      t = { s.turnInto k i [] with
        pending := s.pending ++ [job]
        accepted := if first then s.accepted ++ [job] else s.accepted } := by
  obtain ⟨⟨i, w⟩, hItem, h⟩ := Option.bind_eq_some_iff.mp h
  cases w with
  | push job first => exact ⟨i, job, first, hItem, (Option.some.inj h).symm⟩
  | _ => cases h

theorem claim_inv {i now leaseToken : Nat} (h : s.claim i now leaseToken = some t) :
    ∃ job rest, s.pending = job :: rest ∧
      ((s.processing.has job.id = true ∧ t = { s with pending := rest ++ [job] }) ∨
       (s.processing.has job.id = false ∧ leaseToken ∉ s.tokens ∧
        ∃ raw duration, raw.job = job ∧ raw.leaseToken = leaseToken ∧
          t = { (s.addWork i (.task ⟨job, ⟨leaseToken, duration, raw⟩, .claimed, true,
              none⟩)).record [.claimed job.id] with
            pending := rest
            processing := s.processing.set job.id raw
            tokens := leaseToken :: s.tokens })) := by
  unfold claim at h
  split at h
  · rename_i hGuard
    split at h
    · cases h
    · rename_i job rest hPending
      refine ⟨job, rest, hPending, ?_⟩
      split at h
      · rename_i hHas
        exact .inl ⟨hHas, (Option.some.inj h).symm⟩
      · rename_i hHas
        exact .inr ⟨Bool.eq_false_iff.mpr hHas, hGuard.2, _, _, rfl, rfl,
          (Option.some.inj h).symm⟩
  · cases h

theorem start_inv {k : Nat} (h : s.start k = some t) :
    ∃ i task, s.bag[k]? = some ⟨i, .task task⟩ ∧ task.phase = .claimed ∧
      ((t = ((s.turnInto k i [.task { task with phase := .running }]).withInstance i
          ({ s.instances i with running := (s.instances i).running + 1 }.notifyClaim
            task.job.id)).record [.started task.job.id]) ∨
       t = s.turnInto k i
          [.task { task with phase := .releasing .unhandled task.lease.raw none }]) := by
  obtain ⟨⟨i, w⟩, hItem, h⟩ := Option.bind_eq_some_iff.mp h
  cases w with
  | task task =>
    dsimp only at h
    split at h
    · rename_i hPhase
      refine ⟨i, task, hItem, hPhase, ?_⟩
      split at h
      · exact .inl (Option.some.inj h).symm
      · exact .inr (Option.some.inj h).symm
    · cases h
  | _ => cases h

theorem renewSent_inv {k now : Nat} (h : s.renewSent k now = some t) :
    ∃ i task next, s.bag[k]? = some ⟨i, .task task⟩ ∧ task.phase = .running ∧
      task.renewal = none ∧ next.job = task.job ∧ next.leaseToken = task.lease.token ∧
      t = s.turnInto k i [.task { task with renewal := some ⟨task.lease.raw, next, none⟩ }] := by
  obtain ⟨⟨i, w⟩, hItem, h⟩ := Option.bind_eq_some_iff.mp h
  cases w with
  | task task =>
    obtain ⟨⟨hPhase, -, hNone⟩, rfl⟩ := Option.ite_some_none_eq_some.mp h
    exact ⟨i, task, _, hItem, hPhase, Option.isNone_iff_eq_none.mp hNone, rfl, rfl, rfl⟩
  | _ => cases h

theorem renewRun_inv {k : Nat} (h : s.renewRun k = some t) :
    ∃ i task expected next, s.bag[k]? = some ⟨i, .task task⟩ ∧
      task.renewal = some ⟨expected, next, none⟩ ∧
      ∃ reply, reply = compareAndSetHash s.processing task.job.id expected next ∧
      t = { s.turnInto k i [.task { task with
          renewal := some ⟨expected, next, some reply.1⟩ }] with
        processing := reply.2 } := by
  obtain ⟨⟨i, w⟩, hItem, h⟩ := Option.bind_eq_some_iff.mp h
  cases w with
  | task task =>
    dsimp only at h
    split at h
    · rename_i expected next hRenewal
      exact ⟨i, task, expected, next, hItem, hRenewal, _, rfl, (Option.some.inj h).symm⟩
    · cases h
  | _ => cases h

theorem renewReplied_inv {k : Nat} (h : s.renewReplied k = some t) :
    ∃ i task expected next ok, s.bag[k]? = some ⟨i, .task task⟩ ∧
      task.renewal = some ⟨expected, next, some ok⟩ ∧
      ∃ raw renewing, (raw = next ∨ raw = task.lease.raw) ∧
        t = s.turnInto k i [.task { task with
          lease := { task.lease with raw := raw }
          renewing := renewing
          renewal := none }] := by
  obtain ⟨⟨i, w⟩, hItem, h⟩ := Option.bind_eq_some_iff.mp h
  cases w with
  | task task =>
    dsimp only at h
    split at h
    · rename_i expected next ok hRenewal
      refine ⟨i, task, expected, next, ok, hItem, hRenewal, ?_⟩
      cases ok with
      | true => exact ⟨next, task.renewing, .inl rfl, (Option.some.inj h).symm⟩
      | false => exact ⟨task.lease.raw, false, .inr rfl, (Option.some.inj h).symm⟩
    · cases h
  | _ => cases h

theorem handlerSettled_inv {k : Nat} {outcome : Outcome}
    (h : s.handlerSettled k outcome = some t) :
    ∃ i task, s.bag[k]? = some ⟨i, .task task⟩ ∧ task.phase = .running ∧
      t = (s.turnInto k i [.task { task with
          phase := .releasing (.handled outcome) task.lease.raw none
          renewing := false }]).record (if s.Wins task outcome then [.won task.job.id] else []) := by
  obtain ⟨⟨i, w⟩, hItem, h⟩ := Option.bind_eq_some_iff.mp h
  cases w with
  | task task =>
    obtain ⟨hPhase, rfl⟩ := Option.ite_some_none_eq_some.mp h
    exact ⟨i, task, hItem, hPhase, rfl⟩
  | _ => cases h

theorem released_inv {k : Nat} (h : s.released k = some t) :
    ∃ i task verdict expected, s.bag[k]? = some ⟨i, .task task⟩ ∧
      task.phase = .releasing verdict expected none ∧
      ∃ reply, reply = compareAndDeleteHash s.processing task.job.id expected ∧
      t = { (s.turnInto k i [.task { task with
          phase := .releasing verdict expected (some reply.1) }]).record
          (if final (s.instances i) task.job verdict then [.decided task.job.id] else []) with
        processing := reply.2 } := by
  obtain ⟨⟨i, w⟩, hItem, h⟩ := Option.bind_eq_some_iff.mp h
  cases w with
  | task task =>
    dsimp only at h
    split at h
    · rename_i verdict expected hPhase
      split at h
      · cases h
      · exact ⟨i, task, verdict, expected, hItem, hPhase, _, rfl, (Option.some.inj h).symm⟩
    · cases h
  | _ => cases h

theorem concluded_inv {k now : Nat} (h : s.concluded k now = some t) :
    ∃ i task verdict expected ok, s.bag[k]? = some ⟨i, .task task⟩ ∧
      task.phase = .releasing verdict expected (some ok) ∧
      ((∃ result, verdict = .handled (.success result) ∧
        t = ((s.turnInto k i []).withInstance i
          ({ s.instances i with running := (s.instances i).running - 1 }.afterSuccess
            task.job result now)).record [.completed task.job.id]) ∨
       ((∀ result, verdict ≠ .handled (.success result)) ∧ ∃ (q : BaseJobQueue) (err : JobError),
        q.inflightKeys = (s.instances i).inflightKeys ∧ q.SameElsewhere (s.instances i) ∧
        t = ((s.turnInto k i []).withInstance i (q.failTerminally task.job err now)).record
          [.failed task.job.id]) ∨
       (∃ err, verdict = .handled (.failure err) ∧
        (s.instances i).willRetry task.job err = true ∧ ∃ q : BaseJobQueue,
        q.inflightKeys = (s.instances i).inflightKeys ∧ q.SameElsewhere (s.instances i) ∧
        t = (s.turnInto k i [.retryTimer
          { task.job with attempts := task.job.attempts + 1 } err]).withInstance i q)) := by
  obtain ⟨⟨i, w⟩, hItem, h⟩ := Option.bind_eq_some_iff.mp h
  cases w with
  | task task =>
    dsimp only at h
    split at h
    · rename_i verdict expected ok hPhase
      refine ⟨i, task, verdict, expected, ok, hItem, hPhase, ?_⟩
      split at h
      · refine .inr (.inl ⟨by simp, _, _, ?_, ?_, (Option.some.inj h).symm⟩)
        · rfl
        · exact ⟨rfl, rfl, rfl⟩
      · rename_i result
        exact .inl ⟨result, rfl, (Option.some.inj h).symm⟩
      · rename_i err
        rcases BaseJobQueue.afterFailure_cases
            { s.instances i with running := (s.instances i).running - 1 } task.job err now with
          ⟨hRetry, hAfter⟩ | ⟨-, dead, hAfter⟩
        · rw [hAfter] at h
          refine .inr (.inr ⟨err, rfl, hRetry, _, ?_, ?_, (Option.some.inj h).symm⟩)
          · rfl
          · exact ⟨rfl, rfl, rfl⟩
        · rw [hAfter] at h
          refine .inr (.inl ⟨by simp, _, err, ?_, ?_, (Option.some.inj h).symm⟩)
          · rfl
          · exact ⟨rfl, rfl, rfl⟩
    · cases h
  | _ => cases h

theorem retryElapsed_inv {k now : Nat} (h : s.retryElapsed k now = some t) :
    ∃ i job err, s.bag[k]? = some ⟨i, .retryTimer job err⟩ ∧
      (t = (s.turnInto k i []).failJob i job err now ∨ t = s.turnInto k i [.push job false]) := by
  obtain ⟨⟨i, w⟩, hItem, h⟩ := Option.bind_eq_some_iff.mp h
  cases w with
  | retryTimer job err =>
    refine ⟨i, job, err, hItem, ?_⟩
    dsimp only at h
    split at h
    · exact .inl (Option.some.inj h).symm
    · exact .inr (Option.some.inj h).symm
  | _ => cases h

theorem reclaimScan_inv {i now : Nat} (h : s.reclaimScan i now = some t) :
    ∃ items, (∀ item ∈ items, ∃ id raw, item = ⟨i, .stale id raw⟩ ∧
      s.processing.get id = some raw) ∧ t = { s with bag := s.bag ++ items } := by
  unfold reclaimScan at h
  split at h
  · cases h
  · refine ⟨_, ?_, (Option.some.inj h).symm⟩
    intro item hItem
    obtain ⟨e, he, rfl⟩ := List.mem_map.mp hItem
    exact ⟨e.1, e.2, rfl, (OrderedMap.mem_entries_iff _ _ _).mp (List.mem_filter.mp he).1⟩

theorem reclaimRun_inv {k : Nat} (h : s.reclaimRun k = some t) :
    ∃ i id raw, s.bag[k]? = some ⟨i, .stale id raw⟩ ∧
      ((s.processing.get id = some raw ∧
        t = { (s.turnInto k i [.reclaimed raw.job]).record
            (if requeueable (s.instances i) raw.job then [] else [.decided id]) with
          processing := s.processing.delete id }) ∨
       (s.processing.get id ≠ some raw ∧ t = s.turnInto k i [])) := by
  obtain ⟨⟨i, w⟩, hItem, h⟩ := Option.bind_eq_some_iff.mp h
  cases w with
  | stale id raw =>
    refine ⟨i, id, raw, hItem, ?_⟩
    dsimp only [compareAndDeleteHash] at h
    by_cases hSame : s.processing.get id = some raw
    · rw [if_pos hSame] at h
      exact .inl ⟨hSame, (Option.some.inj h).symm⟩
    · rw [if_neg hSame] at h
      exact .inr ⟨hSame, (Option.some.inj h).symm⟩
  | _ => cases h

theorem reclaimContinues_inv {k now : Nat} (h : s.reclaimContinues k now = some t) :
    ∃ i job q, s.bag[k]? = some ⟨i, .reclaimed job⟩ ∧
      q.inflightKeys = (s.instances i).inflightKeys ∧ q.closed = (s.instances i).closed ∧
      ((requeueable (s.instances i) job = true ∧
        t = (s.turnInto k i [.requeueTimer { job with attempts := job.attempts + 1 }]).withInstance
          i q) ∨
       (requeueable (s.instances i) job = false ∧
        t = ((s.turnInto k i []).withInstance i q).failJob i job (workerLost job) now)) := by
  obtain ⟨⟨i, w⟩, hItem, h⟩ := Option.bind_eq_some_iff.mp h
  cases w with
  | reclaimed job =>
    dsimp only at h
    split at h
    · rename_i hRequeue
      refine ⟨i, job, _, hItem, ?_, ?_, .inl ⟨hRequeue, (Option.some.inj h).symm⟩⟩ <;> rfl
    · rename_i hRequeue
      refine ⟨i, job, _, hItem, ?_, ?_,
        .inr ⟨Bool.eq_false_iff.mpr hRequeue, (Option.some.inj h).symm⟩⟩ <;> rfl
  | _ => cases h

theorem requeueElapsed_inv {k now : Nat} (h : s.requeueElapsed k now = some t) :
    ∃ i job err, s.bag[k]? = some ⟨i, .requeueTimer job⟩ ∧
      (t = (s.turnInto k i []).failJob i job err now ∨ t = s.turnInto k i [.push job false]) := by
  obtain ⟨⟨i, w⟩, hItem, h⟩ := Option.bind_eq_some_iff.mp h
  cases w with
  | requeueTimer job =>
    dsimp only at h
    split at h
    · exact ⟨i, job, _, hItem, .inl (Option.some.inj h).symm⟩
    · exact ⟨i, job, ⟨"", ""⟩, hItem, .inr (Option.some.inj h).symm⟩
  | _ => cases h

/-- An `enqueue` changes one instance and, when it is accepted, sends a push. -/
theorem enqueue_cases (i : Nat) (opts : EnqueueOptions) (wait : Bool) (id : JobId) (now : Nat) :
    (∃ q, q.inflightKeys = (s.instances i).inflightKeys ∧ q.closed = (s.instances i).closed ∧
      s.enqueue i opts wait id now = s.withInstance i q) ∨
    (∃ q, (∀ k, (opts.toJob id now).key = some k → (s.instances i).inflightKeys.get k = none) ∧
      (q.inflightKeys = match (opts.toJob id now).key with
        | none => (s.instances i).inflightKeys
        | some k => (s.instances i).inflightKeys.set k id) ∧
      q.closed = (s.instances i).closed ∧
      s.enqueue i opts wait id now =
        { (s.withInstance i q).addWork i (.push (opts.toJob id now) true) with
          issued := s.issued ++ [(i, opts.toJob id now)] }) := by
  unfold enqueue
  split
  · rename_i job base hNorm
    obtain ⟨rfl, hFree, hBase⟩ := BaseJobQueue.normalizeEnqueue_job hNorm
    have hKeys := congrArg BaseJobQueue.inflightKeys hBase
    have hClosed : base.closed = (s.instances i).closed := by rw [hBase]
    let waiters := if wait then base.waiters.set id .enqueueAndWait else base.waiters
    exact .inr ⟨{ base with waiters := waiters }, hFree, hKeys, hClosed, rfl⟩
  · rename_i r base hr hNorm
    have hBase := BaseJobQueue.normalizeEnqueue_refused hNorm hr
    refine .inl ⟨base, ?_, ?_, rfl⟩
    · rw [hBase]
    · rw [hBase]

open WorkBag

def Terminal (s : RedisSystem) (id : JobId) : Prop :=
  .decided id ∈ s.log ∨ .completed id ∈ s.log ∨ .failed id ∈ s.log

instance (s : RedisSystem) (id : JobId) : Decidable (s.Terminal id) :=
  inferInstanceAs (Decidable (_ ∨ _ ∨ _))

def InRedis (s : RedisSystem) (id : JobId) : Prop :=
  id ∈ s.pending.map Job.id ∨ id ∈ s.processing.keys

def Durable (s : RedisSystem) : Prop :=
  ∀ job ∈ s.accepted, ¬ s.Terminal job.id → s.InRedis job.id

/-- Redis is about to delete the record of a job that is to be requeued after a backoff. -/
def StartsBackoff (s : RedisSystem) (item : Item) : Prop :=
  match item.work with
  | .task task => match task.phase with
    | .releasing verdict expected none =>
      s.processing.get task.job.id = some expected ∧
        final (s.instances item.worker) task.job verdict = false
    | _ => False
  | .stale id raw =>
    s.processing.get id = some raw ∧ requeueable (s.instances item.worker) raw.job = true
  | _ => False

instance (s : RedisSystem) (item : Item) : Decidable (s.StartsBackoff item) := by
  unfold StartsBackoff
  split
  · split <;> infer_instance
  · infer_instance
  · infer_instance

def KeepsRecord (s : RedisSystem) : RedisLabel → Prop
  | .released k => ∀ item ∈ s.bag[k]?, ¬ s.StartsBackoff item
  | .reclaimRun k => ∀ item ∈ s.bag[k]?, ¬ s.StartsBackoff item
  | _ => True

instance (s : RedisSystem) (l : RedisLabel) : Decidable (s.KeepsRecord l) := by
  cases l <;> unfold KeepsRecord <;> infer_instance

variable {s t : RedisSystem}

def Found (s : RedisSystem) : Prop := ∀ job ∈ s.accepted, s.InRedis job.id ∨ s.Terminal job.id

theorem Terminal.mono {j : JobId} (h : s.Terminal j) (hLog : ∀ e ∈ s.log, e ∈ t.log) :
    t.Terminal j := h.imp (hLog _) (Or.imp (hLog _) (hLog _))

theorem Found.same (h : Found s)
    (hRedis : (t.pending, t.processing, t.accepted) = (s.pending, s.processing, s.accepted))
    (hLog : ∀ e ∈ s.log, e ∈ t.log) : Found t := by
  simp only [Prod.mk.injEq] at hRedis
  obtain ⟨hPending, hHash, hAcc⟩ := hRedis
  intro job hJob
  rcases h job (hAcc ▸ hJob) with hIn | hEnd
  · exact .inl (by rwa [InRedis, hPending, hHash])
  · exact .inr (hEnd.mono hLog)

theorem Found.pushed (h : Found s) {job : Job} {first : Bool} (ht : t = { s with
    bag := t.bag
    pending := s.pending ++ [job]
    accepted := if first then s.accepted ++ [job] else s.accepted }) : Found t := by
  rw [ht]
  have hOld : ∀ j ∈ s.accepted, j.id ∈ (s.pending ++ [job]).map Job.id ∨
      j.id ∈ s.processing.keys ∨ s.Terminal j.id := by
    intro j hj
    rw [List.map_append, List.mem_append]
    rcases h j hj with (hIn | hIn) | hEnd
    · exact .inl (.inl hIn)
    · exact .inr (.inl hIn)
    · exact .inr (.inr hEnd)
  intro j hj
  refine or_assoc.mpr ?_
  cases first with
  | false => exact hOld j hj
  | true =>
    rcases List.mem_append.mp hj with hj | hj
    · exact hOld j hj
    · rw [List.mem_singleton.mp hj]
      exact .inl (by simp)

theorem Found.claimed (h : Found s) {job : Job} {rest : List Job} {raw : ProcessingRecord}
    (hPending : s.pending = job :: rest) (ht : t.pending = rest)
    (hHash : t.processing = s.processing.set job.id raw) (hAcc : t.accepted = s.accepted)
    (hLog : ∀ e ∈ s.log, e ∈ t.log) : Found t := by
  intro j hj
  unfold InRedis
  rw [hHash, OrderedMap.mem_keys_set, ht]
  rcases h j (hAcc ▸ hj) with (hIn | hIn) | hEnd
  · rw [hPending, List.map_cons, List.mem_cons] at hIn
    exact .inl (hIn.symm.imp_right .inl)
  · exact .inl (.inr (.inr hIn))
  · exact .inr (hEnd.mono hLog)

/-- The record of `gone` is deleted; `gone` must be terminal by then. -/
theorem Found.deleted (h : Found s) {g : JobId}
    (hRedis : (t.pending, t.accepted) = (s.pending, s.accepted))
    (hHash : t.processing = s.processing.delete g) (hLog : ∀ e ∈ s.log, e ∈ t.log)
    (hGone : t.Terminal g) : Found t := by
  simp only [Prod.mk.injEq] at hRedis
  intro j hj
  unfold InRedis
  rw [hRedis.1, hHash, OrderedMap.mem_keys_delete]
  by_cases hid : j.id = g
  · exact .inr (hid ▸ hGone)
  · rcases h j (hRedis.2 ▸ hj) with (hIn | hIn) | hEnd
    · exact .inl (.inl hIn)
    · exact .inl (.inr ⟨hid, hIn⟩)
    · exact .inr (hEnd.mono hLog)

theorem found_step (s : RedisSystem) (l : RedisLabel) (t : RedisSystem) (h : Found s)
    (hok : s.KeepsRecord l) (hs : step s l = some t) : Found t := by
  cases l with
  | on i type => cases hs; exact h.same rfl fun _ => id
  | enqueue i opts wait id now =>
    obtain ⟨-, rfl⟩ := Option.ite_some_none_eq_some.mp hs
    rcases enqueue_cases (s := s) i opts wait id now with ⟨q, -, -, ht⟩ | ⟨q, -, -, -, ht⟩
    · exact ht ▸ h.same rfl fun _ hm => hm
    · exact ht ▸ h.same rfl fun _ hm => hm
  | claimRegistered i id => cases hs; exact h.same rfl fun _ hm => hm
  | waitTimedOut i id =>
    obtain ⟨-, rfl⟩ := Option.ite_some_none_eq_some.mp hs
    exact h.same rfl fun _ hm => hm
  | pushed k =>
    obtain ⟨i, job, first, -, rfl⟩ := pushed_inv hs
    exact h.pushed rfl
  | claim i now leaseToken =>
    obtain ⟨job, rest, hPending, ⟨-, rfl⟩ | ⟨-, -, raw, duration, -, -, rfl⟩⟩ := claim_inv hs
    · intro j hj
      refine (h j hj).imp_left (Or.imp_left fun hIn => ?_)
      rw [hPending, List.map_cons, List.mem_cons] at hIn
      rw [List.map_append, List.mem_append]
      exact hIn.symm.imp_right List.mem_singleton.mpr
    · exact h.claimed hPending rfl rfl rfl fun _ => List.mem_cons_of_mem _
  | start k =>
    obtain ⟨i, task, -, -, rfl | rfl⟩ := start_inv hs
    · exact h.same rfl fun _ => List.mem_cons_of_mem _
    · exact h.same rfl fun _ => id
  | renewSent k now =>
    obtain ⟨i, task, next, -, -, -, -, -, rfl⟩ := renewSent_inv hs
    exact h.same rfl fun _ => id
  | renewRun k =>
    obtain ⟨i, task, expected, next, -, -, reply, hReply, rfl⟩ := renewRun_inv hs
    intro j hj
    refine (h j hj).imp_left (Or.imp_right fun hIn => ?_)
    simp only [hReply, compareAndSetHash]
    split
    · exact (OrderedMap.mem_keys_set ..).mpr (.inr hIn)
    · exact hIn
  | renewReplied k =>
    obtain ⟨i, task, expected, next, ok, -, -, raw, renewing, -, rfl⟩ := renewReplied_inv hs
    exact h.same rfl fun _ => id
  | handlerSettled k outcome =>
    obtain ⟨i, task, -, -, rfl⟩ := handlerSettled_inv hs
    exact h.same rfl fun _ => List.mem_append_right _
  | released k =>
    obtain ⟨i, task, verdict, expected, hItem, hPhase, reply, hReply, rfl⟩ := released_inv hs
    by_cases hSame : s.processing.get task.job.id = some expected
    · have hFinal : final (s.instances i) task.job verdict = true := by
        have hKeep := hok _ hItem
        simp only [StartsBackoff, hPhase, hSame, true_and] at hKeep
        exact Bool.eq_true_of_not_eq_false hKeep
      refine h.deleted (g := task.job.id) rfl ?_ (fun _ => List.mem_append_right _) (.inl ?_)
      · simp only [hReply, compareAndDeleteHash, if_pos hSame]
      · simp [record, hFinal]
    · refine h.same ?_ fun _ => List.mem_append_right _
      simp only [hReply, compareAndDeleteHash, if_neg hSame]
      rfl
  | concluded k now =>
    obtain ⟨i, task, verdict, expected, ok, -, -, hCase⟩ := concluded_inv hs
    rcases hCase with ⟨result, -, rfl⟩ | ⟨-, q, err, -, -, rfl⟩ | ⟨err, -, -, q, -, -, rfl⟩
    · exact h.same rfl fun _ => List.mem_cons_of_mem _
    · exact h.same rfl fun _ => List.mem_cons_of_mem _
    · exact h.same rfl fun _ => id
  | retryElapsed k now =>
    obtain ⟨i, job, err, -, rfl | rfl⟩ := retryElapsed_inv hs
    · exact h.same rfl fun _ => List.mem_cons_of_mem _
    · exact h.same rfl fun _ => id
  | reclaimScan i now =>
    obtain ⟨items, -, rfl⟩ := reclaimScan_inv hs
    exact h.same rfl fun _ => id
  | reclaimRun k =>
    obtain ⟨i, gone, raw, hItem, ⟨hSame, rfl⟩ | ⟨-, rfl⟩⟩ := reclaimRun_inv hs
    · have hLost : requeueable (s.instances i) raw.job = false := by
        have hKeep := hok _ hItem
        simp only [StartsBackoff, hSame, true_and] at hKeep
        exact Bool.eq_false_of_not_eq_true hKeep
      refine h.deleted (g := gone) rfl rfl (fun _ => List.mem_append_right _) (.inl ?_)
      simp [record, hLost]
    · exact h.same rfl fun _ => id
  | reclaimContinues k now =>
    obtain ⟨i, job, q, -, -, -, ⟨-, rfl⟩ | ⟨-, rfl⟩⟩ := reclaimContinues_inv hs
    · exact h.same rfl fun _ => id
    · exact h.same rfl fun _ => List.mem_cons_of_mem _
  | requeueElapsed k now =>
    obtain ⟨i, job, err, -, rfl | rfl⟩ := requeueElapsed_inv hs
    · exact h.same rfl fun _ => List.mem_cons_of_mem _
    · exact h.same rfl fun _ => id
  | restart i concurrency => cases hs; exact h.same rfl fun _ => id
  | closeCalled i => cases hs; exact h.same rfl fun _ => id
  | closeReturned i rejectWaiters => cases hs; exact h.same rfl fun _ => id

/-- Durability over the runs that keep away from the backoff paths. -/
theorem durability (h : LabelledSystem.Reach step KeepsRecord Start s) : Durable s := by
  have hFound : Found s := by
    refine h.invariant ?_ found_step
    rintro _ ⟨c, v, rfl⟩ job hJob
    cases hJob
  exact fun job hJob hOpen => (hFound job hJob).resolve_right hOpen

def completionLabels : List RedisLabel :=
  [.on 0 "crawl", .enqueue 0 { type := "crawl" } false 1 0, .pushed 0, .claim 0 0 7, .start 0,
    .handlerSettled 0 (.success "done"), .released 0, .concluded 0 5,
    .enqueue 0 { type := "crawl" } false 2 6, .pushed 0, .claim 0 6 8, .start 0,
    .handlerSettled 0 (.failure ⟨"bad_params", "no address"⟩), .released 0, .concluded 0 9,
    .enqueue 0 { type := "crawl" } false 3 10, .pushed 0]

theorem durability_completion :
    ∃ s, LabelledSystem.run step (create (fun _ => 1) fun _ => 60000) completionLabels = some s ∧
      s.accepted.map Job.id = [1, 2, 3] ∧ s.Terminal 1 ∧ s.Terminal 2 ∧ ¬ s.Terminal 3 ∧
        Durable s := by
  have hRun : (LabelledSystem.run step (create (fun _ => 1) fun _ => 60000)
      completionLabels).map (fun s => (s.accepted.map Job.id, decide (s.Terminal 1),
        decide (s.Terminal 2), decide (s.Terminal 3))) = some ([1, 2, 3], true, true, false) := by
    decide
  obtain ⟨s, hs, hEnd⟩ := Option.map_eq_some_iff.mp hRun
  simp only [Prod.mk.injEq, decide_eq_true_eq, decide_eq_false_iff_not] at hEnd
  obtain ⟨hAccepted, hFirst, hSecond, hThird⟩ := hEnd
  refine ⟨s, hs, hAccepted, hFirst, hSecond, hThird,
    durability ((LabelledSystem.Reach.start ⟨_, _, rfl⟩).run hs ?_)⟩
  decide

/-- After a retryable failure the job is in a timer of its worker and nowhere in Redis. -/
theorem backoff_outside_redis :
    ¬ ∀ s, LabelledSystem.Reach step LabelledSystem.Anything Start s → Durable s := by
  intro h
  have hRun : (LabelledSystem.run step (create (fun _ => 1) fun _ => 60000)
      [.on 0 "crawl", .enqueue 0 { type := "crawl" } false 1 0, .pushed 0, .claim 0 0 7, .start 0,
        .handlerSettled 0 (.failure ⟨"network", "reset"⟩), .released 0, .concluded 0 5]).map
      (fun s => (s.accepted.map Job.id, decide (s.Terminal 1), s.pending.map Job.id,
        s.processing.keys)) = some ([1], false, [], []) := by decide
  obtain ⟨s, hs, hEnd⟩ := Option.map_eq_some_iff.mp hRun
  simp only [Prod.mk.injEq, decide_eq_false_iff_not] at hEnd
  obtain ⟨hAccepted, hOpen, hPending, hHash⟩ := hEnd
  obtain ⟨job, hJob, hid⟩ := List.mem_map.mp (hAccepted ▸ List.mem_cons_self : 1 ∈ _)
  rcases h s (LabelledSystem.reach_of_run ⟨_, _, rfl⟩ hs) job hJob (hid ▸ hOpen) with hIn | hIn
  · rw [hPending] at hIn; cases hIn
  · rw [hHash] at hIn; cases hIn

end RedisSystem

end OrchestraAI.Queue
