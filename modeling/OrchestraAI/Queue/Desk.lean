import OrchestraAI.Queue.RedisLocal
import OrchestraAI.Queue.RedisSteps
import OrchestraAI.Queue.Roster

/-! # The rosters of the Redis provider

How the desk of `BaseJobQueue` and the rosters of the two forms of `RedisJobQueue` are read off
their states, and that their steps are changes of a roster. The reclaim passes are left out.
-/

namespace OrchestraAI.Queue

open Rosters WorkBag

def Job.entry (job : Job) : Entry := (job.id, job.key)

namespace BaseJobQueue

def desk (q : BaseJobQueue) : Desk where
  keys := q.inflightKeys.get
  claims := q.claimWaiters.has
  settled id := (q.claimSettlements.map Prod.fst).contains id

theorem desk_eq {d : Desk} {q : BaseJobQueue} (hKeys : ∀ k, q.inflightKeys.get k = d.keys k)
    (hClaims : ∀ id, q.claimWaiters.has id = d.claims id)
    (hSettled : ∀ id, (q.claimSettlements.map Prod.fst).contains id = d.settled id) :
    q.desk = d := by
  cases d
  simp only [desk, Desk.mk.injEq]
  exact ⟨funext hKeys, funext hClaims, funext hSettled⟩

theorem has_delete (m : OrderedMap JobId Unit) (id j : JobId) :
    (m.delete id).has j = Function.update m.has id false j := by
  rw [Function.update_apply, OrderedMap.has, OrderedMap.get_delete]
  split <;> rfl

theorem has_set (m : OrderedMap JobId Unit) (id j : JobId) :
    (m.set id ()).has j = Function.update m.has id true j := by
  rw [Function.update_apply, OrderedMap.has, OrderedMap.get_set]
  split <;> rfl

theorem settled_of (l : List (JobId × ClaimOutcome)) (c : Bool) (id j : JobId)
    (o : ClaimOutcome) (claims : JobId → Bool) (hc : c = claims id) :
    ((if c then l ++ [(id, o)] else l).map Prod.fst).contains j =
      ((l.map Prod.fst).contains j || (decide (j = id) && claims j)) := by
  cases hClaim : c with
  | false =>
    by_cases hj : j = id
    · simp [hj, ← hc, hClaim]
    · simp [hj]
  | true =>
    by_cases hj : j = id
    · simp [hj, ← hc, hClaim]
    · simp [hj]

theorem desk_same {q r : BaseJobQueue} (hKeys : q.inflightKeys = r.inflightKeys)
    (hElse : q.SameElsewhere r) : q.desk = r.desk := by
  simp only [desk, hKeys, hElse.claimWaiters, hElse.claimSettlements]

variable (q : BaseJobQueue)

theorem desk_notifyClaim (id : JobId) : (q.notifyClaim id).desk = q.desk.settle id :=
  desk_eq (fun _ => rfl) (fun j => has_delete q.claimWaiters id j)
    fun j => settled_of q.claimSettlements _ id j _ q.claimWaiters.has rfl

theorem desk_settleWaiter (id : JobId) (o : Outcome) (now : Nat) :
    (q.settleWaiter id o now).desk = q.desk.settle id :=
  desk_eq (fun _ => rfl) (fun j => has_delete q.claimWaiters id j)
    fun j => settled_of q.claimSettlements _ id j _ q.claimWaiters.has rfl

theorem desk_releaseKey (job : Job) : (q.releaseKey job).desk = q.desk.release job.key := by
  refine desk_eq (fun k => ?_) (fun id => ?_) fun id => ?_
  · rw [releaseKey_get]
    cases hKey : job.key with
    | none => simp [Desk.release, desk]
    | some j =>
      simp only [Desk.release, Function.update_apply, Option.some.injEq, eq_comm, desk]
  · rw [Desk.release_claims]
    rfl
  · rw [Desk.release_settled]
    rfl

theorem desk_failTerminally (job : Job) (err : JobError) (now : Nat) :
    (q.failTerminally job err now).desk = (q.desk.release job.key).settle job.id := by
  rw [failTerminally, desk_settleWaiter, desk_releaseKey]
  rfl

theorem desk_afterSuccess (job : Job) (result : String) (now : Nat) :
    (q.afterSuccess job result now).desk = (q.desk.release job.key).settle job.id := by
  unfold afterSuccess
  rw [desk_settleWaiter]
  cases job.dedupeCompleted with
  | true =>
    have hSame : (({ q with processed := q.processed + 1 }.releaseKey job).rememberCompleted
        job.idempotencyKey now).desk = (q.releaseKey job).desk := rfl
    rw [← q.desk_releaseKey job, ← hSame]
    rfl
  | false =>
    rw [← q.desk_releaseKey job]
    rfl

theorem desk_registerClaim (id : JobId) :
    (q.registerClaim id).desk =
      if (q.settledCache.get id).isNone then q.desk.register id else q.desk := by
  unfold registerClaim
  cases q.settledCache.get id with
  | none =>
    rw [if_pos (by rfl)]
    exact desk_eq (fun _ => rfl) (fun j => has_set q.claimWaiters id j) fun _ => rfl
  | some found => rfl

/-- `_normalizeEnqueue` holds the key of the job it accepts. -/
theorem desk_normalizeEnqueue {q' : BaseJobQueue} {opts : EnqueueOptions} {id : JobId} {now : Nat}
    {job : Job} (h : q.normalizeEnqueue opts id now = (.job job, q')) :
    job.id = id ∧ (∀ k, job.key = some k → q.desk.keys k = none) ∧
      q'.desk = q.desk.hold job.key job.id := by
  obtain ⟨rfl, hFree, hBase⟩ := normalizeEnqueue_job h
  refine ⟨rfl, hFree, ?_⟩
  rw [hBase]
  refine desk_eq (fun k => ?_) (fun j => ?_) fun j => ?_
  · cases hKey : (opts.toJob id now).key with
    | none => simp [Desk.hold, desk]
    | some j => simp only [Desk.hold, Function.update_apply, OrderedMap.get_set, desk]
  · rw [Desk.hold_claims]
    rfl
  · rw [Desk.hold_settled]
    rfl

theorem desk_refused {q' : BaseJobQueue} {opts : EnqueueOptions} {id : JobId} {now : Nat}
    {r : Normalized} (h : q.normalizeEnqueue opts id now = (r, q')) (hr : ∀ job, r ≠ .job job) :
    q'.desk = q.desk := by
  rw [normalizeEnqueue_refused h hr]
  rfl

end BaseJobQueue

section Served

variable {α : Type} {f : α → Entry} {l : List α} {k : Nat} {a : α}

theorem map_serve_none (f : α → Entry) (h : l[k]? = some a) :
    (↑(l.map f) : Multiset Entry) = f a ::ₘ ↑((serve l k []).map f) := by
  rw [Multiset.cons_coe, Multiset.coe_eq_coe, ← List.map_cons]
  refine List.Perm.map f ?_
  rw [serve, List.append_nil]
  exact perm_cons_eraseIdx h

theorem map_serve_one {b : α} (h : l[k]? = some a) (hSame : f b = f a) :
    (↑((serve l k [b]).map f) : Multiset Entry) = ↑(l.map f) := by
  have hSplit : serve l k [b] = serve l k [] ++ [b] := by rw [serve, serve, List.append_nil]
  rw [map_serve_none f h, hSplit, List.map_append, ← Multiset.coe_add, List.map_singleton,
    Multiset.coe_singleton, hSame, ← Multiset.singleton_add, add_comm]

theorem coe_flatMap_serve (g : α → List Entry) (ws : List α) (h : l[k]? = some a) :
    (↑((serve l k ws).flatMap g) : Multiset Entry) + ↑(g a) = ↑(l.flatMap g) + ↑(ws.flatMap g) := by
  have hPerm := (perm_cons_eraseIdx h).flatMap_right g
  rw [Multiset.coe_eq_coe.mpr hPerm, List.flatMap_cons, serve, List.flatMap_append]
  simp only [← Multiset.coe_add]
  abel

end Served

namespace RedisLocalQueue

def roster (s : RedisLocalQueue) : Roster where
  accepted := ↑(s.accepted.map Job.id)
  unfinished := ↑(s.pending.map Job.entry) + ↑(s.drain.job.map Job.entry) +
    ↑(s.tasks.map fun task => task.job.entry) + ↑(s.retryTimers.map fun b => b.job.entry) +
    ↑(s.reclaimTimers.map Job.entry)
  ended := ↑(s.completed ++ s.failedJobs)
  desk := s.base.desk

variable {s t : RedisLocalQueue}

/-- The head of the loop of `_drain` takes a job off the list and keeps it. -/
theorem roster_drainNext (s : RedisLocalQueue) :
    s.drainNext.roster = ({ s with drain := .idle } : RedisLocalQueue).roster := by
  unfold drainNext
  split
  · split
    · rfl
    · rename_i job rest hPending
      simp only [roster, DrainPoint.job, hPending, List.map_cons, List.map_nil,
        ← Multiset.cons_coe, Multiset.coe_nil, add_zero, Multiset.cons_add, Multiset.add_cons]
  · rfl

theorem coe_append_singleton {α : Type} (l : List α) (a : α) :
    (↑(l ++ [a]) : Multiset α) = a ::ₘ ↑l := by
  rw [← Multiset.coe_add, Multiset.coe_singleton, add_comm, Multiset.singleton_add]

theorem change_drainStarts (h : s.drainStarts = some t) : s.roster.Change t.roster := by
  obtain ⟨⟨-, hIdle⟩, rfl⟩ := Option.ite_some_none_eq_some.mp h
  rw [roster_drainNext]
  exact .same rfl (by simp only [roster, hIdle]) rfl rfl

theorem change_drainContinues {leaseToken now : Nat}
    (h : s.drainContinues leaseToken now = some t) : s.roster.Change t.roster := by
  unfold drainContinues at h
  split at h
  · cases h
  · rename_i hDrain
    cases h
    exact .same rfl (by simp only [roster, hDrain, DrainPoint.job]) rfl rfl
  · rename_i job hDrain
    cases h
    exact .same rfl (by simp only [roster, hDrain, DrainPoint.job]) rfl rfl
  · rename_i job token hDrain
    split at h
    · cases h
      rw [roster_drainNext]
      refine .settles job.id rfl ?_ rfl (BaseJobQueue.desk_notifyClaim _ _)
      simp only [roster, hDrain, DrainPoint.job, List.map_append, List.map_cons, List.map_nil,
        ← Multiset.coe_add, Multiset.coe_singleton, Multiset.coe_nil]
      abel
    · cases h
      exact .same rfl (by simp only [roster, hDrain, DrainPoint.job]) rfl rfl
  · rename_i job hDrain
    cases h
    rw [roster_drainNext]
    refine .ends (e := job.entry) rfl ?_ ?_ (BaseJobQueue.desk_failTerminally _ _ _ _)
    · simp only [roster, failJob, hDrain, DrainPoint.job, List.map_cons, List.map_nil,
        Multiset.coe_singleton, Multiset.coe_nil, ← Multiset.singleton_add]
      abel
    · simp only [roster, failJob, ← List.append_assoc, coe_append_singleton]
      rfl

theorem change_renew {k now : Nat} (h : s.renew k now = some t) : s.roster.Change t.roster := by
  obtain ⟨task, -, h⟩ := Option.bind_eq_some_iff.mp h
  split at h
  · obtain ⟨-, rfl⟩ := Option.ite_some_none_eq_some.mp h
    exact .idle
  · cases h

theorem change_handlerSettled {k : Nat} {outcome : Outcome}
    (h : s.handlerSettled k outcome = some t) : s.roster.Change t.roster := by
  obtain ⟨task, hTask, h⟩ := Option.bind_eq_some_iff.mp h
  obtain ⟨-, rfl⟩ := Option.ite_some_none_eq_some.mp h
  refine .same rfl ?_ rfl rfl
  have hSame := map_serve_one (f := fun task : LocalTask => task.job.entry)
    (b := { task with outcome := some outcome }) hTask rfl
  simp only [roster, hSame]

theorem change_taskContinues {k now : Nat} (h : s.taskContinues k now = some t) :
    s.roster.Change t.roster := by
  obtain ⟨task, hTask, h⟩ := Option.bind_eq_some_iff.mp h
  have hSplit := map_serve_none (fun task : LocalTask => task.job.entry) hTask
  dsimp only at h
  split at h
  · cases h
  · cases h
    refine .ends (e := task.job.entry) rfl ?_ ?_ (BaseJobQueue.desk_afterSuccess _ _ _ _)
    · simp only [roster, hSplit, ← Multiset.singleton_add]
      abel
    · simp only [roster, ← Multiset.coe_add, Multiset.coe_singleton, ← Multiset.singleton_add]
      rw [add_assoc, add_left_comm]
      rfl
  · rename_i err _
    rcases s.base.afterFailure_cases (s.current task.job) err now with
      ⟨-, hAfter⟩ | ⟨-, dead, hAfter⟩
    · rw [hAfter] at h
      cases h
      refine .same rfl ?_ rfl rfl
      simp only [roster, hSplit, List.map_append, List.map_cons, List.map_nil, ← Multiset.coe_add,
        Multiset.coe_singleton, ← Multiset.singleton_add]
      have hSame : ({ s.current task.job with
          attempts := (s.current task.job).attempts + 1 } : Job).entry = task.job.entry := rfl
      rw [hSame]
      abel
    · rw [hAfter] at h
      cases h
      refine .ends (e := task.job.entry) rfl ?_ ?_ (BaseJobQueue.desk_failTerminally _ _ _ _)
      · simp only [roster, hSplit, ← Multiset.singleton_add]
        abel
      · simp only [roster, ← List.append_assoc, coe_append_singleton]
        rfl

theorem change_slotReleased {k : Nat} (h : s.slotReleased k = some t) :
    s.roster.Change t.roster := by
  obtain ⟨id, -, rfl⟩ := Option.map_eq_some_iff.mp h
  exact .same rfl rfl rfl rfl

theorem change_retryElapsed {k now : Nat} (h : s.retryElapsed k now = some t) :
    s.roster.Change t.roster := by
  obtain ⟨b, hTimer, h⟩ := Option.map_eq_some_iff.mp h
  have hSplit := map_serve_none (fun b : Backoff => b.job.entry) hTimer
  split at h
  · subst h
    refine .ends (e := b.job.entry) rfl ?_ ?_ (BaseJobQueue.desk_failTerminally _ _ _ _)
    · simp only [roster, failJob, hSplit, ← Multiset.singleton_add]
      abel
    · simp only [roster, failJob, ← List.append_assoc, coe_append_singleton]
      rfl
  · subst h
    refine .same rfl ?_ rfl rfl
    simp only [roster, hSplit, List.map_append, List.map_cons, List.map_nil, ← Multiset.coe_add,
      Multiset.coe_singleton, ← Multiset.singleton_add]
    abel

theorem roster_claimRegistered {k : Nat} (h : s.claimRegistered k = some t) :
    ∃ id, s.claiming[k]? = some id ∧
      t.roster = if (s.base.settledCache.get id).isNone then s.roster.register id
        else s.roster := by
  obtain ⟨id, hId, rfl⟩ := Option.map_eq_some_iff.mp h
  refine ⟨id, hId, ?_⟩
  simp only [roster, BaseJobQueue.desk_registerClaim]
  split <;> rfl

theorem roster_claimReturned {k : Nat} (h : s.claimReturned k = some t) :
    ∃ id, s.claimOpen[k]? = some id ∧ t.roster = s.roster.forget id := by
  obtain ⟨id, hId, rfl⟩ := Option.map_eq_some_iff.mp h
  refine ⟨id, hId, ?_⟩
  simp only [roster, Roster.forget, Roster.mk.injEq, true_and]
  exact BaseJobQueue.desk_eq (fun _ => rfl) (fun j => BaseJobQueue.has_delete _ id j) fun _ => rfl

theorem change_waitTimedOut {id : JobId} (h : s.waitTimedOut id = some t) :
    s.roster.Change t.roster := by
  obtain ⟨-, rfl⟩ := Option.ite_some_none_eq_some.mp h
  exact .same rfl rfl rfl rfl

theorem roster_accept (job : Job) (base : BaseJobQueue)
    (hDesk : base.desk = s.base.desk.hold job.key job.id) :
    (s.accept job base).roster = s.roster.accept job.entry := by
  refine Roster.accept_eq ?_ ?_ rfl hDesk
  · simp only [roster, accept, List.map_append, List.map_cons, List.map_nil, coe_append_singleton]
    rfl
  · simp only [roster, accept, List.map_append, List.map_cons, List.map_nil, coe_append_singleton,
      Multiset.cons_add]

end RedisLocalQueue

def Item.entries (item : Item) : List Entry := item.work.jobs.map Job.entry

def Event.ended : Event → Option JobId
  | .completed id => some id
  | .failed id => some id
  | _ => none

namespace RedisSystem

def roster (s : RedisSystem) : Roster where
  accepted := ↑(s.issued.map fun e => e.2.id)
  unfinished := ↑(s.pending.map Job.entry) + ↑(s.bag.flatMap Item.entries)
  ended := ↑(s.log.filterMap Event.ended)
  desk := (s.instances 0).desk

def OneProcess (s : RedisSystem) : Prop := ∀ item ∈ s.bag, item.worker = 0

variable {s t : RedisSystem}

theorem OneProcess.turn (h : s.OneProcess) {k i : Nat} {w : Work} {u : List Work}
    (hItem : s.bag[k]? = some ⟨i, w⟩) (hBag : t.bag = serve s.bag k (u.map (Item.mk i))) :
    t.OneProcess := by
  have hi : i = 0 := h _ (mem_of_get hItem)
  intro item hMem
  rw [hBag] at hMem
  rcases mem_serve hMem with hOld | hNew
  · exact h item hOld
  · obtain ⟨w', -, rfl⟩ := List.mem_map.mp hNew
    exact hi

theorem unfinished_turn {k i : Nat} {w v : Work} (hItem : s.bag[k]? = some ⟨i, w⟩)
    (hSame : v.jobs.map Job.entry = w.jobs.map Job.entry) :
    (s.turnInto k i [v]).roster.unfinished = s.roster.unfinished := by
  have hServe := coe_flatMap_serve Item.entries [⟨i, v⟩] hItem
  have hBag : (↑((serve s.bag k [⟨i, v⟩]).flatMap Item.entries) : Multiset Entry) =
      ↑(s.bag.flatMap Item.entries) := by
    refine add_right_cancel (hServe.trans ?_)
    rw [List.flatMap_singleton, Item.entries, Item.entries, hSame]
  simp only [roster, turnInto, List.map_cons, List.map_nil, hBag]

theorem change_turn {k i : Nat} {w v : Work} (hItem : s.bag[k]? = some ⟨i, w⟩)
    (hSame : v.jobs.map Job.entry = w.jobs.map Job.entry) :
    s.roster.Change (s.turnInto k i [v]).roster := .same rfl (unfinished_turn hItem hSame) rfl rfl

theorem unfinished_gone {k i : Nat} {w : Work} {job : Job} (hItem : s.bag[k]? = some ⟨i, w⟩)
    (hJob : w.jobs = [job]) :
    s.roster.unfinished = job.entry ::ₘ (s.turnInto k i []).roster.unfinished := by
  have hServe := coe_flatMap_serve Item.entries [] hItem
  have hEntry : Item.entries ⟨i, w⟩ = [job.entry] := by rw [Item.entries, hJob, List.map_singleton]
  rw [hEntry, List.flatMap_nil, Multiset.coe_nil, add_zero, Multiset.coe_singleton] at hServe
  simp only [roster, turnInto, List.map_nil]
  rw [← hServe, ← Multiset.singleton_add]
  abel

theorem change_pushed {k : Nat} (hOne : s.OneProcess) (h : s.pushed k = some t) :
    t.OneProcess ∧ s.roster.Change t.roster := by
  obtain ⟨i, job, first, hItem, rfl⟩ := pushed_inv h
  refine ⟨hOne.turn (u := []) hItem rfl, .same rfl ?_ rfl rfl⟩
  rw [unfinished_gone hItem rfl]
  simp only [roster, turnInto, List.map_append, List.map_cons, List.map_nil, ← Multiset.coe_add,
    Multiset.coe_singleton, ← Multiset.singleton_add]
  abel

theorem change_claim {now leaseToken : Nat} (hOne : s.OneProcess)
    (h : s.claim 0 now leaseToken = some t) : t.OneProcess ∧ s.roster.Change t.roster := by
  obtain ⟨job, rest, hPending, ⟨-, rfl⟩ | ⟨-, -, raw, duration, -, -, rfl⟩⟩ := claim_inv h
  · refine ⟨hOne, .same rfl ?_ rfl rfl⟩
    simp only [roster, hPending, List.map_append, List.map_cons, List.map_nil, ← Multiset.coe_add,
      ← Multiset.cons_coe, ← Multiset.singleton_add]
    abel
  · refine ⟨?_, .same rfl ?_ rfl rfl⟩
    · intro item hMem
      rcases List.mem_append.mp hMem with hOld | hNew
      · exact hOne item hOld
      · rw [List.mem_singleton.mp hNew]
    · simp only [roster, record, addWork, hPending, List.map_cons, List.flatMap_append,
        List.flatMap_cons, List.flatMap_nil, List.append_nil, Item.entries, Work.jobs, List.map_nil,
        ← Multiset.coe_add, ← Multiset.cons_coe, ← Multiset.singleton_add]
      abel

/-- The handler is invoked and the claim of its job is settled, or the record is given up. -/
theorem change_start {k : Nat} (hOne : s.OneProcess) (h : s.start k = some t) :
    t.OneProcess ∧ s.roster.Change t.roster := by
  obtain ⟨i, held, hItem, -, rfl | rfl⟩ := start_inv h
  · refine ⟨hOne.turn hItem rfl, ?_⟩
    have hi : i = 0 := hOne _ (mem_of_get hItem)
    have hSame := unfinished_turn hItem
      (v := .task { held with phase := .running }) rfl
    subst hi
    refine .settles held.job.id rfl ?_ rfl ?_
    · exact hSame
    · simp only [roster, record, withInstance, Function.update_self]
      exact BaseJobQueue.desk_notifyClaim _ _
  · exact ⟨hOne.turn hItem rfl, change_turn hItem rfl⟩

theorem change_renewSent {k now : Nat} (hOne : s.OneProcess) (h : s.renewSent k now = some t) :
    t.OneProcess ∧ s.roster.Change t.roster := by
  obtain ⟨i, held, next, hItem, -, -, -, -, rfl⟩ := renewSent_inv h
  exact ⟨hOne.turn hItem rfl, change_turn hItem rfl⟩

theorem change_renewRun {k : Nat} (hOne : s.OneProcess) (h : s.renewRun k = some t) :
    t.OneProcess ∧ s.roster.Change t.roster := by
  obtain ⟨i, held, expected, next, hItem, -, reply, -, rfl⟩ := renewRun_inv h
  have hSame := unfinished_turn hItem
    (v := .task { held with renewal := some ⟨expected, next, some reply.1⟩ }) rfl
  exact ⟨hOne.turn hItem rfl, .same rfl hSame rfl rfl⟩

theorem change_renewReplied {k : Nat} (hOne : s.OneProcess) (h : s.renewReplied k = some t) :
    t.OneProcess ∧ s.roster.Change t.roster := by
  obtain ⟨i, held, expected, next, ok, hItem, -, raw, renewing, -, rfl⟩ := renewReplied_inv h
  exact ⟨hOne.turn hItem rfl, change_turn hItem rfl⟩

theorem change_handlerSettled {k : Nat} {outcome : Outcome} (hOne : s.OneProcess)
    (h : s.handlerSettled k outcome = some t) : t.OneProcess ∧ s.roster.Change t.roster := by
  obtain ⟨i, held, hItem, -, rfl⟩ := handlerSettled_inv h
  have hSame := unfinished_turn hItem (v := .task { held with
    phase := .releasing (.handled outcome) held.lease.raw none
    renewing := false }) rfl
  refine ⟨hOne.turn hItem rfl, .same rfl hSame ?_ rfl⟩
  simp only [roster, record]
  split <;> rfl

theorem change_released {k : Nat} (hOne : s.OneProcess) (h : s.released k = some t) :
    t.OneProcess ∧ s.roster.Change t.roster := by
  obtain ⟨i, held, verdict, expected, hItem, -, reply, -, rfl⟩ := released_inv h
  have hSame := unfinished_turn hItem (v := .task { held with
    phase := .releasing verdict expected (some reply.1) }) rfl
  refine ⟨hOne.turn hItem rfl, .same rfl hSame ?_ rfl⟩
  simp only [roster, record]
  split <;> rfl

theorem change_concluded {k now : Nat} (hOne : s.OneProcess) (h : s.concluded k now = some t) :
    t.OneProcess ∧ s.roster.Change t.roster := by
  obtain ⟨i, held, verdict, expected, ok, hItem, -, hCase⟩ := concluded_inv h
  have hi : i = 0 := hOne _ (mem_of_get hItem)
  subst hi
  rcases hCase with ⟨result, -, rfl⟩ | ⟨-, q, err, hKeys, hElse, rfl⟩ |
    ⟨err, -, -, q, hKeys, hElse, rfl⟩
  · refine ⟨hOne.turn (u := []) hItem rfl, ?_⟩
    refine .ends (e := held.job.entry) rfl (unfinished_gone hItem rfl) rfl ?_
    simp only [roster, record, withInstance, Function.update_self]
    exact BaseJobQueue.desk_afterSuccess _ _ _ _
  · refine ⟨hOne.turn (u := []) hItem rfl, ?_⟩
    refine .ends (e := held.job.entry) rfl (unfinished_gone hItem rfl) rfl ?_
    simp only [roster, record, withInstance, Function.update_self,
      BaseJobQueue.desk_failTerminally]
    rw [BaseJobQueue.desk_same hKeys hElse]
    rfl
  · have hSame := unfinished_turn hItem (v := .retryTimer
      { held.job with attempts := held.job.attempts + 1 } err) rfl
    refine ⟨hOne.turn hItem rfl, .same rfl hSame rfl ?_⟩
    simp only [roster, withInstance, Function.update_self]
    exact BaseJobQueue.desk_same hKeys hElse

theorem change_retryElapsed {k now : Nat} (hOne : s.OneProcess)
    (h : s.retryElapsed k now = some t) : t.OneProcess ∧ s.roster.Change t.roster := by
  obtain ⟨i, job, err, hItem, rfl | rfl⟩ := retryElapsed_inv h
  · have hi : i = 0 := hOne _ (mem_of_get hItem)
    subst hi
    refine ⟨hOne.turn (u := []) hItem rfl, ?_⟩
    refine .ends (e := job.entry) rfl (unfinished_gone hItem rfl) rfl ?_
    simp only [roster, failJob, record, withInstance, Function.update_self]
    exact BaseJobQueue.desk_failTerminally _ _ _ _
  · exact ⟨hOne.turn hItem rfl, change_turn hItem rfl⟩

theorem change_waitTimedOut {id : JobId} (hOne : s.OneProcess)
    (h : s.step (.waitTimedOut 0 id) = some t) : t.OneProcess ∧ s.roster.Change t.roster := by
  obtain ⟨-, rfl⟩ := Option.ite_some_none_eq_some.mp h
  refine ⟨hOne, .same rfl rfl rfl ?_⟩
  simp only [roster, withInstance, Function.update_self]
  rfl

theorem roster_claimRegistered (s : RedisSystem) (id : JobId) :
    (s.withInstance 0 ((s.instances 0).registerClaim id)).roster =
      if ((s.instances 0).settledCache.get id).isNone then s.roster.register id
      else s.roster := by
  simp only [roster, withInstance, Function.update_self, BaseJobQueue.desk_registerClaim]
  split <;> rfl

/-- An `enqueue` is refused, or accepts a job whose key nobody holds. -/
theorem roster_enqueue (s : RedisSystem) (opts : EnqueueOptions) (wait : Bool) (id : JobId)
    (now : Nat) (hOne : s.OneProcess) :
    (s.enqueue 0 opts wait id now).OneProcess ∧
      ((s.enqueue 0 opts wait id now).roster = s.roster ∨
      ∃ (job : Job) (q : BaseJobQueue), job.id = id ∧
        (s.instances 0).normalizeEnqueue opts id now = (.job job, q) ∧
        (∀ k, job.key = some k → s.roster.desk.keys k = none) ∧
        (s.enqueue 0 opts wait id now).roster = s.roster.accept job.entry) := by
  unfold enqueue
  split
  · rename_i job base hNorm
    obtain ⟨hId, hFree, hDesk⟩ := BaseJobQueue.desk_normalizeEnqueue _ hNorm
    refine ⟨?_, .inr ⟨job, base, hId, hNorm, hFree, ?_⟩⟩
    · intro item hMem
      rcases List.mem_append.mp hMem with hOld | hNew
      · exact hOne item hOld
      · rw [List.mem_singleton.mp hNew]
    · refine Roster.accept_eq ?_ ?_ rfl ?_
      · simp only [roster, List.map_append, List.map_cons, List.map_nil,
          RedisLocalQueue.coe_append_singleton]
        rfl
      · simp only [roster, addWork, withInstance, List.flatMap_append, List.flatMap_cons,
          List.flatMap_nil, List.append_nil, Item.entries, Work.jobs, List.map_cons, List.map_nil,
          ← Multiset.coe_add, Multiset.coe_singleton, ← Multiset.singleton_add]
        abel
      · simp only [roster, addWork, withInstance, Function.update_self]
        exact hDesk
  · rename_i r base hr hNorm
    refine ⟨hOne, .inl ?_⟩
    simp only [roster, withInstance, Function.update_self]
    rw [BaseJobQueue.desk_refused _ hNorm hr]

end RedisSystem

end OrchestraAI.Queue
