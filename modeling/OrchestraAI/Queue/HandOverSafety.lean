import OrchestraAI.Queue.HandOver

/-! # What the hand-over keeps

A closed start-up queue still ends the jobs it has, and over the orderly runs of the upgrade every
accepted job has one place.
-/

namespace OrchestraAI.Queue

open Rosters WorkBag

namespace RedisLocalQueue

/-- A closed queue stays closed and gets no job back on its list. -/
structure Steady (q r : RedisLocalQueue) : Prop where
  closed : r.base.closed = q.base.closed
  reclaimTimers : r.reclaimTimers = q.reclaimTimers
  pending : q.base.closed = true → q.pending = [] → r.pending = []

variable {q r : RedisLocalQueue}

theorem steady_drainNext {base : RedisLocalQueue} (hClosed : base.base.closed = q.base.closed)
    (hReclaim : base.reclaimTimers = q.reclaimTimers)
    (hPending : q.base.closed = true → q.pending = [] → base.pending = []) :
    Steady q base.drainNext := by
  unfold drainNext
  split
  · split
    · exact ⟨hClosed, hReclaim, hPending⟩
    · rename_i job rest hSome
      refine ⟨hClosed, hReclaim, fun h hEmpty => ?_⟩
      rw [hPending h hEmpty] at hSome
      cases hSome
  · exact ⟨hClosed, hReclaim, hPending⟩

theorem steady_drainContinues {leaseToken now : Nat} (h : q.drainContinues leaseToken now = some r) :
    Steady q r := by
  unfold drainContinues at h
  split at h
  · cases h
  · cases h
    exact ⟨rfl, rfl, fun _ hEmpty => hEmpty⟩
  · cases h
    exact ⟨rfl, rfl, fun _ hEmpty => hEmpty⟩
  · split at h
    · cases h
      exact steady_drainNext rfl rfl fun _ hEmpty => hEmpty
    · cases h
      exact ⟨rfl, rfl, fun _ hEmpty => hEmpty⟩
  · cases h
    exact steady_drainNext rfl rfl fun _ hEmpty => hEmpty

theorem steady_taskContinues {k now : Nat} (h : q.taskContinues k now = some r) :
    Steady q r := by
  obtain ⟨task, -, h⟩ := Option.bind_eq_some_iff.mp h
  dsimp only at h
  split at h
  · cases h
  · cases h
    refine ⟨?_, rfl, fun _ hEmpty => hEmpty⟩
    simp only [BaseJobQueue.afterSuccess_closed]
  · rename_i err _
    rcases q.base.afterFailure_cases (q.current task.job) err now with
      ⟨-, hAfter⟩ | ⟨-, dead, hAfter⟩
    · rw [hAfter] at h
      cases h
      exact ⟨rfl, rfl, fun _ hEmpty => hEmpty⟩
    · rw [hAfter] at h
      cases h
      exact ⟨rfl, rfl, fun _ hEmpty => hEmpty⟩

theorem steady_retryElapsed {k now : Nat} (h : q.retryElapsed k now = some r) : Steady q r := by
  obtain ⟨b, -, h⟩ := Option.map_eq_some_iff.mp h
  split at h
  · subst h
    exact ⟨rfl, rfl, fun _ hEmpty => hEmpty⟩
  · rename_i hOpen
    subst h
    exact ⟨rfl, rfl, fun hClosed => absurd hClosed hOpen⟩

theorem steady_claimRegistered {k : Nat} (h : q.claimRegistered k = some r) : Steady q r := by
  obtain ⟨id, -, rfl⟩ := Option.map_eq_some_iff.mp h
  refine ⟨?_, rfl, fun _ hEmpty => hEmpty⟩
  simp only [BaseJobQueue.registerClaim]
  split <;> rfl

def Works : RedisLocalLabel → Bool
  | .waitTimedOut _ => true
  | .drainStarts => true
  | .drainContinues _ _ => true
  | .renew _ _ => true
  | .handlerSettled _ _ => true
  | .taskContinues _ _ => true
  | .slotReleased _ => true
  | .retryElapsed _ _ => true
  | _ => false

theorem works_step {l : RedisLocalLabel} (hl : Works l = true) (h : q.step l = some r) :
    Steady q r ∧ q.roster.Change r.roster := by
  cases l with
  | waitTimedOut id =>
    refine ⟨?_, change_waitTimedOut h⟩
    obtain ⟨-, rfl⟩ := Option.ite_some_none_eq_some.mp h
    exact ⟨rfl, rfl, fun _ hEmpty => hEmpty⟩
  | drainStarts =>
    refine ⟨?_, change_drainStarts h⟩
    obtain ⟨-, rfl⟩ := Option.ite_some_none_eq_some.mp h
    exact steady_drainNext rfl rfl fun _ hEmpty => hEmpty
  | drainContinues leaseToken now => exact ⟨steady_drainContinues h, change_drainContinues h⟩
  | renew k now =>
    refine ⟨?_, change_renew h⟩
    obtain ⟨task, -, h⟩ := Option.bind_eq_some_iff.mp h
    split at h
    · obtain ⟨-, rfl⟩ := Option.ite_some_none_eq_some.mp h
      exact ⟨rfl, rfl, fun _ hEmpty => hEmpty⟩
    · cases h
  | handlerSettled k outcome =>
    refine ⟨?_, change_handlerSettled h⟩
    obtain ⟨task, -, h⟩ := Option.bind_eq_some_iff.mp h
    obtain ⟨-, rfl⟩ := Option.ite_some_none_eq_some.mp h
    exact ⟨rfl, rfl, fun _ hEmpty => hEmpty⟩
  | taskContinues k now => exact ⟨steady_taskContinues h, change_taskContinues h⟩
  | slotReleased k =>
    refine ⟨?_, change_slotReleased h⟩
    obtain ⟨id, -, rfl⟩ := Option.map_eq_some_iff.mp h
    exact ⟨rfl, rfl, fun _ hEmpty => hEmpty⟩
  | retryElapsed k now => exact ⟨steady_retryElapsed h, change_retryElapsed h⟩
  | _ => cases hl

def drainLoad : DrainPoint → Nat
  | .popped _ => 5
  | .claimed _ _ => 4
  | .unhandled _ => 3
  | .idle => 0
  | .ending => 0

def taskLoad (task : LocalTask) : Nat := if task.outcome = none then 2 else 1

def load (q : RedisLocalQueue) : Nat :=
  drainLoad q.drain + weight taskLoad q.tasks + q.retryTimers.length

structure Shut (q : RedisLocalQueue) : Prop where
  closed : q.base.closed = true
  pending : q.pending = []
  reclaimTimers : q.reclaimTimers = []

theorem Shut.step (h : q.Shut) {l : RedisLocalLabel} (hl : Works l = true)
    (hs : q.step l = some r) : r.Shut := by
  obtain ⟨hClosed, hReclaim, hPending⟩ := (works_step hl hs).1
  exact ⟨hClosed.trans h.closed, hPending h.closed h.pending, hReclaim.trans h.reclaimTimers⟩

theorem load_drainNext (h : q.pending = []) : q.drainNext.load =
    weight taskLoad q.tasks + q.retryTimers.length := by
  unfold drainNext
  rw [h]
  split
  · simp only [load, drainLoad, Nat.zero_add]
  · simp only [load, drainLoad, Nat.zero_add]

theorem works_drain (h : q.Shut) (hJob : q.drain.job ≠ []) :
    ∃ r, q.step (.drainContinues 0 0) = some r ∧ r.load < q.load := by
  cases hDrain : q.drain with
  | idle => simp [hDrain, DrainPoint.job] at hJob
  | ending => simp [hDrain, DrainPoint.job] at hJob
  | popped job =>
    refine ⟨_, by simp only [step, drainContinues, hDrain]; rfl, ?_⟩
    simp only [load, hDrain, drainLoad]
    omega
  | claimed job token =>
    by_cases hHandled : q.base.handlers.contains job.type = true
    · refine ⟨_, by simp only [step, drainContinues, hDrain, if_pos hHandled]; rfl, ?_⟩
      refine lt_of_eq_of_lt (load_drainNext h.pending) ?_
      simp only [load, hDrain, drainLoad, weight_append, weight_cons, weight_nil,
        taskLoad]
      simp
      omega
    · refine ⟨_, by simp only [step, drainContinues, hDrain, if_neg hHandled]; rfl, ?_⟩
      simp only [load, hDrain, drainLoad]
      omega
  | unhandled job =>
    refine ⟨_, by simp only [step, drainContinues, hDrain]; rfl, ?_⟩
    refine lt_of_eq_of_lt (load_drainNext h.pending) ?_
    simp only [load, failJob, hDrain, drainLoad]
    omega

theorem works_task (h : q.Shut) {task : LocalTask} (hTask : q.tasks[0]? = some task) :
    ∃ l r, Works l = true ∧ q.step l = some r ∧ r.load < q.load := by
  cases hOutcome : task.outcome with
  | none =>
    have hServe := weight_serve taskLoad [{ task with outcome := some (.success "") }] hTask
    refine ⟨.handlerSettled 0 (.success ""), { q with
      localProcessing := q.release task.job task.leaseToken
      tasks := serve q.tasks 0 [{ task with outcome := some (.success "") }] }, rfl, ?_, ?_⟩
    · simp only [step, handlerSettled, hTask, Option.bind_some, hOutcome, if_true]
    · simp only [weight_cons, weight_nil, taskLoad, hOutcome, reduceCtorEq, if_true,
        if_false] at hServe
      simp only [load]
      omega
  | some outcome =>
    have hServe := weight_serve taskLoad [] hTask
    simp only [weight_nil, taskLoad, hOutcome] at hServe
    cases outcome with
    | success result =>
      cases hs : q.step (.taskContinues 0 0) with
      | none => simp [step, taskContinues, hTask, hOutcome] at hs
      | some r =>
        refine ⟨_, r, rfl, hs, ?_⟩
        simp only [step, taskContinues, hTask, Option.bind_some, hOutcome, Option.some.injEq] at hs
        subst hs
        simp only [reduceCtorEq, if_false] at hServe
        simp only [load]
        omega
    | failure err =>
      rcases q.base.afterFailure_cases (q.current task.job) err 0 with
        ⟨hRetry, -⟩ | ⟨-, dead, hAfter⟩
      · simp [BaseJobQueue.willRetry, h.closed] at hRetry
      · cases hs : q.step (.taskContinues 0 0) with
        | none => simp [step, taskContinues, hTask, hOutcome, hAfter] at hs
        | some r =>
          refine ⟨_, r, rfl, hs, ?_⟩
          simp only [step, taskContinues, hTask, Option.bind_some, hOutcome, hAfter,
            Option.some.injEq] at hs
          subst hs
          simp only [reduceCtorEq, if_false] at hServe
          simp only [load]
          omega

theorem works_retry (h : q.Shut) {b : Backoff} (hTimer : q.retryTimers[0]? = some b) :
    ∃ r, q.step (.retryElapsed 0 0) = some r ∧ r.load < q.load := by
  have hLength := length_serve [] hTimer
  refine ⟨({ q with retryTimers := serve q.retryTimers 0 [] } : RedisLocalQueue).failJob b.job b.err
    0, ?_, ?_⟩
  · simp only [step, retryElapsed, hTimer, Option.map_some, h.closed, if_true]
  · simp only [List.length_nil] at hLength
    simp only [load, failJob]
    omega

/-- While the closed queue has an unfinished job, one of its steps brings it nearer to its end. -/
theorem works_on (h : q.Shut) (hSome : q.roster.unfinished ≠ 0) :
    ∃ l r, Works l = true ∧ q.step l = some r ∧ r.load < q.load := by
  by_cases hDrain : q.drain.job = []
  · cases hTasks : q.tasks with
    | cons task rest =>
      exact works_task h (by rw [hTasks]; rfl)
    | nil =>
      cases hTimers : q.retryTimers with
      | cons b rest =>
        obtain ⟨r, hs, hLess⟩ := works_retry h (b := b) (by rw [hTimers]; rfl)
        exact ⟨_, r, rfl, hs, hLess⟩
      | nil =>
        refine absurd ?_ hSome
        simp only [roster, h.pending, hDrain, hTasks, hTimers, h.reclaimTimers, List.map_nil,
          Multiset.coe_nil, add_zero]
  · obtain ⟨r, hs, hLess⟩ := works_drain h hDrain
    exact ⟨_, r, rfl, hs, hLess⟩

theorem works_off (n : Nat) : ∀ q : RedisLocalQueue, q.load ≤ n → q.Shut →
    ∃ (ls : List RedisLocalLabel) (r : RedisLocalQueue), (∀ l ∈ ls, Works l = true) ∧
      LabelledSystem.run step q ls = some r ∧ r.roster.unfinished = 0 := by
  induction n with
  | zero =>
    intro q hLoad h
    refine ⟨[], q, by simp, rfl, ?_⟩
    by_contra hSome
    obtain ⟨l, r, -, -, hLess⟩ := works_on h hSome
    omega
  | succ n ih =>
    intro q hLoad h
    by_cases hNone : q.roster.unfinished = 0
    · exact ⟨[], q, by simp, rfl, hNone⟩
    · obtain ⟨l, r, hl, hs, hLess⟩ := works_on h hNone
      obtain ⟨ls, t, hAll, hRun, hDone⟩ := ih r (by omega) (h.step hl hs)
      refine ⟨l :: ls, t, ?_, ?_, hDone⟩
      · intro m hm
        rcases List.mem_cons.mp hm with rfl | hm
        · exact hl
        · exact hAll m hm
      · simp only [LabelledSystem.run, hs]
        exact hRun

/-- An `enqueue` that the open queue accepts. -/
structure Takes (q r : RedisLocalQueue) (id : JobId) (job : Job) : Prop where
  open_ : q.base.closed = false
  id_eq : job.id = id
  free : ∀ k, job.key = some k → q.roster.desk.keys k = none
  roster : r.roster = q.roster.accept job.entry

theorem takes_accept {opts : EnqueueOptions} {id : JobId} {now : Nat} {job : Job}
    {base : BaseJobQueue} (hOpen : IntakeOpen q.base opts id now)
    (hNorm : q.base.normalizeEnqueue opts id now = (.job job, base))
    (hRoster : r.roster = (q.accept job base).roster) : Takes q r id job := by
  obtain ⟨hId, hFree, hDesk⟩ := BaseJobQueue.desk_normalizeEnqueue _ hNorm
  refine ⟨hOpen.closed hNorm, hId, hFree, ?_⟩
  rw [hRoster]
  exact roster_accept job base hDesk

theorem closed_normalizeEnqueue {base base' : BaseJobQueue} {opts : EnqueueOptions} {id : JobId}
    {now : Nat} {n : Normalized} (h : base.normalizeEnqueue opts id now = (n, base')) :
    base'.closed = base.closed := by
  cases n with
  | job job => rw [(BaseJobQueue.normalizeEnqueue_job h).2.2]
  | rejected err => rw [BaseJobQueue.normalizeEnqueue_refused h (by simp)]
  | duplicate holder completed => rw [BaseJobQueue.normalizeEnqueue_refused h (by simp)]

def Brings (opts : EnqueueOptions) (id : JobId) (now : Nat) : RedisLocalLabel → Prop
  | .enqueue opts' id' now' => opts' = opts ∧ id' = id ∧ now' = now
  | .enqueueAndWait opts' id' now' => opts' = opts ∧ id' = id ∧ now' = now
  | .enqueueAndClaim opts' id' now' => opts' = opts ∧ id' = id ∧ now' = now
  | _ => False

theorem brings_step {opts : EnqueueOptions} {id : JobId} {now : Nat} {l : RedisLocalLabel}
    (hl : Brings opts id now l) (hOpen : IntakeOpen q.base opts id now)
    (h : q.step l = some r) :
    Steady q r ∧ q.Fresh id ∧ (r.roster = q.roster ∨ ∃ job, Takes q r id job) := by
  have hAccept : ∀ (job : Job) (base : BaseJobQueue),
      q.base.normalizeEnqueue opts id now = (.job job, base) →
      ∀ r : RedisLocalQueue, r.base.closed = base.closed → r.reclaimTimers = q.reclaimTimers →
      r.roster = (q.accept job base).roster →
      Steady q r ∧ (r.roster = q.roster ∨ ∃ job, Takes q r id job) := by
    intro job base hNorm r hClosed hReclaim hRoster
    have hTakes := takes_accept hOpen hNorm hRoster
    refine ⟨⟨hClosed.trans (closed_normalizeEnqueue hNorm), hReclaim, fun hC => ?_⟩,
      .inr ⟨job, hTakes⟩⟩
    rw [hTakes.open_] at hC
    cases hC
  have hRefused : ∀ (n : Normalized) (base : BaseJobQueue),
      q.base.normalizeEnqueue opts id now = (n, base) → (∀ job, n ≠ .job job) →
      Steady q { q with base := base } ∧ (({ q with base := base } : RedisLocalQueue).roster =
        q.roster ∨ ∃ job, Takes q { q with base := base } id job) := by
    intro n base hNorm hn
    refine ⟨⟨closed_normalizeEnqueue hNorm, rfl, fun _ hEmpty => hEmpty⟩, .inl ?_⟩
    simp only [roster, BaseJobQueue.desk_refused _ hNorm hn]
  cases l with
  | enqueue opts' id' now' =>
    obtain ⟨rfl, rfl, rfl⟩ := hl
    obtain ⟨hFresh, rfl⟩ := Option.ite_some_none_eq_some.mp h
    unfold enqueue
    split
    · rename_i job base hNorm
      obtain ⟨hSteady, hRoster⟩ := hAccept job base hNorm (q.accept job base) rfl rfl rfl
      exact ⟨hSteady, hFresh, hRoster⟩
    · rename_i n base hn hNorm
      obtain ⟨hSteady, hRoster⟩ := hRefused n base hNorm hn
      exact ⟨hSteady, hFresh, hRoster⟩
  | enqueueAndWait opts' id' now' =>
    obtain ⟨rfl, rfl, rfl⟩ := hl
    obtain ⟨hFresh, rfl⟩ := Option.ite_some_none_eq_some.mp h
    unfold enqueueAndWait
    split
    · rename_i job base hNorm
      obtain ⟨hSteady, hRoster⟩ := hAccept job base hNorm
        (q.accept job { base with waiters := base.waiters.set job.id .enqueueAndWait }) rfl rfl rfl
      exact ⟨hSteady, hFresh, hRoster⟩
    · rename_i n base hn hNorm
      obtain ⟨hSteady, hRoster⟩ := hRefused n base hNorm hn
      exact ⟨hSteady, hFresh, hRoster⟩
  | enqueueAndClaim opts' id' now' =>
    obtain ⟨rfl, rfl, rfl⟩ := hl
    obtain ⟨hFresh, rfl⟩ := Option.ite_some_none_eq_some.mp h
    unfold enqueueAndClaim
    split
    · rename_i job base hNorm
      obtain ⟨hSteady, hRoster⟩ := hAccept job base hNorm
        { q.accept job base with claiming := q.claiming ++ [job.id] } rfl rfl rfl
      exact ⟨hSteady, hFresh, hRoster⟩
    · rename_i n base hn hNorm
      obtain ⟨hSteady, hRoster⟩ := hRefused n base hNorm hn
      exact ⟨hSteady, hFresh, hRoster⟩
  | _ => cases hl

end RedisLocalQueue

namespace RedisSystem

def Works : RedisLabel → Bool
  | .waitTimedOut i _ => i == 0
  | .claim i _ _ => i == 0
  | .pushed _ => true
  | .start _ => true
  | .renewSent _ _ => true
  | .renewRun _ => true
  | .renewReplied _ => true
  | .handlerSettled _ _ => true
  | .released _ => true
  | .concluded _ _ => true
  | .retryElapsed _ _ => true
  | _ => false

theorem works_step {q r : RedisSystem} {l : RedisLabel} (hOne : q.OneProcess)
    (hl : Works l = true) (h : q.step l = some r) : r.OneProcess ∧ q.roster.Change r.roster := by
  cases l with
  | waitTimedOut i id =>
    have hi : i = 0 := beq_iff_eq.mp hl
    subst hi
    exact change_waitTimedOut hOne h
  | claim i now leaseToken =>
    have hi : i = 0 := beq_iff_eq.mp hl
    subst hi
    exact change_claim hOne h
  | pushed k => exact change_pushed hOne h
  | start k => exact change_start hOne h
  | renewSent k now => exact change_renewSent hOne h
  | renewRun k => exact change_renewRun hOne h
  | renewReplied k => exact change_renewReplied hOne h
  | handlerSettled k outcome => exact change_handlerSettled hOne h
  | released k => exact change_released hOne h
  | concluded k now => exact change_concluded hOne h
  | retryElapsed k now => exact change_retryElapsed hOne h
  | _ => cases hl

end RedisSystem

namespace HandOver

structure Inv (s : HandOver) : Prop where
  kept : s.transfer.Kept
  process : s.new.OneProcess
  reclaimTimers : s.old.reclaimTimers = []
  startup : s.stage = .startup → s.old.roster.Tracks ∧ s.old.base.closed = false
  early : s.stage.oldIsCurrent = true → s.new.issued = [] ∧ s.new.roster.unfinished = 0
  switched : s.stage ≠ .startup → s.old.base.closed = true ∧ s.old.pending = []

variable {s t : HandOver} {q : RedisLocalQueue}

theorem Inv.oldStep (h : s.Inv) {waiting : List JobId}
    (hKept : transfer { s with old := q, waiting := waiting } |>.Kept)
    (hTracks : s.stage = .startup → q.roster.Tracks) (hSteady : s.old.Steady q) :
    Inv { s with old := q, waiting := waiting } where
  kept := hKept
  process := h.process
  reclaimTimers := hSteady.reclaimTimers.trans h.reclaimTimers
  startup hStage := ⟨hTracks hStage, hSteady.closed.trans (h.startup hStage).2⟩
  early := h.early
  switched hStage := by
    obtain ⟨hClosed, hEmpty⟩ := h.switched hStage
    exact ⟨hSteady.closed.trans hClosed, hSteady.pending hClosed hEmpty⟩

theorem Inv.oldKeys (h : s.Inv) : (s.old.roster.unfinished.filterMap Prod.snd).Nodup := by
  refine Multiset.nodup_of_le (Multiset.filterMap_le_filterMap _ ?_) h.kept.keys
  exact (Multiset.le_add_right _ _).trans (Multiset.le_add_right _ _)

theorem Inv.oldChange (h : s.Inv) (hc : s.old.roster.Change q.roster)
    (hSteady : s.old.Steady q) : Inv { s with old := q } :=
  h.oldStep (h.kept.changeOld hc) (fun hStage => (h.startup hStage).1.change h.oldKeys hc) hSteady

theorem Inv.oldTakes (h : s.Inv) {id : JobId} {job : Job} (hFresh : s.old.Fresh id)
    (hTakes : s.old.Takes q id job) (hSteady : s.old.Steady q) : Inv { s with old := q } := by
  have hStage : s.stage = .startup := by
    by_contra hNot
    have hClosed := (h.switched hNot).1
    rw [hTakes.open_] at hClosed
    cases hClosed
  obtain ⟨hTracks, -⟩ := h.startup hStage
  obtain ⟨hIssued, hNone⟩ := h.early (by rw [hStage]; rfl)
  have hFree := hTracks.unheld (e := job.entry) hTakes.free
  have hAll : s.transfer.unfinished = s.old.roster.unfinished := by
    simp only [Transfer.unfinished, transfer, Roster.plus, hStage, hNone, HandOverStage.buffer,
      HandOverStage.inFlight, List.map_nil, Multiset.coe_nil, add_zero]
  have hAccepted : s.transfer.accepted = ↑(s.old.accepted.map Job.id) := by
    simp only [Transfer.accepted, transfer, Roster.plus, RedisSystem.roster, hIssued, List.map_nil,
      Multiset.coe_nil, add_zero]
    rfl
  have hKept := h.kept.acceptOld (e := job.entry) ?_ (hAll.symm ▸ hFree)
  · refine h.oldStep ?_ (fun _ => ?_) hSteady
    · have hSame : transfer { s with old := q } =
          { s.transfer with old := s.transfer.old.accept job.entry } := by
        simp only [transfer, hTakes.roster]
      exact hSame ▸ hKept
    · rw [hTakes.roster]
      exact hTracks.accept hFree
  · rw [hAccepted, Multiset.mem_coe]
    have hId : job.entry.1 = id := hTakes.id_eq
    rw [hId]
    exact hFresh

theorem Inv.oldBrings (h : s.Inv) {opts : EnqueueOptions} {id : JobId} {now : Nat}
    {l : RedisLocalLabel} (hl : RedisLocalQueue.Brings opts id now l)
    (hOpen : IntakeOpen s.old.base opts id now) (hs : s.old.step l = some q) :
    Inv { s with old := q } := by
  obtain ⟨hSteady, hFresh, hSame | ⟨job, hTakes⟩⟩ := RedisLocalQueue.brings_step hl hOpen hs
  · exact h.oldChange (hSame ▸ .idle) hSteady
  · exact h.oldTakes hFresh hTakes hSteady

theorem Inv.oldRegistered (h : s.Inv) {k : Nat} (hok : s.Orderly (.old (.claimRegistered k)))
    (hs : s.old.claimRegistered k = some q) :
    Inv { s with old := q, waiting := s.waitingAfterOld (.claimRegistered k) } := by
  have hSteady := RedisLocalQueue.steady_claimRegistered hs
  obtain ⟨id, hId, hRoster⟩ := RedisLocalQueue.roster_claimRegistered hs
  have hAtHand := hok id hId
  simp only [waitingAfterOld, hId, joins]
  by_cases hNone : (s.old.base.settledCache.get id).isNone = true
  · rw [if_pos hNone] at hRoster ⊢
    have hMem : id ∈ s.old.roster.ids := by
      refine hAtHand.resolve_left fun hHas => ?_
      rw [OrderedMap.has, Option.isNone_iff_eq_none.mp hNone] at hHas
      cases hHas
    have hKept := h.kept.changeOld (.register id)
    refine h.oldStep ?_ (fun hStage => ?_) hSteady
    · have hWaits := hKept.wait id (.inl (Roster.serves_registered hMem))
      have hSame : transfer { s with old := q, waiting := s.waiting ++ [id] } =
          ⟨s.transfer.old.register id, s.transfer.new, s.transfer.buffer, s.transfer.moved,
            s.transfer.waiting ++ [id]⟩ := by
        simp only [transfer, hRoster]
      exact hSame ▸ hWaits
    · rw [hRoster]
      exact (h.startup hStage).1.change h.oldKeys (.register id)
  · rw [if_neg hNone] at hRoster ⊢
    exact h.oldChange (hRoster ▸ .idle) hSteady

theorem Inv.oldReturned (h : s.Inv) {k : Nat} (hs : s.old.claimReturned k = some q) :
    Inv { s with old := q, waiting := s.waitingAfterOld (.claimReturned k) } := by
  obtain ⟨id, hId, hRoster⟩ := RedisLocalQueue.roster_claimReturned hs
  have hSteady : s.old.Steady q := by
    obtain ⟨_, -, rfl⟩ := Option.map_eq_some_iff.mp hs
    exact ⟨rfl, rfl, fun _ hEmpty => hEmpty⟩
  simp only [waitingAfterOld, hId]
  refine h.oldStep ?_ (fun hStage => ?_) hSteady
  · have hSame : transfer { s with old := q, waiting := s.waiting.filter (· ≠ id) } =
        { s.transfer with
          old := s.transfer.old.forget id, waiting := s.transfer.waiting.filter (· ≠ id) } := by
      simp only [transfer, hRoster]
    exact hSame ▸ h.kept.leave id
  · rw [hRoster]
    exact (h.startup hStage).1

theorem Inv.old (h : s.Inv) {l : RedisLocalLabel} (hl : s.MayOld l = true)
    (hok : s.Orderly (.old l)) (hs : s.old.step l = some q) :
    Inv { s with old := q, waiting := s.waitingAfterOld l } := by
  have hWorks : RedisLocalQueue.Works l = true → Inv { s with old := q } := fun hw =>
    have hStep := RedisLocalQueue.works_step hw hs
    h.oldChange hStep.2 hStep.1
  cases l with
  | enqueue opts id now => exact h.oldBrings (l := .enqueue opts id now) ⟨rfl, rfl, rfl⟩ hok hs
  | enqueueAndWait opts id now =>
    exact h.oldBrings (l := .enqueueAndWait opts id now) ⟨rfl, rfl, rfl⟩ hok hs
  | enqueueAndClaim opts id now =>
    exact h.oldBrings (l := .enqueueAndClaim opts id now) ⟨rfl, rfl, rfl⟩ hok hs
  | claimRegistered k => exact h.oldRegistered hok hs
  | claimReturned k => exact h.oldReturned hs
  | waitTimedOut id => exact hWorks rfl
  | drainStarts => exact hWorks rfl
  | drainContinues leaseToken now => exact hWorks rfl
  | renew k now => exact hWorks rfl
  | handlerSettled k outcome => exact hWorks rfl
  | taskContinues k now => exact hWorks rfl
  | slotReleased k => exact hWorks rfl
  | retryElapsed k now => exact hWorks rfl
  | _ => cases hl

variable {n : RedisSystem}

theorem Inv.newStep (h : s.Inv) (hCurrent : s.stage.oldIsCurrent = false) {waiting : List JobId}
    (hKept : (transfer { s with new := n, waiting := waiting }).Kept) (hOne : n.OneProcess) :
    Inv { s with new := n, waiting := waiting } where
  kept := hKept
  process := hOne
  reclaimTimers := h.reclaimTimers
  startup := h.startup
  early hOld := absurd (hCurrent.symm.trans hOld) Bool.false_ne_true
  switched := h.switched

theorem Inv.newChange (h : s.Inv) (hCurrent : s.stage.oldIsCurrent = false)
    (hc : s.new.roster.Change n.roster) (hOne : n.OneProcess) : Inv { s with new := n } :=
  h.newStep hCurrent (h.kept.changeNew (hc.plus _)) hOne

theorem key_elsewhere {q q' : BaseJobQueue} {m : Multiset Entry} {opts : EnqueueOptions}
    {id : JobId} {now : Nat} {job : Job} (h : KeyElsewhere q m opts id now)
    (hNorm : q.normalizeEnqueue opts id now = (.job job, q')) :
    ∀ f ∈ m, ∀ k, job.key = some k → f.2 ≠ some k := by
  simp only [KeyElsewhere, hNorm] at h
  intro f hf k hk hF
  rcases h f hf with hNone | hNe
  · rw [hk] at hNone
    cases hNone
  · exact hNe (hF.trans hk.symm)

theorem Inv.newEnqueue (h : s.Inv) (hCurrent : s.stage.oldIsCurrent = false)
    {opts : EnqueueOptions} {wait : Bool} {id : JobId} {now : Nat}
    (hok : s.Orderly (.new (.enqueue 0 opts wait id now))) (hOld : s.old.Fresh id)
    (hNew : s.new.Fresh id) : Inv { s with new := s.new.enqueue 0 opts wait id now } := by
  obtain ⟨hOne, hSame | ⟨job, q, hId, hNorm, hFree, hRoster⟩⟩ :=
    RedisSystem.roster_enqueue s.new opts wait id now h.process
  · exact h.newChange hCurrent (hSame ▸ .idle) hOne
  · refine h.newStep hCurrent ?_ hOne
    have hFresh : job.entry.1 ∉ s.transfer.accepted := by
      have hEntry : job.entry.1 = id := hId
      rw [hEntry]
      refine fun hMem => (Multiset.mem_add.mp hMem).elim (fun hMem => ?_) fun hMem => ?_
      · exact hOld (Multiset.mem_coe.mp hMem)
      · exact hNew (Multiset.mem_coe.mp hMem)
    have hKey : ∀ f ∈ s.transfer.unfinished, ∀ k, job.entry.2 = some k → f.2 ≠ some k := by
      intro f hf
      rcases Multiset.mem_add.mp hf with hf | hf
      · exact key_elsewhere hok hNorm f hf
      · exact h.kept.tracks.unheld (e := job.entry) hFree f hf
    have hSame : transfer { s with new := s.new.enqueue 0 opts wait id now } =
        { s.transfer with new := s.transfer.new.accept job.entry } := by
      simp only [transfer, hRoster, Roster.accept_plus]
    exact hSame ▸ h.kept.acceptNew hFresh hKey

theorem Inv.newRegistered (h : s.Inv) (hCurrent : s.stage.oldIsCurrent = false) {id : JobId}
    (hok : s.Orderly (.new (.claimRegistered 0 id))) :
    Inv { s with
      new := s.new.withInstance 0 ((s.new.instances 0).registerClaim id)
      waiting := s.joins (s.new.instances 0) id } := by
  have hRoster := RedisSystem.roster_claimRegistered s.new id
  simp only [joins]
  by_cases hNone : ((s.new.instances 0).settledCache.get id).isNone = true
  · rw [if_pos hNone] at hRoster ⊢
    have hMem : id ∈ s.transfer.new.ids := by
      refine hok.resolve_left fun hHas => ?_
      rw [OrderedMap.has, Option.isNone_iff_eq_none.mp hNone] at hHas
      cases hHas
    refine h.newStep hCurrent ?_ h.process
    have hKept := h.kept.changeNew (.register id)
    have hWaits := hKept.wait id (.inr (.inl (Roster.serves_registered hMem)))
    have hSame : transfer { s with
        new := s.new.withInstance 0 ((s.new.instances 0).registerClaim id)
        waiting := s.waiting ++ [id] } =
        ⟨s.transfer.old, s.transfer.new.register id, s.transfer.buffer, s.transfer.moved,
          s.transfer.waiting ++ [id]⟩ := by
      simp only [transfer, hRoster]
      rfl
    exact hSame ▸ hWaits
  · rw [if_neg hNone] at hRoster ⊢
    exact h.newChange hCurrent (hRoster ▸ .idle) h.process

theorem Inv.new (h : s.Inv) {l : RedisLabel} (hCurrent : s.stage.oldIsCurrent = false)
    (hl : s.MayNew l = true) (hok : s.Orderly (.new l)) (hs : s.new.step l = some n) :
    Inv { s with new := n, waiting := s.waitingAfterNew l } := by
  have hWorks : RedisSystem.Works l = true → Inv { s with new := n } := fun hw =>
    have hStep := RedisSystem.works_step h.process hw hs
    h.newChange hCurrent hStep.2 hStep.1
  cases l with
  | enqueue i opts wait id now =>
    obtain ⟨hi, hOld⟩ := Bool.and_eq_true_iff.mp hl
    obtain rfl : i = 0 := beq_iff_eq.mp hi
    obtain ⟨hNew, rfl⟩ := Option.ite_some_none_eq_some.mp hs
    exact h.newEnqueue hCurrent hok (of_decide_eq_true hOld) hNew
  | claimRegistered i id =>
    obtain ⟨hi, -⟩ := Bool.and_eq_true_iff.mp hl
    obtain rfl : i = 0 := beq_iff_eq.mp hi
    obtain rfl := Option.some.inj hs
    exact h.newRegistered hCurrent hok
  | waitTimedOut i id => exact hWorks hl
  | claim i now leaseToken => exact hWorks hl
  | pushed k => exact hWorks rfl
  | start k => exact hWorks rfl
  | renewSent k now => exact hWorks rfl
  | renewRun k => exact hWorks rfl
  | renewReplied k => exact hWorks rfl
  | handlerSettled k outcome => exact hWorks rfl
  | released k => exact hWorks rfl
  | concluded k now => exact hWorks rfl
  | retryElapsed k now => exact hWorks rfl
  | _ => cases hl

theorem Inv.takeOver (h : s.Inv) (hStage : s.stage = .startup) : s.takeOver.Inv where
  kept := kept_takeOver h.kept hStage
  process := h.process
  reclaimTimers := h.reclaimTimers
  startup hNot := by cases hNot
  early _ := h.early (by rw [hStage]; rfl)
  switched _ := ⟨rfl, rfl⟩

theorem Inv.pushNext (h : s.Inv) {parcel : Parcel} (hStage : s.stage ≠ .startup)
    (hBuffer : s.stage.buffer = parcel.pending) (hMoved : s.stage.moved = parcel.claimWaiters.has)
    (hFlight : s.stage.inFlight = []) : (s.pushNext parcel).Inv := by
  have hKept := kept_pushNext h.kept hBuffer hMoved hFlight
  have hSwitched := h.switched hStage
  unfold HandOver.pushNext at hKept ⊢
  split at hKept
  · rename_i hNone
    refine ⟨hKept, h.process, h.reclaimTimers, ?_, ?_, fun _ => hSwitched⟩
    · intro hNot
      cases hNot
    · intro hNot
      cases hNot
  · rename_i job rest hSome
    refine ⟨hKept, h.process, h.reclaimTimers, ?_, ?_, fun _ => hSwitched⟩
    · intro hNot
      cases hNot
    · intro hNot
      cases hNot

theorem Inv.oldClosed (h : s.Inv) {parcel : Parcel} (hStage : s.stage = .closing parcel) :
    (HandOver.pushNext { s with
      new := s.new.withInstance 0 (wireQueueHandlers (s.new.instances 0)) } parcel).Inv := by
  have hRoster : (s.new.withInstance 0 (wireQueueHandlers (s.new.instances 0))).roster =
      s.new.roster := by
    simp only [RedisSystem.roster, RedisSystem.withInstance, Function.update_self]
    rfl
  have hWired : Inv { s with
      new := s.new.withInstance 0 (wireQueueHandlers (s.new.instances 0)) } := by
    refine ⟨?_, h.process, h.reclaimTimers, h.startup, ?_, h.switched⟩
    · have hSame : transfer { s with
          new := s.new.withInstance 0 (wireQueueHandlers (s.new.instances 0)) } = s.transfer := by
        simp only [transfer, hRoster]
      exact hSame ▸ h.kept
    · intro hOld
      exact ⟨(h.early hOld).1, (congrArg Roster.unfinished hRoster).trans (h.early hOld).2⟩
  refine hWired.pushNext ?_ ?_ ?_ ?_
  · rw [hStage]
    exact fun hNot => by cases hNot
  · rw [hStage]
    rfl
  · rw [hStage]
    rfl
  · rw [hStage]
    rfl

/-- Redis runs the `RPUSH`: the job moves from the wire to the list. -/
theorem Inv.pushRun (h : s.Inv) {job : Job} {parcel : Parcel}
    (hStage : s.stage = .pushing job false parcel) :
    Inv { s with
      new := { s.new with pending := s.new.pending ++ [job] }
      stage := .pushing job true parcel } := by
  refine ⟨?_, h.process, h.reclaimTimers, ?_, ?_, fun _ => h.switched (by rw [hStage]; simp)⟩
  · have hSame : transfer { s with
        new := { s.new with pending := s.new.pending ++ [job] }
        stage := .pushing job true parcel } = s.transfer := by
      simp only [transfer, hStage, Roster.plus, RedisSystem.roster, HandOverStage.inFlight,
        HandOverStage.buffer, HandOverStage.moved, List.map_append, List.map_cons, List.map_nil,
        ← Multiset.coe_add, Multiset.coe_nil, Multiset.coe_singleton, zero_add, Transfer.mk.injEq,
        Roster.mk.injEq, and_true, true_and]
      abel
    exact hSame ▸ h.kept
  · intro hNot
    cases hNot
  · intro hNot
    cases hNot

theorem inv_step (s : HandOver) (l : HandOverLabel) (t : HandOver) (h : s.Inv)
    (hok : s.Orderly l) (hs : s.step l = some t) : t.Inv := by
  cases l with
  | old l =>
    obtain ⟨hl, hs⟩ := Option.ite_none_right_eq_some.mp hs
    obtain ⟨q, hq, rfl⟩ := Option.map_eq_some_iff.mp hs
    exact h.old hl hok hq
  | new l =>
    obtain ⟨⟨hCurrent, hl⟩, hs⟩ := Option.ite_none_right_eq_some.mp hs
    obtain ⟨n, hn, rfl⟩ := Option.map_eq_some_iff.mp hs
    exact h.new hCurrent hl hok hn
  | upgradeStarts =>
    simp only [HandOver.step] at hs
    split at hs
    · rename_i hStage
      obtain rfl := Option.some.inj hs
      exact h.takeOver hStage
    · cases hs
  | oldClosed =>
    simp only [HandOver.step] at hs
    split at hs
    · rename_i parcel hStage
      obtain rfl := Option.some.inj hs
      exact h.oldClosed hStage
    · cases hs
  | pushRun =>
    simp only [HandOver.step] at hs
    split at hs
    · rename_i job parcel hStage
      obtain rfl := Option.some.inj hs
      exact h.pushRun hStage
    · cases hs
  | pushReplied =>
    simp only [HandOver.step] at hs
    split at hs
    · rename_i job parcel hStage
      obtain rfl := Option.some.inj hs
      refine h.pushNext ?_ ?_ ?_ ?_
      · rw [hStage]
        exact fun hNot => by cases hNot
      · rw [hStage]
        rfl
      · rw [hStage]
        rfl
      · rw [hStage]
        rfl
    · cases hs
  | pushFailed err now => cases hok

theorem inv_start (h : Start s) : s.Inv := by
  obtain ⟨c, v, rfl⟩ := h
  refine ⟨⟨rfl, Multiset.nodup_zero, Multiset.nodup_zero, ?_, ?_⟩, ?_, rfl, ?_, fun _ => ⟨rfl, rfl⟩,
    fun hNot => absurd rfl hNot⟩
  · intro e he
    cases Multiset.notMem_zero e he
  · intro id hId
    cases hId
  · intro item hItem
    cases hItem
  · refine fun _ => ⟨fun e he => ?_, rfl⟩
    cases Multiset.notMem_zero e he

structure Sound (s : HandOver) : Prop where
  /-- An accepted job is unfinished or has ended, at one of the queues or on its way, and once. -/
  once : ∀ id ∈ s.transfer.accepted, s.transfer.places.count id = 1
  /-- Nothing waits for the dispatcher of the closed queue. -/
  noneLeft : s.stage ≠ .startup → s.old.pending = []
  /-- The closed queue can bring every job it has kept to its end. -/
  ends : s.stage ≠ .startup → ∃ (ls : List RedisLocalLabel) (q : RedisLocalQueue),
    LabelledSystem.run step s (ls.map .old) = some { s with old := q } ∧ q.roster.unfinished = 0
  delivered : s.stage = .finished → s.transfer.buffer = 0
  /-- Whoever waits for the claim of a job that has ended has been answered. -/
  claims : ∀ id ∈ s.waiting, id ∉ s.transfer.unfinished.map Prod.fst →
    s.old.roster.desk.settled id = true ∨ s.new.roster.desk.settled id = true
  /-- No key has two unfinished jobs. -/
  keys : (s.transfer.unfinished.filterMap Prod.snd).Nodup
  /-- The new queue refuses the keys of the jobs that it has got. -/
  refuses : ∀ e ∈ s.transfer.new.unfinished, ∀ k, e.2 = some k →
    (s.new.instances 0).inflightKeys.get k = some e.1

theorem run_old {ls : List RedisLocalLabel} (hWorks : ∀ l ∈ ls, RedisLocalQueue.Works l = true)
    (hRun : LabelledSystem.run RedisLocalQueue.step s.old ls = some q) :
    LabelledSystem.run step s (ls.map .old) = some { s with old := q } := by
  induction ls generalizing s with
  | nil =>
    obtain rfl := Option.some.inj hRun
    rfl
  | cons l ls ih =>
    obtain ⟨r, hs, hRest⟩ := Option.bind_eq_some_iff.mp hRun
    have hl := hWorks l List.mem_cons_self
    have hStep : s.step (.old l) = some { s with old := r } := by
      cases l with
      | waitTimedOut id => simp only [step, MayOld, hs, if_true, Option.map_some, waitingAfterOld]
      | drainStarts => simp only [step, MayOld, hs, if_true, Option.map_some, waitingAfterOld]
      | drainContinues leaseToken now =>
        simp only [step, MayOld, hs, if_true, Option.map_some, waitingAfterOld]
      | renew k now => simp only [step, MayOld, hs, if_true, Option.map_some, waitingAfterOld]
      | handlerSettled k outcome =>
        simp only [step, MayOld, hs, if_true, Option.map_some, waitingAfterOld]
      | taskContinues k now =>
        simp only [step, MayOld, hs, if_true, Option.map_some, waitingAfterOld]
      | slotReleased k => simp only [step, MayOld, hs, if_true, Option.map_some, waitingAfterOld]
      | retryElapsed k now =>
        simp only [step, MayOld, hs, if_true, Option.map_some, waitingAfterOld]
      | _ => cases hl
    have hTail := ih (s := { s with old := r }) (fun m hm => hWorks m (List.mem_cons_of_mem l hm))
      hRest
    simp only [List.map_cons, LabelledSystem.run, hStep]
    exact hTail

theorem Inv.sound (h : s.Inv) : s.Sound where
  once id hId := Multiset.count_eq_one_of_mem h.kept.once (h.kept.all ▸ hId)
  noneLeft hStage := (h.switched hStage).2
  ends hStage := by
    obtain ⟨hClosed, hPending⟩ := h.switched hStage
    obtain ⟨ls, q, hWorks, hRun, hDone⟩ := RedisLocalQueue.works_off _ s.old le_rfl
      ⟨hClosed, hPending, h.reclaimTimers⟩
    exact ⟨ls, q, run_old hWorks hRun, hDone⟩
  delivered hStage := by
    simp only [transfer, hStage]
    rfl
  claims id hId hEnded := by
    have hNot : id ∉ s.transfer.old.ids ∧ id ∉ s.transfer.buffer.map Prod.fst ∧
        id ∉ s.transfer.new.ids := by
      simp only [Transfer.unfinished, Multiset.map_add, Multiset.mem_add, not_or] at hEnded
      exact ⟨hEnded.1.1, hEnded.1.2, hEnded.2⟩
    rcases h.kept.claims id hId with hOld | hNew | hMoved
    · exact .inl (hOld.settled hNot.1)
    · exact .inr (hNew.settled hNot.2.2)
    · exact absurd hMoved.2 hNot.2.1
  keys := h.kept.keys
  refuses := h.kept.tracks

/-- An orderly hand-over loses no job, duplicates none and answers whoever waits for a claim. -/
theorem handOver_sound (h : LabelledSystem.Reach step Orderly Start s) : s.Sound :=
  (h.invariant (fun _ => inv_start) inv_step).sound

def booted : HandOver where
  old := { RedisLocalQueue.create 1 60000 with base := wireQueueHandlers (.create 1) }
  new := .create (fun _ => 1) fun _ => 60000
  stage := .startup
  waiting := []

/-- The first job runs during the switch, the second is handed over and claimed by the new queue. -/
def switchLabels : List HandOverLabel :=
  [.old (.enqueueAndClaim { type := "run.execute", idempotencyKey := some "a" } 1 0),
    .old (.claimRegistered 0), .old .drainStarts, .old (.drainContinues 7 0),
    .old (.drainContinues 7 0),
    .old (.enqueueAndClaim { type := "run.execute", idempotencyKey := some "b" } 2 1),
    .old (.claimRegistered 0), .upgradeStarts, .oldClosed, .pushRun,
    .new (.enqueue 0 { type := "maintenance.sweep", idempotencyKey := some "c" } false 3 2),
    .new (.claim 0 3 11), .pushReplied, .new (.start 1), .old (.handlerSettled 0 (.success "done")),
    .old (.taskContinues 0 4), .new (.handlerSettled 1 (.success "done")), .new (.released 1),
    .new (.concluded 1 5)]

theorem handOver_sound_switch :
    ∃ s, LabelledSystem.run step booted switchLabels = some s ∧ s.old.completed = [1] ∧
      s.new.log = [.completed 2, .decided 2, .won 2, .started 2, .claimed 2] ∧ s.Sound := by
  have hRun : (LabelledSystem.run step booted switchLabels).map
      (fun s => (s.old.completed, s.new.log)) =
      some ([1], [.completed 2, .decided 2, .won 2, .started 2, .claimed 2]) := by decide +kernel
  obtain ⟨s, hs, hEnd⟩ := Option.map_eq_some_iff.mp hRun
  simp only [Prod.mk.injEq] at hEnd
  have hStart : LabelledSystem.Reach step Orderly Start booted := .start ⟨1, 60000, rfl⟩
  have hReach := hStart.run hs (by decide +kernel)
  exact ⟨s, hs, hEnd.1, hEnd.2, handOver_sound hReach⟩

/-- The key of a job that goes on running in the old queue is free in the new one. -/
theorem running_key_accepted :
    ¬ ∀ s, LabelledSystem.Reach step LabelledSystem.Anything Start s → s.Sound := by
  intro h
  have hRun : (LabelledSystem.run step booted
      [.old (.enqueue { type := "run.execute", idempotencyKey := some "k" } 1 0),
        .old .drainStarts, .old (.drainContinues 7 0), .old (.drainContinues 7 0),
        .upgradeStarts, .oldClosed,
        .new (.enqueue 0 { type := "run.execute", idempotencyKey := some "k" } false 2 1)]).any
      (fun s => decide (s.old.tasks.map (fun task => task.job.idempotencyKey) = [some "k"] ∧
        ¬ (s.transfer.unfinished.filterMap Prod.snd).Nodup)) = true := by decide +kernel
  obtain ⟨s, hs, hTwo⟩ := Option.any_eq_true _ _ |>.mp hRun
  have hSound := h s (LabelledSystem.reach_of_run ⟨1, 60000, rfl⟩ hs)
  exact (of_decide_eq_true hTwo).2 hSound.keys

end HandOver

end OrchestraAI.Queue
