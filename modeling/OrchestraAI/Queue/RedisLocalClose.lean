import OrchestraAI.Queue.GracefulClose
import OrchestraAI.Queue.RedisLocal

/-! # Closing the Redis provider without Redis

Here `close` rejects its waiters with or without `drain`, but it can return while
the loop of `_drain` holds a job or a reclaim timer is set, and its local list
stays in place.
-/

namespace OrchestraAI.Queue

namespace RedisLocalQueue

open WorkBag

def closeView (s : RedisLocalQueue) : CloseView where
  accepted := s.accepted.map Job.id
  lateAccepted := s.lateAccepted
  parked := s.pending.map Job.id ++ s.drain.job.map Job.id ++
    (s.retryTimers.map fun b => b.job.id) ++ s.reclaimTimers.map Job.id
  busy := s.tasks.map fun task => task.job.id
  ended := s.completed ++ s.failedJobs ++ s.dropped
  waiting := s.base.waiting
  closeReturns := s.closeReturns

def Quiet (s : RedisLocalQueue) : Prop :=
  s.drain.job = [] ∧ s.retryTimers = [] ∧ s.reclaimTimers = []

def MayReturn (s : RedisLocalQueue) (rejectWaiters : Bool) : Prop :=
  s.Quiet ∧ WaitersHandled s.base rejectWaiters (s.tasks.map fun task => task.job.id)

def CleanClose (s : RedisLocalQueue) : RedisLocalLabel → Prop
  | .enqueue opts id now => IntakeOpen s.base opts id now
  | .enqueueAndWait opts id now => IntakeOpen s.base opts id now
  | .enqueueAndClaim opts id now => IntakeOpen s.base opts id now
  | .claimRegistered k =>
    ClaimInTime s.base s.closeReturns (s.tasks.map fun task => task.job.id) s.claiming[k]?
  | .closeCalled opts _ => opts.drain = true ∨ s.MayReturn opts.rejectWaiters
  | .closeReturned k _ => ∀ c ∈ s.closing[k]?, s.MayReturn c.rejectWaiters
  | _ => True

instance (s : RedisLocalQueue) : Decidable s.Quiet := inferInstanceAs (Decidable (_ ∧ _ ∧ _))

instance (s : RedisLocalQueue) (rejectWaiters : Bool) : Decidable (s.MayReturn rejectWaiters) :=
  inferInstanceAs (Decidable (_ ∧ _))

instance (s : RedisLocalQueue) (l : RedisLocalLabel) : Decidable (s.CleanClose l) := by
  cases l <;> unfold CleanClose <;> infer_instance

structure CloseInv (s : RedisLocalQueue) : Prop extends s.closeView.Settling where
  closing : s.closing ≠ [] → s.base.closed = true
  closed : 0 < s.closeReturns → s.base.closed = true
  quiet : 0 < s.closeReturns → s.Quiet

theorem closeInv_create (c v : Nat) : CloseInv (create c v) where
  onTime := rfl
  held _ h := by cases h
  reported h := absurd h (Nat.lt_irrefl 0)
  watched h := absurd h (Nat.lt_irrefl 0)
  closing h := absurd rfl h
  closed h := absurd h (Nat.lt_irrefl 0)
  quiet h := absurd h (Nat.lt_irrefl 0)

variable {s t : RedisLocalQueue}

theorem CloseInv.waiters (h : CloseInv s)
    (hView : t.closeView = { s.closeView with waiting := t.base.waiting })
    (hSame : (t.closing, t.base.closed, t.drain.job, t.retryTimers, t.reclaimTimers) =
      (s.closing, s.base.closed, s.drain.job, s.retryTimers, s.reclaimTimers))
    (hWaiting : 0 < s.closeReturns → ∀ id ∈ t.base.waiting,
      id ∈ s.base.waiting ∨ id ∈ s.closeView.busy) : CloseInv t := by
  simp only [Prod.mk.injEq] at hSame
  obtain ⟨hcl, ho, hd, hrt, hrc⟩ := hSame
  have hr : t.closeReturns = s.closeReturns := congrArg CloseView.closeReturns hView
  refine ⟨hView ▸ h.kept rfl rfl rfl (fun _ => .inl) (fun _ => .inr ∘ .inl) (fun _ => id)
    (fun _ _ => id) ?_, ?_, ?_, ?_⟩
  · intro hClosed i hi
    exact (hWaiting hClosed i hi).elim (h.watched hClosed i) id
  · rw [hcl, ho]; exact h.closing
  · rw [hr, ho]; exact h.closed
  · rw [hr]
    intro hClosed
    obtain ⟨h₁, h₂, h₃⟩ := h.quiet hClosed
    exact ⟨hd.trans h₁, hrt.trans h₂, hrc.trans h₃⟩

/-- A step before `close` returns that lets no job go. -/
theorem CloseInv.early (h : CloseInv s) (hOpen : ¬ 0 < s.closeReturns)
    (hSame : (t.accepted, t.lateAccepted, t.closeReturns, t.closing, t.base.closed) =
      (s.accepted, s.lateAccepted, s.closeReturns, s.closing, s.base.closed))
    (hParked : ∀ id ∈ s.closeView.parked,
      id ∈ t.closeView.parked ∨ id ∈ t.closeView.busy ∨ id ∈ t.closeView.ended)
    (hBusy : ∀ id ∈ s.closeView.busy,
      id ∈ t.closeView.parked ∨ id ∈ t.closeView.busy ∨ id ∈ t.closeView.ended)
    (hEnded : ∀ id ∈ s.closeView.ended, id ∈ t.closeView.ended) : CloseInv t := by
  simp only [Prod.mk.injEq] at hSame
  obtain ⟨ha, hl, hr, hcl, ho⟩ := hSame
  refine ⟨h.kept ?_ hl hr hParked hBusy hEnded (fun hp => absurd hp hOpen)
    (fun hp => absurd hp hOpen), ?_, ?_, ?_⟩
  · simp only [closeView, ha]
  · rw [hcl, ho]; exact h.closing
  · rw [hr, ho]; exact h.closed
  · rw [hr]; exact fun hp => absurd hp hOpen

theorem CloseInv.accept (h : CloseInv s) {opts : EnqueueOptions} {id : JobId} {now : Nat}
    {job : Job} {base : BaseJobQueue} (hok : IntakeOpen s.base opts id now)
    (hNorm : s.base.normalizeEnqueue opts id now = (.job job, base))
    (ws : OrderedMap JobId WaiterKind) (cs : List JobId) :
    CloseInv { s.accept job { base with waiters := ws } with claiming := cs } := by
  have hOpen := hok.closed hNorm
  have hReturns : s.closeReturns = 0 := by
    by_contra hne
    rw [h.closed (Nat.pos_of_ne_zero hne)] at hOpen
    cases hOpen
  obtain ⟨rfl, -, hBase⟩ := BaseJobQueue.normalizeEnqueue_job hNorm
  have hClosed : base.closed = s.base.closed := by rw [hBase]
  have hNever : ¬ 0 < s.closeReturns := by omega
  refine ⟨h.accepts (j := id) hReturns ?_ ?_ rfl ?_ ?_ rfl rfl, ?_, ?_, ?_⟩
  · simp only [closeView, RedisLocalQueue.accept, List.map_append]
    rfl
  · simp only [closeView, RedisLocalQueue.accept, hOpen, Bool.false_eq_true, if_false]
  · simp only [closeView, RedisLocalQueue.accept, List.map_append, List.map_cons, List.mem_append,
      List.mem_cons]
    exact .inl (.inl (.inl (.inr (.inl rfl))))
  · intro i hi
    simp only [closeView, RedisLocalQueue.accept, List.map_append, List.mem_append] at hi ⊢
    tauto
  · intro hne
    exact hClosed.trans (h.closing hne)
  · exact fun hp => absurd hp hNever
  · exact fun hp => absurd hp hNever

theorem CloseInv.refused (h : CloseInv s) {opts : EnqueueOptions} {id : JobId} {now : Nat}
    {r : Normalized} {base : BaseJobQueue}
    (hNorm : s.base.normalizeEnqueue opts id now = (r, base)) (hr : ∀ job, r ≠ .job job) :
    CloseInv { s with base := base } := by
  rw [BaseJobQueue.normalizeEnqueue_refused hNorm hr]
  exact h.waiters rfl rfl fun _ _ => .inl

theorem CloseInv.drainNext (h : CloseInv s) (hOpen : ¬ 0 < s.closeReturns)
    (hIdle : s.drain.job = []) : CloseInv s.drainNext := by
  have hSame : s.drainNext.drain.job.map Job.id ++ s.drainNext.pending.map Job.id =
      s.pending.map Job.id := by
    unfold RedisLocalQueue.drainNext
    split
    · split
      · rename_i hp
        simp [DrainPoint.job, hp]
      · rename_i job rest hp
        simp [DrainPoint.job, hp]
    · simp [DrainPoint.job]
  have hRest : s.drainNext = { s with
      pending := s.drainNext.pending, drain := s.drainNext.drain } := by
    unfold RedisLocalQueue.drainNext
    split
    · split <;> rfl
    · rfl
  have hMem : ∀ i, i ∈ s.pending.map Job.id →
      i ∈ s.drainNext.drain.job.map Job.id ∨ i ∈ s.drainNext.pending.map Job.id := by
    intro i hi
    rw [← hSame] at hi
    exact List.mem_append.mp hi
  refine h.early hOpen ?_ ?_ ?_ ?_
  · rw [hRest]
  · intro i hi
    simp only [closeView, hIdle, List.map_nil, List.append_nil, List.mem_append] at hi
    rw [hRest]
    simp only [closeView, List.mem_append]
    rcases hi with (hi | hi) | hi
    · exact .inl (.inl (.inl (hMem i hi).symm))
    · exact .inl (.inl (.inr hi))
    · exact .inl (.inr hi)
  · intro i hi
    rw [hRest]
    exact .inr (.inl hi)
  · intro i hi
    rw [hRest]
    exact hi

theorem CloseInv.drainStarts (h : CloseInv s) (hs : s.drainStarts = some t) : CloseInv t := by
  obtain ⟨⟨hClosed, hIdle⟩, rfl⟩ := Option.ite_some_none_eq_some.mp hs
  refine h.drainNext (fun hp => ?_) (by rw [hIdle]; rfl)
  rw [h.closed hp] at hClosed
  cases hClosed

theorem CloseInv.drainContinues (h : CloseInv s) {leaseToken now : Nat}
    (hs : s.drainContinues leaseToken now = some t) : CloseInv t := by
  have hHolds : s.drain.job ≠ [] → ¬ 0 < s.closeReturns := fun hne hp => hne (h.quiet hp).1
  unfold RedisLocalQueue.drainContinues at hs
  split at hs
  · cases hs
  · rename_i hd
    cases hs
    refine h.waiters ?_ ?_ fun _ _ => .inl
    · simp only [closeView, hd, DrainPoint.job]
    · simp only [hd, DrainPoint.job]
  · rename_i job hd
    cases hs
    refine h.early (hHolds (by simp [hd, DrainPoint.job])) rfl ?_ (fun _ => .inr ∘ .inl)
      (fun _ => id)
    intro i hi
    simp only [closeView, hd, DrainPoint.job] at hi ⊢
    exact .inl hi
  · rename_i job token hd
    have hOpen := hHolds (by simp [hd, DrainPoint.job])
    split at hs
    · cases hs
      have hInvoked : CloseInv { s with
          base := { s.base with running := s.base.running + 1 }.notifyClaim job.id
          tasks := s.tasks ++ [⟨job, token, none⟩]
          drain := .idle } := by
        refine h.early hOpen rfl ?_ ?_ (fun _ => id)
        · intro i hi
          simp only [closeView, hd, DrainPoint.job, List.map_append, List.map_cons, List.map_nil,
            List.mem_append, List.mem_cons, List.not_mem_nil, or_false] at hi ⊢
          tauto
        · intro i hi
          simp only [closeView, List.map_append, List.mem_append] at hi ⊢
          tauto
      exact hInvoked.drainNext hOpen rfl
    · cases hs
      refine h.early hOpen rfl ?_ (fun _ => .inr ∘ .inl) (fun _ => id)
      intro i hi
      simp only [closeView, hd, DrainPoint.job] at hi ⊢
      exact .inl hi
  · rename_i job hd
    have hOpen := hHolds (by simp [hd, DrainPoint.job])
    cases hs
    have hFailed : CloseInv { s.failJob job (MemoryJobQueue.noHandlerError job) now with
        drain := .idle } := by
      refine h.early hOpen rfl ?_ (fun _ => .inr ∘ .inl) ?_
      · intro i hi
        simp only [closeView, failJob, hd, DrainPoint.job, List.map_cons, List.map_nil,
          List.mem_append, List.mem_cons, List.not_mem_nil, or_false] at hi ⊢
        tauto
      · intro i hi
        simp only [closeView, failJob, List.mem_append] at hi ⊢
        tauto
    exact hFailed.drainNext hOpen rfl

theorem busy_serve {k : Nat} {task : LocalTask} (hTask : s.tasks[k]? = some task)
    (ws : List LocalTask) {i : JobId} (hi : i ∈ s.closeView.busy) :
    i = task.job.id ∨ i ∈ (serve s.tasks k ws).map fun task => task.job.id := by
  obtain ⟨other, hm, rfl⟩ := List.mem_map.mp hi
  rcases mem_or_eq (u := ws) hTask hm with rfl | hm
  · exact .inl rfl
  · exact .inr (List.mem_map_of_mem hm)

theorem CloseInv.handlerSettled (h : CloseInv s) {k : Nat} {outcome : Outcome}
    (hs : s.handlerSettled k outcome = some t) : CloseInv t := by
  obtain ⟨task, hTask, hs⟩ := Option.bind_eq_some_iff.mp hs
  obtain ⟨-, rfl⟩ := Option.ite_some_none_eq_some.mp hs
  have hBusy : ∀ i ∈ s.closeView.busy, i ∈ (serve s.tasks k
      [{ task with outcome := some outcome }]).map fun task => task.job.id := by
    intro i hi
    rcases busy_serve hTask [{ task with outcome := some outcome }] hi with rfl | hi
    · exact List.mem_map.mpr ⟨_, mem_serve_right List.mem_cons_self, rfl⟩
    · exact hi
  refine ⟨h.kept rfl rfl rfl (fun _ => .inl) (fun i hi => .inr (.inl (hBusy i hi)))
    (fun _ => id) (fun _ _ => id) ?_, h.closing, h.closed, h.quiet⟩
  exact fun hClosed i hi => hBusy i (h.watched hClosed i hi)

/-- The continuation of a handler ends its job or, before `close`, sets a retry timer. -/
theorem CloseInv.settled (h : CloseInv s) {k : Nat} {task : LocalTask}
    (hTask : s.tasks[k]? = some task) (hTasks : t.tasks = serve s.tasks k [])
    (hPlace : task.job.id ∈ t.closeView.parked ∨ task.job.id ∈ t.closeView.ended)
    (hParked : ∀ i ∈ s.closeView.parked, i ∈ t.closeView.parked)
    (hEnded : ∀ i ∈ s.closeView.ended, i ∈ t.closeView.ended)
    (hRetry : 0 < s.closeReturns → t.retryTimers = s.retryTimers)
    (hWaiting : 0 < s.closeReturns →
      ∀ i ∈ t.base.waiting, i ∈ s.base.waiting ∧ i ≠ task.job.id)
    (hSame : (t.accepted, t.lateAccepted, t.pending, t.drain, t.reclaimTimers, t.closing,
        t.base.closed, t.closeReturns) =
      (s.accepted, s.lateAccepted, s.pending, s.drain, s.reclaimTimers, s.closing,
        s.base.closed, s.closeReturns)) : CloseInv t := by
  simp only [Prod.mk.injEq] at hSame
  obtain ⟨ha, hl, hp, hd, hrc, hcl, ho, hr⟩ := hSame
  have hBusy : ∀ i ∈ s.closeView.busy, i = task.job.id ∨ i ∈ t.closeView.busy := by
    intro i hi
    simp only [closeView, hTasks]
    exact busy_serve hTask [] hi
  refine ⟨h.kept ?_ hl hr (fun i hi => .inl (hParked i hi)) ?_ hEnded ?_ ?_, ?_, ?_, ?_⟩
  · simp only [closeView, ha]
  · intro i hi
    rcases hBusy i hi with rfl | hi
    · exact hPlace.imp_right .inr
    · exact .inr (.inl hi)
  · intro hClosed i hi
    simp only [closeView, hp, hd, hrc, hRetry hClosed] at hi ⊢
    exact hi
  · intro hClosed i hi
    obtain ⟨hOld, hne⟩ := hWaiting hClosed i hi
    exact (hBusy i (h.watched hClosed i hOld)).resolve_left hne
  · rw [hcl, ho]; exact h.closing
  · rw [hr, ho]; exact h.closed
  · intro hClosed
    rw [hr] at hClosed
    obtain ⟨h₁, h₂, h₃⟩ := h.quiet hClosed
    exact ⟨by rw [hd, h₁], (hRetry hClosed).trans h₂, hrc.trans h₃⟩

theorem CloseInv.taskContinues (h : CloseInv s) {k now : Nat}
    (hs : s.taskContinues k now = some t) : CloseInv t := by
  obtain ⟨task, hTask, hs⟩ := Option.bind_eq_some_iff.mp hs
  dsimp only at hs
  split at hs
  · cases hs
  · rename_i result _
    cases hs
    refine h.settled hTask rfl (.inr ?_) (fun _ => id) ?_ (fun _ => rfl)
      (fun _ i => BaseJobQueue.waiting_afterSuccess) ?_
    · simp [closeView, current]
    · intro i hi
      simp only [closeView, List.mem_append] at hi ⊢
      tauto
    · simp only [BaseJobQueue.afterSuccess_closed]
  · rename_i err _
    rcases s.base.afterFailure_cases (s.current task.job) err now with
      ⟨hRetry, hAfter⟩ | ⟨-, dead, hAfter⟩
    · rw [hAfter] at hs
      cases hs
      have hOpen : ¬ 0 < s.closeReturns := by
        intro hp
        simp [BaseJobQueue.willRetry, h.closed hp] at hRetry
      refine h.settled hTask rfl (.inl ?_) ?_ (fun _ => id) (fun hp => absurd hp hOpen)
        (fun hp => absurd hp hOpen) rfl
      · simp [closeView, current]
      · intro i hi
        simp only [closeView, List.map_append, List.mem_append] at hi ⊢
        tauto
    · rw [hAfter] at hs
      cases hs
      refine h.settled hTask rfl (.inr ?_) (fun _ => id) ?_ (fun _ => rfl)
        (fun _ i => BaseJobQueue.waiting_failTerminally (q := { s.base with deadLetter := dead }))
        rfl
      · simp [closeView, current]
      · intro i hi
        simp only [closeView, List.mem_append] at hi ⊢
        tauto

theorem CloseInv.retryElapsed (h : CloseInv s) {k now : Nat}
    (hs : s.retryElapsed k now = some t) : CloseInv t := by
  obtain ⟨b, hb, hs⟩ := Option.map_eq_some_iff.mp hs
  have hOpen : ¬ 0 < s.closeReturns := by
    intro hp
    rw [(h.quiet hp).2.1] at hb
    cases hb
  have hTimers : ∀ i ∈ s.retryTimers.map (fun b => b.job.id), i = b.job.id ∨
      i ∈ (serve s.retryTimers k []).map fun b => b.job.id := by
    intro i hi
    obtain ⟨c, hc, rfl⟩ := List.mem_map.mp hi
    rcases mem_or_eq (u := []) hb hc with rfl | hc
    · exact .inl rfl
    · exact .inr (List.mem_map_of_mem hc)
  split at hs
  · subst hs
    refine h.early hOpen rfl ?_ (fun _ => .inr ∘ .inl) ?_
    · intro i hi
      have hi' := hTimers i
      simp only [closeView, failJob, List.mem_append, List.mem_singleton] at hi ⊢
      tauto
    · intro i hi
      simp only [closeView, failJob, List.mem_append] at hi ⊢
      tauto
  · subst hs
    refine h.early hOpen rfl ?_ (fun _ => .inr ∘ .inl) (fun _ => id)
    intro i hi
    have hi' := hTimers i
    simp only [closeView, List.map_append, List.map_cons, List.map_nil, List.mem_append,
      List.mem_singleton] at hi ⊢
    tauto

theorem CloseInv.reclaimElapsed (h : CloseInv s) {k now : Nat}
    (hs : s.reclaimElapsed k now = some t) : CloseInv t := by
  obtain ⟨job, hJob, hs⟩ := Option.map_eq_some_iff.mp hs
  have hOpen : ¬ 0 < s.closeReturns := by
    intro hp
    rw [(h.quiet hp).2.2] at hJob
    cases hJob
  have hTimers : ∀ i ∈ s.reclaimTimers.map Job.id, i = job.id ∨
      i ∈ (serve s.reclaimTimers k []).map Job.id := by
    intro i hi
    obtain ⟨c, hc, rfl⟩ := List.mem_map.mp hi
    rcases mem_or_eq (u := []) hJob hc with rfl | hc
    · exact .inl rfl
    · exact .inr (List.mem_map_of_mem hc)
  split at hs
  · subst hs
    refine h.early hOpen rfl ?_ (fun _ => .inr ∘ .inl) ?_
    · intro i hi
      have hi' := hTimers i
      simp only [closeView, failJob, List.mem_append, List.mem_singleton] at hi ⊢
      tauto
    · intro i hi
      simp only [closeView, failJob, List.mem_append] at hi ⊢
      tauto
  · subst hs
    refine h.early hOpen rfl ?_ (fun _ => .inr ∘ .inl) (fun _ => id)
    intro i hi
    have hi' := hTimers i
    simp only [closeView, List.map_append, List.map_cons, List.map_nil, List.mem_append,
      List.mem_singleton] at hi ⊢
    tauto

theorem CloseInv.reclaimJob (h : CloseInv s) (hOpen : s.base.closed = false) (now : Nat)
    (record : LocalRecord) :
    CloseInv (reclaimJob now s record) ∧ (reclaimJob now s record).base.closed = false := by
  have hNever : ¬ 0 < s.closeReturns := fun hp => by simp [h.closed hp] at hOpen
  unfold RedisLocalQueue.reclaimJob
  dsimp only
  split
  · refine ⟨h.early hNever rfl ?_ (fun _ => .inr ∘ .inl) (fun _ => id), hOpen⟩
    intro i hi
    simp only [closeView, List.map_append, List.mem_append] at hi ⊢
    tauto
  · refine ⟨h.early hNever rfl (fun _ => .inl) (fun _ => .inr ∘ .inl) ?_, hOpen⟩
    intro i hi
    simp only [closeView, failJob, List.mem_append] at hi ⊢
    tauto

theorem CloseInv.reclaim (h : CloseInv s) {now : Nat} (hs : s.reclaim now = some t) :
    CloseInv t := by
  unfold RedisLocalQueue.reclaim at hs
  split at hs
  · cases hs
  · rename_i hOpen
    cases hs
    have hFold : ∀ (stale : List LocalRecord) (u : RedisLocalQueue), CloseInv u →
        u.base.closed = false → CloseInv (stale.foldl (RedisLocalQueue.reclaimJob now) u) := by
      intro stale
      induction stale with
      | nil => exact fun u hu _ => hu
      | cons record stale ih =>
        intro u hu hClosed
        obtain ⟨hu', hClosed'⟩ := hu.reclaimJob hClosed now record
        exact ih _ hu' hClosed'
    exact hFold _ _ (h.waiters rfl rfl fun _ _ => .inl) (Bool.eq_false_iff.mpr hOpen)

/-- `close` returns while only handlers still hold jobs. -/
theorem CloseInv.finishClose (h : CloseInv s) {rejectWaiters : Bool}
    (hMay : s.MayReturn rejectWaiters) (hClosed : s.base.closed = true) :
    CloseInv (s.finishClose rejectWaiters) := by
  obtain ⟨hQuiet, hHandled⟩ := hMay
  obtain ⟨hDrain, hRetry, hReclaim⟩ := hQuiet
  have hStill : (s.finishClose rejectWaiters).base.closed = true := by
    unfold RedisLocalQueue.finishClose
    cases rejectWaiters <;> exact hClosed
  refine ⟨h.returns rfl rfl ?_ (fun _ => id) rfl ?_ ?_, fun _ => hStill, fun _ => hStill,
    fun _ => ⟨hDrain, hRetry, hReclaim⟩⟩
  · intro i hi
    simp only [closeView, hDrain, hRetry, hReclaim, List.map_nil, List.append_nil] at hi
    simp only [closeView, RedisLocalQueue.finishClose, List.mem_append]
    exact .inr (.inr hi)
  · intro i hi
    simp only [closeView, RedisLocalQueue.finishClose, List.mem_append] at hi ⊢
    tauto
  · exact BaseJobQueue.waiting_rejected hHandled

theorem closeInv_step (s : RedisLocalQueue) (l : RedisLocalLabel) (t : RedisLocalQueue)
    (h : CloseInv s) (hok : CleanClose s l) (hs : step s l = some t) : CloseInv t := by
  cases l with
  | on type =>
    cases hs
    exact h.waiters rfl rfl fun _ _ => .inl
  | enqueue opts id now =>
    obtain ⟨-, rfl⟩ := Option.ite_some_none_eq_some.mp hs
    unfold RedisLocalQueue.enqueue
    split
    · rename_i job base hNorm
      exact h.accept hok hNorm base.waiters s.claiming
    · rename_i r base hr hNorm
      exact h.refused hNorm hr
  | enqueueAndWait opts id now =>
    obtain ⟨-, rfl⟩ := Option.ite_some_none_eq_some.mp hs
    unfold RedisLocalQueue.enqueueAndWait
    split
    · rename_i job base hNorm
      exact h.accept hok hNorm _ s.claiming
    · rename_i r base hr hNorm
      exact h.refused hNorm hr
  | enqueueAndClaim opts id now =>
    obtain ⟨-, rfl⟩ := Option.ite_some_none_eq_some.mp hs
    unfold RedisLocalQueue.enqueueAndClaim
    split
    · rename_i job base hNorm
      exact h.accept hok hNorm base.waiters _
    · rename_i r base hr hNorm
      exact h.refused hNorm hr
  | claimRegistered k =>
    obtain ⟨id, hId, rfl⟩ := Option.map_eq_some_iff.mp hs
    refine h.waiters rfl ?_ fun hClosed i hi => ?_
    · unfold BaseJobQueue.registerClaim
      split <;> rfl
    · rcases BaseJobQueue.waiting_registerClaim hi with hi | ⟨rfl, hNone⟩
      · exact .inl hi
      · rw [CleanClose, hId] at hok
        exact .inr (hok.running hClosed hNone)
  | claimReturned k =>
    obtain ⟨id, -, rfl⟩ := Option.map_eq_some_iff.mp hs
    refine h.waiters rfl rfl fun _ i hi => .inl ?_
    simp only [BaseJobQueue.mem_waiting, OrderedMap.mem_keys_delete] at hi ⊢
    tauto
  | waitTimedOut id =>
    obtain ⟨-, rfl⟩ := Option.ite_some_none_eq_some.mp hs
    refine h.waiters rfl rfl fun _ i hi => .inl ?_
    simp only [BaseJobQueue.mem_waiting, OrderedMap.mem_keys_delete] at hi ⊢
    tauto
  | drainStarts => exact h.drainStarts hs
  | drainContinues leaseToken now => exact h.drainContinues hs
  | renew k now =>
    obtain ⟨task, -, hs⟩ := Option.bind_eq_some_iff.mp hs
    split at hs
    · obtain ⟨-, rfl⟩ := Option.ite_some_none_eq_some.mp hs
      exact h.waiters rfl rfl fun _ _ => .inl
    · cases hs
  | handlerSettled k outcome => exact h.handlerSettled hs
  | taskContinues k now => exact h.taskContinues hs
  | slotReleased k =>
    obtain ⟨id, -, rfl⟩ := Option.map_eq_some_iff.mp hs
    exact h.waiters rfl rfl fun _ _ => .inl
  | retryElapsed k now => exact h.retryElapsed hs
  | reclaim now => exact h.reclaim hs
  | reclaimElapsed k now => exact h.reclaimElapsed hs
  | closeCalled opts now =>
    cases hs
    have hCalled : CloseInv { s with base := { s.base with closed := true } } :=
      ⟨⟨h.onTime, h.held, h.reported, h.watched⟩, fun _ => rfl, fun _ => rfl, h.quiet⟩
    unfold RedisLocalQueue.closeCalled
    by_cases hd : opts.drain = true
    · simp only [hd, if_true]
      exact ⟨⟨h.onTime, h.held, h.reported, h.watched⟩, fun _ => rfl, fun _ => rfl, h.quiet⟩
    · simp only [hd]
      exact hCalled.finishClose (hok.resolve_left hd) rfl
  | closeReturned k now =>
    obtain ⟨c, hc, hs⟩ := Option.bind_eq_some_iff.mp hs
    have hClosed : s.base.closed = true := h.closing fun hn => by simp [hn] at hc
    split at hs
    · cases hs
    · cases hs
      have hServed : CloseInv { s with closing := serve s.closing k [] } :=
        ⟨⟨h.onTime, h.held, h.reported, h.watched⟩, fun _ => hClosed, h.closed, h.quiet⟩
      exact hServed.finishClose (hok c hc) hClosed

theorem graceful_reach (h : LabelledSystem.Reach step CleanClose Start s) :
    s.closeView.Graceful :=
  (h.invariant (fun _ ⟨c, v, hc⟩ => hc ▸ closeInv_create c v) closeInv_step).graceful

end RedisLocalQueue

/-- Both queues close gracefully over the runs that keep to the clean steps. -/
theorem graceful_close {s : MemoryJobQueue} {t : RedisLocalQueue}
    (hMemory : LabelledSystem.Reach MemoryJobQueue.step MemoryJobQueue.CleanClose
      MemoryJobQueue.Start s)
    (hLocal : LabelledSystem.Reach RedisLocalQueue.step RedisLocalQueue.CleanClose
      RedisLocalQueue.Start t) : s.closeView.Graceful ∧ t.closeView.Graceful :=
  ⟨MemoryJobQueue.graceful_reach hMemory, RedisLocalQueue.graceful_reach hLocal⟩

namespace MemoryJobQueue

def closeLabels : List MemoryLabel :=
  [.on "crawl", .enqueueAndWait { type := "crawl" } 1 0, .dispatch 0, .closeCalled {} 5,
    .handlerSucceeded 0 "done" 10, .slotReleased 0, .closeReturned 0 10]

end MemoryJobQueue

namespace RedisLocalQueue

def closeLabels : List RedisLocalLabel :=
  [.on "crawl", .enqueueAndWait { type := "crawl" } 1 0, .drainStarts, .drainContinues 7 0,
    .drainContinues 7 0, .closeCalled {} 5,
    .handlerSettled 0 (.success "done"), .taskContinues 0 10, .slotReleased 0,
    .closeReturned 0 10]

end RedisLocalQueue

theorem graceful_close_running :
    (∃ s, LabelledSystem.run MemoryJobQueue.step (.create 1) MemoryJobQueue.closeLabels = some s ∧
      0 < s.closeReturns ∧ s.closeView.Graceful) ∧
    (∃ s, LabelledSystem.run RedisLocalQueue.step (.create 1 60000) RedisLocalQueue.closeLabels =
      some s ∧ 0 < s.closeReturns ∧ s.closeView.Graceful) := by
  have hMemory : (LabelledSystem.run MemoryJobQueue.step (.create 1)
      MemoryJobQueue.closeLabels).map (fun s => s.closeReturns) = some 1 := by decide
  have hLocal : (LabelledSystem.run RedisLocalQueue.step (.create 1 60000)
      RedisLocalQueue.closeLabels).map (fun s => s.closeReturns) = some 1 := by decide
  obtain ⟨s, hs, hOnce⟩ := Option.map_eq_some_iff.mp hMemory
  obtain ⟨t, ht, hOnce'⟩ := Option.map_eq_some_iff.mp hLocal
  have hBoth := graceful_close ((LabelledSystem.Reach.start ⟨1, rfl⟩).run hs (by decide))
    ((LabelledSystem.Reach.start ⟨1, 60000, rfl⟩).run ht (by decide))
  exact ⟨⟨s, hs, by omega, hBoth.1⟩, ⟨t, ht, by omega, hBoth.2⟩⟩

/-- `enqueue` never looks at `closed`: a job is accepted after `close` has returned. -/
theorem late_enqueue_accepted :
    ¬ ((∀ s, LabelledSystem.Reach MemoryJobQueue.step LabelledSystem.Anything
        MemoryJobQueue.Start s → s.closeView.Graceful) ∧
      (∀ s, LabelledSystem.Reach RedisLocalQueue.step LabelledSystem.Anything
        RedisLocalQueue.Start s → s.closeView.Graceful)) := by
  intro h
  have hRun : (LabelledSystem.run MemoryJobQueue.step (.create 1)
      [.closeCalled {} 0, .closeReturned 0 0, .enqueue { type := "crawl" } 1 5]).map
      (fun s => s.closeView.lateAccepted) = some [1] := by decide
  obtain ⟨s, hs, hLate⟩ := Option.map_eq_some_iff.mp hRun
  have hGraceful := h.1 s (LabelledSystem.reach_of_run ⟨1, rfl⟩ hs)
  rw [hGraceful.1] at hLate
  cases hLate

end OrchestraAI.Queue
