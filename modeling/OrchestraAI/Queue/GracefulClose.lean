import OrchestraAI.Queue.Memory

/-! # Closing a queue

What `close` owes to the jobs and the waiters, stated on a view that both
providers give of themselves, and the rule that carries it through a run: a job
that no handler holds must have been counted as dropped when `close` returns.
-/

namespace OrchestraAI.Queue

/-- What a graceful close is about: `parked` jobs wait for a handler, `busy` ones have it. -/
structure CloseView where
  accepted : List JobId
  lateAccepted : List JobId
  parked : List JobId
  busy : List JobId
  ended : List JobId
  waiting : List JobId
  closeReturns : Nat

def CloseView.Graceful (v : CloseView) : Prop :=
  v.lateAccepted = [] ∧
  (0 < v.closeReturns → v.busy = [] → (∀ id ∈ v.accepted, id ∈ v.ended) ∧ v.waiting = [])

instance (v : CloseView) : Decidable v.Graceful := inferInstanceAs (Decidable (_ ∧ _))

structure CloseView.Settling (v : CloseView) : Prop where
  onTime : v.lateAccepted = []
  held : ∀ id ∈ v.accepted, id ∈ v.parked ∨ id ∈ v.busy ∨ id ∈ v.ended
  reported : 0 < v.closeReturns → ∀ id ∈ v.parked, id ∈ v.ended
  watched : 0 < v.closeReturns → ∀ id ∈ v.waiting, id ∈ v.busy

namespace CloseView

variable {v w : CloseView}

theorem Settling.graceful (h : v.Settling) : v.Graceful := by
  refine ⟨h.onTime, fun hClosed hIdle => ⟨fun id hid => ?_, ?_⟩⟩
  · rcases h.held id hid with hp | hb | he
    · exact h.reported hClosed id hp
    · rw [hIdle] at hb
      cases hb
    · exact he
  · refine List.eq_nil_iff_forall_not_mem.mpr fun id hid => ?_
    have hb := h.watched hClosed id hid
    rw [hIdle] at hb
    cases hb

theorem Settling.kept (h : v.Settling) (hAcc : w.accepted = v.accepted)
    (hLate : w.lateAccepted = v.lateAccepted) (hReturns : w.closeReturns = v.closeReturns)
    (hParked : ∀ id ∈ v.parked, id ∈ w.parked ∨ id ∈ w.busy ∨ id ∈ w.ended)
    (hBusy : ∀ id ∈ v.busy, id ∈ w.parked ∨ id ∈ w.busy ∨ id ∈ w.ended)
    (hEnded : ∀ id ∈ v.ended, id ∈ w.ended)
    (hReported : 0 < v.closeReturns → ∀ id ∈ w.parked, id ∈ v.parked)
    (hWatched : 0 < v.closeReturns → ∀ id ∈ w.waiting, id ∈ w.busy) : w.Settling where
  onTime := hLate.trans h.onTime
  held id hid := by
    rcases h.held id (hAcc ▸ hid) with hp | hb | he
    · exact hParked id hp
    · exact hBusy id hb
    · exact .inr (.inr (hEnded id he))
  reported hClosed id hid := by
    rw [hReturns] at hClosed
    exact hEnded id (h.reported hClosed id (hReported hClosed id hid))
  watched hClosed := hWatched (hReturns ▸ hClosed)

/-- A new job is parked while no `close` has returned. -/
theorem Settling.accepts (h : v.Settling) {j : JobId} (hOpen : v.closeReturns = 0)
    (hAcc : w.accepted = v.accepted ++ [j]) (hLate : w.lateAccepted = v.lateAccepted)
    (hReturns : w.closeReturns = v.closeReturns) (hNew : j ∈ w.parked)
    (hParked : ∀ i ∈ v.parked, i ∈ w.parked) (hBusy : w.busy = v.busy)
    (hEnded : w.ended = v.ended) : w.Settling where
  onTime := hLate.trans h.onTime
  held i hi := by
    rw [hAcc, List.mem_append, List.mem_singleton] at hi
    rw [hBusy, hEnded]
    rcases hi with hi | rfl
    · exact (h.held i hi).imp_left (hParked i)
    · exact .inl hNew
  reported hClosed := by omega
  watched hClosed := by omega

/-- `close` returns: what is still parked is reported, what still waits is running. -/
theorem Settling.returns (h : v.Settling) (hAcc : w.accepted = v.accepted)
    (hLate : w.lateAccepted = v.lateAccepted)
    (hReported : ∀ id ∈ v.parked, id ∈ w.ended) (hParked : ∀ id ∈ w.parked, id ∈ v.parked)
    (hBusy : w.busy = v.busy) (hEnded : ∀ id ∈ v.ended, id ∈ w.ended)
    (hWatched : ∀ id ∈ w.waiting, id ∈ w.busy) : w.Settling where
  onTime := hLate.trans h.onTime
  held id hid := by
    rw [hBusy]
    rcases h.held id (hAcc ▸ hid) with hp | hb | he
    · exact .inr (.inr (hReported id hp))
    · exact .inr (.inl hb)
    · exact .inr (.inr (hEnded id he))
  reported _ id hid := hReported id (hParked id hid)
  watched _ := hWatched

end CloseView

namespace BaseJobQueue

def waiting (q : BaseJobQueue) : List JobId := q.waiters.keys ++ q.claimWaiters.keys

variable {q : BaseJobQueue}

theorem mem_waiting {id : JobId} :
    id ∈ q.waiting ↔ id ∈ q.waiters.keys ∨ id ∈ q.claimWaiters.keys := List.mem_append

theorem waiting_settleWaiter {id : JobId} {o : Outcome} {n : Nat} {i : JobId}
    (h : i ∈ (q.settleWaiter id o n).waiting) : i ∈ q.waiting ∧ i ≠ id := by
  simp only [mem_waiting, settleWaiter, OrderedMap.mem_keys_delete] at h ⊢
  tauto

theorem waiting_afterSuccess {job : Job} {result : String} {now : Nat} {i : JobId}
    (h : i ∈ (q.afterSuccess job result now).waiting) : i ∈ q.waiting ∧ i ≠ job.id := by
  rw [afterSuccess_frame] at h
  exact waiting_settleWaiter (o := .success result) (n := now) h

theorem afterSuccess_closed (job : Job) (result : String) (now : Nat) :
    (q.afterSuccess job result now).closed = q.closed := by rw [afterSuccess_frame]

theorem waiting_failTerminally {job : Job} {err : JobError} {now : Nat} {i : JobId}
    (h : i ∈ (q.failTerminally job err now).waiting) : i ∈ q.waiting ∧ i ≠ job.id :=
  waiting_settleWaiter (q := { q with failed := q.failed + 1 }.releaseKey job) h

theorem waiting_registerClaim {id i : JobId} (h : i ∈ (q.registerClaim id).waiting) :
    i ∈ q.waiting ∨ (i = id ∧ q.settledCache.get id = none) := by
  unfold registerClaim at h
  split at h
  · exact .inl h
  · rename_i hNone
    simp only [mem_waiting, OrderedMap.mem_keys_set] at h ⊢
    tauto

end BaseJobQueue

/-- An `enqueue` that would be accepted comes before `close`. -/
def IntakeOpen (q : BaseJobQueue) (opts : EnqueueOptions) (id : JobId) (now : Nat) : Prop :=
  match q.normalizeEnqueue opts id now with
  | (.job _, _) => q.closed = false
  | _ => True

/-- A claim registered after `close` concerns a settled outcome or a running job. -/
def ClaimInTime (q : BaseJobQueue) (closeReturns : Nat) (busy : List JobId) :
    Option JobId → Prop
  | none => True
  | some id => 0 < closeReturns → q.settledCache.has id = true ∨ id ∈ busy

/-- Whoever still waits when `close` returns is rejected or has a running job. -/
def WaitersHandled (q : BaseJobQueue) (rejectWaiters : Bool) (busy : List JobId) : Prop :=
  rejectWaiters = true ∨ ∀ id ∈ q.waiting, id ∈ busy

theorem IntakeOpen.closed {q base : BaseJobQueue} {opts : EnqueueOptions} {id : JobId}
    {now : Nat} {job : Job} (h : IntakeOpen q opts id now)
    (hNorm : q.normalizeEnqueue opts id now = (.job job, base)) : q.closed = false := by
  simpa only [IntakeOpen, hNorm] using h

instance (q : BaseJobQueue) (opts : EnqueueOptions) (id : JobId) (now : Nat) :
    Decidable (IntakeOpen q opts id now) := by
  unfold IntakeOpen; split <;> infer_instance

instance (q : BaseJobQueue) (n : Nat) (busy : List JobId) (claim : Option JobId) :
    Decidable (ClaimInTime q n busy claim) := by
  unfold ClaimInTime; split <;> infer_instance

instance (q : BaseJobQueue) (rejectWaiters : Bool) (busy : List JobId) :
    Decidable (WaitersHandled q rejectWaiters busy) := inferInstanceAs (Decidable (_ ∨ _))

/-- A claim that comes after `close` and finds no outcome concerns a running job. -/
theorem ClaimInTime.running {q : BaseJobQueue} {n : Nat} {busy : List JobId} {id : JobId}
    (h : ClaimInTime q n busy (some id)) (hn : 0 < n) (hNone : q.settledCache.get id = none) :
    id ∈ busy :=
  (h hn).resolve_left (by simp [OrderedMap.has, hNone])

theorem BaseJobQueue.waiting_rejected {q : BaseJobQueue} {rejectWaiters : Bool}
    {busy : List JobId} (h : WaitersHandled q rejectWaiters busy) :
    ∀ i ∈ (if rejectWaiters then q.rejectAllWaiters else q).waiting, i ∈ busy := by
  intro i hi
  rcases h with rfl | h
  · simp [waiting, rejectAllWaiters] at hi
  · cases rejectWaiters with
    | true => simp [waiting, rejectAllWaiters] at hi
    | false => exact h i hi

namespace MemoryJobQueue

def closeView (s : MemoryJobQueue) : CloseView where
  accepted := s.accepted.map Job.id
  lateAccepted := s.lateAccepted
  parked := s.pending.map Job.id ++ s.backoff.map fun b => b.job.id
  busy := s.invoked.map Job.id
  ended := s.completed ++ s.failedJobs ++ s.dropped
  waiting := s.base.waiting
  closeReturns := s.closeReturns

/-- What `close` needs of the state in which it returns; without `drain` no waiter is rejected. -/
def MayReturn (s : MemoryJobQueue) (rejectWaiters : Bool) : Prop :=
  s.backoff = [] ∧ WaitersHandled s.base rejectWaiters (s.invoked.map Job.id)

def CleanClose (s : MemoryJobQueue) : MemoryLabel → Prop
  | .enqueue opts id now => IntakeOpen s.base opts id now
  | .enqueueAndWait opts id now => IntakeOpen s.base opts id now
  | .enqueueAndClaim opts id now => IntakeOpen s.base opts id now
  | .claimRegistered k =>
    ClaimInTime s.base s.closeReturns (s.invoked.map Job.id) s.claiming[k]?
  | .closeCalled opts _ => opts.drain = true ∨ s.MayReturn false
  | .closeReturned k _ => ∀ c ∈ s.closing[k]?, s.MayReturn c.rejectWaiters
  | _ => True

instance (s : MemoryJobQueue) (rejectWaiters : Bool) : Decidable (s.MayReturn rejectWaiters) :=
  inferInstanceAs (Decidable (_ ∧ _))

instance (s : MemoryJobQueue) (l : MemoryLabel) : Decidable (s.CleanClose l) := by
  cases l <;> unfold CleanClose <;> infer_instance

structure CloseInv (s : MemoryJobQueue) : Prop extends s.closeView.Settling where
  closing : s.closing ≠ [] → s.base.closed = true
  closed : 0 < s.closeReturns → s.base.closed = true
  backoff : 0 < s.closeReturns → s.backoff = []
  pending : 0 < s.closeReturns → s.pending = []

theorem closeInv_create (c : Nat) : CloseInv (create c) where
  onTime := rfl
  held _ h := by cases h
  reported h := absurd h (Nat.lt_irrefl 0)
  watched h := absurd h (Nat.lt_irrefl 0)
  closing h := absurd rfl h
  closed h := absurd h (Nat.lt_irrefl 0)
  backoff h := absurd h (Nat.lt_irrefl 0)
  pending h := absurd h (Nat.lt_irrefl 0)

variable {s t : MemoryJobQueue}

theorem CloseInv.waiters (h : CloseInv s)
    (hSame : (t.accepted, t.lateAccepted, t.pending, t.backoff, t.invoked, t.completed,
        t.failedJobs, t.dropped, t.closing, t.base.closed, t.closeReturns) =
      (s.accepted, s.lateAccepted, s.pending, s.backoff, s.invoked, s.completed,
        s.failedJobs, s.dropped, s.closing, s.base.closed, s.closeReturns))
    (hWaiting : 0 < s.closeReturns → ∀ id ∈ t.base.waiting,
      id ∈ s.base.waiting ∨ id ∈ s.invoked.map Job.id) : CloseInv t := by
  simp only [Prod.mk.injEq] at hSame
  obtain ⟨ha, hl, hp, hb, hi, hc, hf, hd, hcl, ho, hr⟩ := hSame
  have hView : t.closeView = { s.closeView with waiting := t.base.waiting } := by
    simp only [closeView, ha, hl, hp, hb, hi, hc, hf, hd, hr]
  refine ⟨hView ▸ h.kept rfl rfl rfl (fun _ => .inl) (fun _ => .inr ∘ .inl) (fun _ => id)
    (fun _ _ => id) ?_, ?_, ?_, ?_, ?_⟩
  · intro hClosed i hi
    exact (hWaiting hClosed i hi).elim (h.watched hClosed i) id
  · rw [hcl, ho]; exact h.closing
  · rw [hr, ho]; exact h.closed
  · rw [hr, hb]; exact h.backoff
  · rw [hr, hp]; exact h.pending

theorem CloseInv.push (h : CloseInv s) {opts : EnqueueOptions} {id : JobId} {now : Nat}
    {job : Job} {base : BaseJobQueue} (hok : IntakeOpen s.base opts id now)
    (hNorm : s.base.normalizeEnqueue opts id now = (.job job, base))
    (ws : OrderedMap JobId WaiterKind) (cs : List JobId) :
    CloseInv { s.push job { base with waiters := ws } with claiming := cs } := by
  have hOpen := hok.closed hNorm
  have hReturns : s.closeReturns = 0 := by
    by_contra hne
    rw [h.closed (Nat.pos_of_ne_zero hne)] at hOpen
    cases hOpen
  obtain ⟨rfl, -, hBase⟩ := BaseJobQueue.normalizeEnqueue_job hNorm
  have hClosed : base.closed = s.base.closed := by rw [hBase]
  have hNever : ¬ 0 < s.closeReturns := by omega
  refine ⟨h.accepts (j := id) hReturns ?_ ?_ rfl ?_ ?_ rfl rfl, ?_, ?_, ?_, ?_⟩
  · simp only [closeView, MemoryJobQueue.push, List.map_append]
    rfl
  · simp only [closeView, MemoryJobQueue.push, hOpen, Bool.false_eq_true, if_false]
  · simp only [closeView, MemoryJobQueue.push, List.map_append]
    exact List.mem_append_left _ (List.mem_append_right _ List.mem_cons_self)
  · intro i hi
    simp only [closeView, MemoryJobQueue.push, List.map_append, List.mem_append] at hi ⊢
    tauto
  · intro hne
    exact hClosed.trans (h.closing hne)
  · exact fun hp => absurd hp hNever
  · exact fun hp => absurd hp hNever
  · exact fun hp => absurd hp hNever

theorem CloseInv.refused (h : CloseInv s) {opts : EnqueueOptions} {id : JobId} {now : Nat}
    {r : Normalized} {base : BaseJobQueue}
    (hNorm : s.base.normalizeEnqueue opts id now = (r, base)) (hr : ∀ job, r ≠ .job job) :
    CloseInv { s with base := base } := by
  rw [BaseJobQueue.normalizeEnqueue_refused hNorm hr]
  exact h.waiters rfl fun _ _ => .inl

theorem CloseInv.dispatch (h : CloseInv s) {now : Nat} (hs : s.dispatch now = some t) :
    CloseInv t := by
  unfold MemoryJobQueue.dispatch at hs
  split at hs
  · cases hs
  · rename_i job rest hPending
    split at hs
    · cases hs
    · rename_i hRoom
      have hOpen : ¬ 0 < s.closeReturns := fun hp => hRoom (.inl (h.closed hp))
      split at hs
      · cases hs
        refine ⟨h.kept rfl rfl rfl ?_ ?_ (fun _ => id) ?_ ?_, h.closing, ?_, ?_, ?_⟩
        · intro i hi
          simp only [closeView, hPending, List.map_append, List.map_cons, List.map_nil,
            List.mem_append, List.mem_cons, List.not_mem_nil, or_false] at hi ⊢
          tauto
        · intro i hi
          simp only [closeView, List.map_append, List.mem_append] at hi ⊢
          tauto
        all_goals exact fun hp => absurd hp hOpen
      · cases hs
        refine ⟨h.kept rfl rfl rfl ?_ (fun _ => .inr ∘ .inl) ?_ ?_ ?_, h.closing, ?_, ?_, ?_⟩
        · intro i hi
          simp only [closeView, settleFailure, hPending, List.map_cons, List.mem_append,
            List.mem_cons, List.not_mem_nil, or_false] at hi ⊢
          tauto
        · intro i hi
          simp only [closeView, settleFailure, List.mem_append] at hi ⊢
          tauto
        all_goals exact fun hp => absurd hp hOpen

theorem CloseInv.settled (h : CloseInv s) {k : Nat} {job : Job} (hJob : s.invoked[k]? = some job)
    (hInvoked : t.invoked = WorkBag.serve s.invoked k [])
    (hPlace : job.id ∈ t.closeView.parked ∨ job.id ∈ t.closeView.ended)
    (hParked : ∀ i ∈ s.closeView.parked, i ∈ t.closeView.parked)
    (hEnded : ∀ i ∈ s.closeView.ended, i ∈ t.closeView.ended)
    (hRetry : 0 < s.closeReturns → t.backoff = s.backoff)
    (hWaiting : 0 < s.closeReturns → ∀ i ∈ t.base.waiting, i ∈ s.base.waiting ∧ i ≠ job.id)
    (hSame : (t.accepted, t.lateAccepted, t.pending, t.closing, t.base.closed, t.closeReturns) =
      (s.accepted, s.lateAccepted, s.pending, s.closing, s.base.closed, s.closeReturns)) :
    CloseInv t := by
  simp only [Prod.mk.injEq] at hSame
  obtain ⟨ha, hl, hp, hcl, ho, hr⟩ := hSame
  have hBusy : ∀ i ∈ s.closeView.busy, i = job.id ∨ i ∈ t.closeView.busy := by
    intro i hi
    obtain ⟨j, hj, rfl⟩ := List.mem_map.mp hi
    rcases WorkBag.mem_or_eq (u := []) hJob hj with rfl | hj
    · exact .inl rfl
    · exact .inr (List.mem_map_of_mem (hInvoked ▸ hj))
  refine ⟨h.kept ?_ hl hr (fun i hi => .inl (hParked i hi)) ?_ hEnded ?_ ?_, ?_, ?_, ?_, ?_⟩
  · simp only [closeView, ha]
  · intro i hi
    rcases hBusy i hi with rfl | hi
    · exact hPlace.imp_right .inr
    · exact .inr (.inl hi)
  · intro hClosed i hi
    simp only [closeView, hp, hRetry hClosed] at hi ⊢
    exact hi
  · intro hClosed i hi
    obtain ⟨hOld, hne⟩ := hWaiting hClosed i hi
    exact (hBusy i (h.watched hClosed i hOld)).resolve_left hne
  · rw [hcl, ho]; exact h.closing
  · rw [hr, ho]; exact h.closed
  · intro hClosed
    rw [hr] at hClosed
    rw [hRetry hClosed]
    exact h.backoff hClosed
  · rw [hr, hp]; exact h.pending

theorem CloseInv.handlerSucceeded (h : CloseInv s) {k now : Nat} {result : String}
    (hs : s.handlerSucceeded k result now = some t) : CloseInv t := by
  obtain ⟨job, hJob, rfl⟩ := Option.map_eq_some_iff.mp hs
  refine h.settled hJob rfl (.inr ?_) (fun _ => id) ?_ (fun _ => rfl)
    (fun _ i => BaseJobQueue.waiting_afterSuccess) ?_
  · simp [closeView, settleSuccess]
  · intro i hi
    simp only [closeView, settleSuccess, List.mem_append] at hi ⊢
    tauto
  · simp only [settleSuccess, BaseJobQueue.afterSuccess_closed]

theorem CloseInv.handlerFailed (h : CloseInv s) {k now : Nat} {err : JobError}
    (hs : s.handlerFailed k err now = some t) : CloseInv t := by
  obtain ⟨job, hJob, hs⟩ := Option.map_eq_some_iff.mp hs
  rcases s.base.afterFailure_cases job err now with ⟨hRetry, hAfter⟩ | ⟨-, dead, hAfter⟩
  · rw [hAfter] at hs
    subst hs
    have hOpen : ¬ 0 < s.closeReturns := by
      intro hp
      simp [BaseJobQueue.willRetry, h.closed hp] at hRetry
    refine h.settled hJob rfl (.inl ?_) ?_ (fun _ => id) (fun hp => absurd hp hOpen)
      (fun hp => absurd hp hOpen) rfl
    · simp [closeView]
    · intro i hi
      simp only [closeView, List.map_append, List.mem_append] at hi ⊢
      tauto
  · rw [hAfter] at hs
    subst hs
    refine h.settled hJob rfl (.inr ?_) (fun _ => id) ?_ (fun _ => rfl)
      (fun _ i => BaseJobQueue.waiting_failTerminally (q := { s.base with deadLetter := dead })) rfl
    · simp [closeView, settleFailure]
    · intro i hi
      simp only [closeView, settleFailure, List.mem_append] at hi ⊢
      tauto

theorem CloseInv.backoffElapsed (h : CloseInv s) {k now : Nat}
    (hs : s.backoffElapsed k now = some t) : CloseInv t := by
  obtain ⟨b, hb, hs⟩ := Option.map_eq_some_iff.mp hs
  have hOpen : ¬ 0 < s.closeReturns := by
    intro hp
    rw [h.backoff hp] at hb
    cases hb
  have hParked : ∀ i ∈ s.closeView.parked, i = b.job.id ∨ i ∈ s.pending.map Job.id ∨
      i ∈ (WorkBag.serve s.backoff k []).map fun b => b.job.id := by
    intro i hi
    rcases List.mem_append.mp hi with hi | hi
    · exact .inr (.inl hi)
    · obtain ⟨c, hc, rfl⟩ := List.mem_map.mp hi
      rcases WorkBag.mem_or_eq (u := []) hb hc with rfl | hc
      · exact .inl rfl
      · exact .inr (.inr (List.mem_map_of_mem hc))
  split at hs
  · subst hs
    refine ⟨h.kept rfl rfl rfl ?_ (fun _ => .inr ∘ .inl) ?_ (fun hp => absurd hp hOpen)
      (fun hp => absurd hp hOpen), h.closing, fun hp => absurd hp hOpen,
      fun hp => absurd hp hOpen, fun hp => absurd hp hOpen⟩
    · intro i hi
      rcases hParked i hi with rfl | hi | hi
      · exact .inr (.inr (by simp [closeView]))
      · exact .inl (List.mem_append_left _ hi)
      · exact .inl (List.mem_append_right _ hi)
    · intro i hi
      simp only [closeView, List.mem_append] at hi ⊢
      tauto
  · subst hs
    refine ⟨h.kept rfl rfl rfl ?_ (fun _ => .inr ∘ .inl) (fun _ => id)
      (fun hp => absurd hp hOpen) (fun hp => absurd hp hOpen), h.closing,
      fun hp => absurd hp hOpen, fun hp => absurd hp hOpen, fun hp => absurd hp hOpen⟩
    intro i hi
    simp only [closeView, List.map_append, List.mem_append]
    rcases hParked i hi with rfl | hi | hi
    · exact .inl (.inl (.inr (by simp)))
    · exact .inl (.inl (.inl hi))
    · exact .inl (.inr hi)

/-- `close` returns with no timer left. -/
theorem CloseInv.finish (h : CloseInv s) (hRetry : s.backoff = [])
    (hWaiting : ∀ i ∈ t.base.waiting, i ∈ s.invoked.map Job.id) (hClosed : t.base.closed = true)
    (hPending : t.pending = []) (hDropped : t.dropped = s.dropped ++ s.pending.map Job.id)
    (hSame : (t.accepted, t.lateAccepted, t.backoff, t.invoked, t.completed, t.failedJobs) =
      (s.accepted, s.lateAccepted, s.backoff, s.invoked, s.completed, s.failedJobs)) :
    CloseInv t := by
  simp only [Prod.mk.injEq] at hSame
  obtain ⟨ha, hl, hb, hi, hc, hf⟩ := hSame
  refine ⟨h.returns ?_ hl ?_ ?_ ?_ ?_ ?_, fun _ => hClosed, fun _ => hClosed, ?_, ?_⟩
  · simp only [closeView, ha]
  · intro i hi
    simp only [closeView, hRetry, hDropped, List.map_nil, List.append_nil, List.mem_append] at hi ⊢
    exact .inr (.inr hi)
  · intro i hi
    simp only [closeView, hPending, hb, hRetry, List.map_nil, List.append_nil] at hi
    cases hi
  · simp only [closeView, hi]
  · intro i hi
    simp only [closeView, hc, hf, hDropped, List.mem_append] at hi ⊢
    tauto
  · intro i hm
    simp only [closeView, hi]
    exact hWaiting i hm
  · exact fun _ => hb.trans hRetry
  · exact fun _ => hPending

theorem closeInv_step (s : MemoryJobQueue) (l : MemoryLabel) (t : MemoryJobQueue)
    (h : CloseInv s) (hok : CleanClose s l) (hs : step s l = some t) : CloseInv t := by
  cases l with
  | on type =>
    cases hs
    exact h.waiters rfl fun _ _ => .inl
  | enqueue opts id now =>
    obtain ⟨-, rfl⟩ := Option.ite_some_none_eq_some.mp hs
    unfold MemoryJobQueue.enqueue
    split
    · rename_i job base hNorm
      exact h.push hok hNorm base.waiters s.claiming
    · rename_i r base hr hNorm
      exact h.refused hNorm hr
  | enqueueAndWait opts id now =>
    obtain ⟨-, rfl⟩ := Option.ite_some_none_eq_some.mp hs
    unfold MemoryJobQueue.enqueueAndWait
    split
    · rename_i job base hNorm
      exact h.push hok hNorm _ s.claiming
    · rename_i r base hr hNorm
      exact h.refused hNorm hr
  | enqueueAndClaim opts id now =>
    obtain ⟨-, rfl⟩ := Option.ite_some_none_eq_some.mp hs
    unfold MemoryJobQueue.enqueueAndClaim
    split
    · rename_i job base hNorm
      exact h.push hok hNorm base.waiters _
    · rename_i r base hr hNorm
      exact h.refused hNorm hr
  | claimRegistered k =>
    obtain ⟨id, hId, rfl⟩ := Option.map_eq_some_iff.mp hs
    refine h.waiters ?_ fun hClosed i hi => ?_
    · unfold BaseJobQueue.registerClaim
      split <;> rfl
    · rcases BaseJobQueue.waiting_registerClaim hi with hi | ⟨rfl, hNone⟩
      · exact .inl hi
      · rw [CleanClose, hId] at hok
        exact .inr (hok.running hClosed hNone)
  | claimReturned k =>
    obtain ⟨id, -, rfl⟩ := Option.map_eq_some_iff.mp hs
    refine h.waiters rfl fun _ i hi => .inl ?_
    simp only [BaseJobQueue.mem_waiting, OrderedMap.mem_keys_delete] at hi ⊢
    tauto
  | waitTimedOut id =>
    obtain ⟨-, rfl⟩ := Option.ite_some_none_eq_some.mp hs
    refine h.waiters rfl fun _ i hi => .inl ?_
    simp only [BaseJobQueue.mem_waiting, OrderedMap.mem_keys_delete] at hi ⊢
    tauto
  | dispatch now => exact h.dispatch hs
  | handlerSucceeded k result now => exact h.handlerSucceeded hs
  | handlerFailed k err now => exact h.handlerFailed hs
  | slotReleased k =>
    obtain ⟨id, -, rfl⟩ := Option.map_eq_some_iff.mp hs
    exact h.waiters rfl fun _ _ => .inl
  | backoffElapsed k now => exact h.backoffElapsed hs
  | closeCalled opts now =>
    cases hs
    unfold MemoryJobQueue.closeCalled
    by_cases hd : opts.drain = true
    · simp only [hd, if_true]
      exact ⟨⟨h.onTime, h.held, h.reported, h.watched⟩, fun _ => rfl, fun _ => rfl, h.backoff,
        h.pending⟩
    · obtain ⟨hRetry, hHandled⟩ := hok.resolve_left hd
      simp only [hd]
      exact h.finish hRetry (hHandled.resolve_left Bool.false_ne_true) rfl rfl rfl rfl
  | closeReturned k now =>
    obtain ⟨c, hc, hs⟩ := Option.bind_eq_some_iff.mp hs
    obtain ⟨hRetry, hHandled⟩ := hok c hc
    have hClosed : s.base.closed = true := h.closing fun hn => by simp [hn] at hc
    split at hs
    · cases hs
    · cases hs
      refine h.finish hRetry ?_ ?_ rfl rfl rfl
      · exact BaseJobQueue.waiting_rejected hHandled
      · cases c.rejectWaiters <;> exact hClosed

theorem graceful_reach (h : LabelledSystem.Reach step CleanClose Start s) :
    s.closeView.Graceful :=
  (h.invariant (fun _ ⟨c, hc⟩ => hc ▸ closeInv_create c) closeInv_step).graceful

end MemoryJobQueue

end OrchestraAI.Queue
