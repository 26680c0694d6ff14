import OrchestraAI.Queue.Memory

/-! # Conservation in the memory provider

Before `close` every accepted job is in exactly one place, the slots stay within
`concurrency`, the key table lists the keys of the unfinished jobs and a waiter
hears of one outcome, the last one. A step either moves an unfinished job or ends
it; both are permutations of the list of unfinished jobs.
-/

namespace OrchestraAI.Queue

open WorkBag

def Job.tag (job : Job) : JobId × Option String := (job.id, job.key)

namespace MemoryJobQueue

def live (s : MemoryJobQueue) : List (JobId × Option String) :=
  s.pending.map Job.tag ++ s.invoked.map Job.tag ++ s.backoff.map fun b => b.job.tag

def places (s : MemoryJobQueue) (id : JobId) : Nat :=
  (s.pending.map Job.id).count id + (s.invoked.map Job.id).count id +
    (s.backoff.map fun b => b.job.id).count id + s.completed.count id + s.failedJobs.count id

def terminal (s : MemoryJobQueue) : List JobId := s.completed ++ s.failedJobs

def lastAttempt (s : MemoryJobQueue) (id : JobId) : Option Outcome :=
  (s.attempts.find? fun a => a.1 = id).map Prod.snd

structure Inv (s : MemoryJobQueue) : Prop where
  isOpen : s.base.closed = false
  placed : (s.live.map Prod.fst ++ s.terminal).Perm (s.accepted.map Job.id)
  unique : (s.accepted.map Job.id).Nodup
  origin : ∀ e ∈ s.live, e ∈ s.accepted.map Job.tag
  slots : s.base.running = s.invoked.length + s.finishing.length
  capacity : s.base.running ≤ s.base.concurrency
  keys : ∀ k id, s.base.inflightKeys.get k = some id ↔ (id, some k) ∈ s.live
  processed : s.base.processed = s.completed.length
  failed : s.base.failed = s.failedJobs.length
  once : (s.base.settlements.map Prod.fst).Nodup
  last : ∀ e ∈ s.base.settlements, e.1 ∈ s.terminal ∧ s.lastAttempt e.1 = some e.2

theorem inv_create (c : Nat) : Inv (create c) where
  isOpen := rfl
  placed := .refl _
  unique := List.nodup_nil
  origin _ h := by cases h
  slots := rfl
  capacity := Nat.zero_le _
  keys _ _ := .intro (fun h => by cases h) fun h => by cases h
  processed := rfl
  failed := rfl
  once := List.nodup_nil
  last _ h := by cases h

variable {s t : MemoryJobQueue}

theorem Inv.nodup (h : Inv s) : (s.live.map Prod.fst ++ s.terminal).Nodup :=
  h.placed.nodup_iff.mpr h.unique

theorem Inv.live_not_terminal (h : Inv s) {e : JobId × Option String} (he : e ∈ s.live) :
    e.1 ∉ s.terminal := fun ht =>
  (List.nodup_append.mp h.nodup).2.2 _ (List.mem_map_of_mem he) _ ht rfl

/-- What the invariant reads besides the open jobs, their attempts and the slots. -/
def ledger (s : MemoryJobQueue) :=
  (s.accepted, s.completed, s.failedJobs, s.base.inflightKeys, s.base.settlements,
    s.base.closed, s.base.processed, s.base.failed)

theorem Inv.moved (h : Inv s) (hLive : t.live.Perm s.live) (hSame : t.ledger = s.ledger)
    (hLast : ∀ id ∈ s.terminal, t.lastAttempt id = s.lastAttempt id)
    (hSlots : t.base.running = t.invoked.length + t.finishing.length)
    (hCap : t.base.running ≤ t.base.concurrency) : Inv t := by
  simp only [ledger, Prod.mk.injEq] at hSame
  obtain ⟨ha, hc, hf, hk, hs, ho, hpr, hfa⟩ := hSame
  have hTerm : t.terminal = s.terminal := by rw [terminal, hc, hf]; rfl
  refine ⟨?_, ?_, ?_, ?_, hSlots, hCap, ?_, ?_, ?_, ?_, ?_⟩
  · rw [ho]; exact h.isOpen
  · rw [ha, hTerm]
    exact ((hLive.map Prod.fst).append_right _).trans h.placed
  · rw [ha]; exact h.unique
  · intro e he
    rw [ha]
    exact h.origin e (hLive.mem_iff.mp he)
  · intro k id
    rw [hk, hLive.mem_iff]
    exact h.keys k id
  · rw [hpr, hc]; exact h.processed
  · rw [hfa, hf]; exact h.failed
  · rw [hs]; exact h.once
  · intro e he
    obtain ⟨ht, hl⟩ := h.last e (hs ▸ he)
    exact ⟨hTerm ▸ ht, (hLast e.1 ht).trans hl⟩

/-- An unfinished job ends with outcome `o`: its key is released and its waiter, if it has
one, hears of `o`. -/
theorem Inv.ended (h : Inv s) {j : Job} {o : Outcome}
    (hLive : (j.tag :: t.live).Perm s.live)
    (hTerm : t.terminal.Perm (j.id :: s.terminal))
    (hAcc : t.accepted = s.accepted) (hOpen : t.base.closed = s.base.closed)
    (hKeys : ∀ k, t.base.inflightKeys.get k =
      if j.key = some k then none else s.base.inflightKeys.get k)
    (hSettled : t.base.settlements = s.base.settlements ∨
      t.base.settlements = s.base.settlements ++ [(j.id, o)])
    (hAttempt : t.attempts = (j.id, o) :: s.attempts)
    (hProc : t.base.processed = t.completed.length)
    (hFail : t.base.failed = t.failedJobs.length)
    (hSlots : t.base.running = t.invoked.length + t.finishing.length)
    (hCap : t.base.running ≤ t.base.concurrency) : Inv t := by
  have hMem : ∀ e, e ∈ s.live ↔ e = j.tag ∨ e ∈ t.live := fun e =>
    hLive.symm.mem_iff.trans List.mem_cons
  have hJob : j.tag ∈ s.live := (hMem _).mpr (.inl rfl)
  have hOpenJob : j.id ∉ s.terminal := h.live_not_terminal hJob
  have hPlaced : (t.live.map Prod.fst ++ t.terminal).Perm (s.live.map Prod.fst ++ s.terminal) :=
    calc
      (t.live.map Prod.fst ++ t.terminal).Perm (t.live.map Prod.fst ++ j.id :: s.terminal) :=
        hTerm.append_left _
      List.Perm _ (j.id :: (t.live.map Prod.fst ++ s.terminal)) := List.perm_middle
      List.Perm _ (s.live.map Prod.fst ++ s.terminal) :=
        (hLive.map Prod.fst).append_right s.terminal
  have hEnded : j.id ∈ t.terminal := hTerm.mem_iff.mpr List.mem_cons_self
  have hGone : ∀ e ∈ t.live, e.1 ≠ j.id := by
    intro e he heq
    have hn := hPlaced.nodup_iff.mpr h.nodup
    exact (List.nodup_append.mp hn).2.2 _ (List.mem_map_of_mem he) _ hEnded heq
  have hLast : ∀ id, t.lastAttempt id = if j.id = id then some o else s.lastAttempt id := by
    intro id
    rw [lastAttempt, hAttempt, List.find?_cons]
    by_cases hid : j.id = id <;> simp [hid, lastAttempt]
  have hOld : ∀ e ∈ s.base.settlements, e.1 ∈ t.terminal ∧ t.lastAttempt e.1 = some e.2 := by
    intro e he
    obtain ⟨ht, hl⟩ := h.last e he
    have hne : j.id ≠ e.1 := fun heq => hOpenJob (heq ▸ ht)
    exact ⟨hTerm.mem_iff.mpr (List.mem_cons_of_mem _ ht), by rw [hLast, if_neg hne, hl]⟩
  have hNew : j.id ∉ s.base.settlements.map Prod.fst := by
    intro hm
    obtain ⟨e, he, heq⟩ := List.mem_map.mp hm
    exact hOpenJob (heq ▸ (h.last e he).1)
  refine ⟨hOpen.trans h.isOpen, ?_, ?_, ?_, hSlots, hCap, ?_, hProc, hFail, ?_, ?_⟩
  · rw [hAcc]; exact hPlaced.trans h.placed
  · rw [hAcc]; exact h.unique
  · intro e he
    rw [hAcc]
    exact h.origin e ((hMem e).mpr (.inr he))
  · intro k id
    rw [hKeys]
    by_cases hk : j.key = some k
    · rw [if_pos hk]
      refine ⟨fun hn => (by cases hn), fun he => ?_⟩
      have hHolder := (h.keys k j.id).mpr (hk ▸ hJob)
      have hid := (h.keys k id).mpr ((hMem _).mpr (.inr he))
      exact absurd (Option.some.inj (hid.symm.trans hHolder)) (hGone _ he)
    · rw [if_neg hk, h.keys, hMem]
      exact or_iff_right fun heq => hk (congrArg Prod.snd heq).symm
  · rcases hSettled with hs | hs
    · rw [hs]; exact h.once
    · rw [hs, List.map_append, List.map_singleton, ← List.concat_eq_append]
      exact h.once.concat hNew
  · intro e he
    rcases hSettled with hs | hs
    · exact hOld e (hs ▸ he)
    · rw [hs, List.mem_append, List.mem_singleton] at he
      rcases he with he | rfl
      · exact hOld e he
      · exact ⟨hEnded, by rw [hLast, if_pos rfl]⟩

/-- A new job enters `pending`, and its key, which nobody holds, the key table. -/
theorem Inv.accept (h : Inv s) {j : Job} (hFresh : s.Fresh j.id)
    (hFree : ∀ k, j.key = some k → s.base.inflightKeys.get k = none)
    (hLive : t.live.Perm (j.tag :: s.live)) (hAcc : t.accepted = s.accepted ++ [j])
    (hKeys : t.base.inflightKeys = match j.key with
      | none => s.base.inflightKeys
      | some k => s.base.inflightKeys.set k j.id)
    (hSame : (t.invoked, t.finishing, t.completed, t.failedJobs, t.attempts,
        t.base.settlements, t.base.closed, t.base.running, t.base.concurrency,
        t.base.processed, t.base.failed) =
      (s.invoked, s.finishing, s.completed, s.failedJobs, s.attempts,
        s.base.settlements, s.base.closed, s.base.running, s.base.concurrency,
        s.base.processed, s.base.failed)) : Inv t := by
  simp only [Prod.mk.injEq] at hSame
  obtain ⟨hi, hfi, hc, hf, hat, hs, ho, hr, hco, hpr, hfa⟩ := hSame
  have hTerm : t.terminal = s.terminal := by rw [terminal, hc, hf]; rfl
  have hMem : ∀ e, e ∈ t.live ↔ e = j.tag ∨ e ∈ s.live := fun e =>
    hLive.mem_iff.trans List.mem_cons
  refine ⟨?_, ?_, ?_, ?_, ?_, ?_, ?_, ?_, ?_, ?_, ?_⟩
  · rw [ho]; exact h.isOpen
  · rw [hAcc, hTerm, List.map_append]
    calc
      (t.live.map Prod.fst ++ s.terminal).Perm (j.id :: (s.live.map Prod.fst ++ s.terminal)) :=
        (hLive.map Prod.fst).append_right _
      List.Perm _ (j.id :: s.accepted.map Job.id) := h.placed.cons _
      List.Perm _ (s.accepted.map Job.id ++ [j.id]) := (List.perm_append_singleton _ _).symm
  · rw [hAcc, List.map_append, List.map_singleton, ← List.concat_eq_append]
    exact h.unique.concat hFresh
  · intro e he
    rw [hAcc, List.map_append, List.mem_append]
    rcases (hMem e).mp he with rfl | he
    · exact .inr (List.mem_singleton.mpr rfl)
    · exact .inl (h.origin e he)
  · rw [hr, hi, hfi]; exact h.slots
  · rw [hr, hco]; exact h.capacity
  · intro k id
    rw [hMem, ← h.keys k id, hKeys]
    cases hk : j.key with
    | none => simp [Job.tag, hk]
    | some k' =>
      have hn := hFree k' hk
      rw [OrderedMap.get_set]
      by_cases hkk : k = k'
      · subst hkk
        simp [Job.tag, hk, hn, eq_comm]
      · simp [Job.tag, hk, hkk]
  · rw [hpr, hc]; exact h.processed
  · rw [hfa, hf]; exact h.failed
  · rw [hs]; exact h.once
  · intro e he
    rw [hTerm, lastAttempt, hat]
    exact h.last e (hs ▸ he)

theorem Inv.dispatch (h : Inv s) {now : Nat} (hs : s.dispatch now = some t) : Inv t := by
  unfold MemoryJobQueue.dispatch at hs
  split at hs
  · cases hs
  · rename_i job rest hPending
    split at hs
    · cases hs
    · rename_i hRoom
      split at hs
      · cases hs
        refine h.moved ?_ rfl (fun _ _ => rfl) ?_ ?_
        · refine List.perm_iff_count.mpr fun e => ?_
          simp only [live, hPending, List.map_append, List.map_cons, List.map_nil,
            List.count_append, List.count_cons, List.count_nil]
          omega
        · have := h.slots
          simp only [List.length_append, List.length_singleton]
          change s.base.running + 1 = _
          omega
        · change s.base.running + 1 ≤ s.base.concurrency
          omega
      · cases hs
        refine h.ended (j := job) ?_ ?_ rfl rfl (BaseJobQueue.releaseKey_get _ job)
          (BaseJobQueue.settleWaiter_settlements _ _ _ now) rfl h.processed ?_ h.slots h.capacity
        · simp only [live, settleFailure, hPending, List.map_cons, List.cons_append]
          exact .refl _
        · simp only [terminal, settleFailure, ← List.append_assoc]
          exact List.perm_append_singleton _ _
        · change s.base.failed + 1 = (s.failedJobs ++ [job.id]).length
          rw [List.length_append, h.failed, List.length_singleton]

/-- An invoked job leaves its slot's list; the slot itself is freed by a later `finally`. -/
theorem live_perm {k : Nat} {job : Job} (hJob : s.invoked[k]? = some job) :
    (job.tag :: { s with invoked := serve s.invoked k [] }.live).Perm s.live := by
  refine List.perm_iff_count.mpr fun e => ?_
  have hCount := ((perm_serve [] hJob).map Job.tag).count_eq e
  simp only [live, List.map_cons, List.append_nil, List.count_append, List.count_cons]
    at hCount ⊢
  omega

theorem invoked_slots {k : Nat} {job : Job} (hJob : s.invoked[k]? = some job) :
    (serve s.invoked k []).length + (s.finishing ++ [job.id]).length =
      s.invoked.length + s.finishing.length := by
  have hl := length_serve [] hJob
  rw [List.length_append, List.length_singleton]
  rw [List.length_nil] at hl
  omega

theorem Inv.handlerSucceeded (h : Inv s) {k now : Nat} {result : String}
    (hs : s.handlerSucceeded k result now = some t) : Inv t := by
  obtain ⟨job, hJob, rfl⟩ := Option.map_eq_some_iff.mp hs
  have hFrame := s.base.afterSuccess_frame job result now
  refine h.ended (j := job) (o := .success result) ?_ ?_ rfl ?_ ?_ ?_ rfl ?_ ?_ ?_ ?_
  · exact live_perm hJob
  · simp only [terminal, settleSuccess]
    exact (List.perm_append_singleton _ _).append_right _
  all_goals simp only [settleSuccess]
  · rw [hFrame]
  · rw [hFrame]
    exact BaseJobQueue.releaseKey_get _ job
  · rw [hFrame]
    exact BaseJobQueue.settleWaiter_settlements _ _ _ now
  · rw [hFrame, List.length_append, List.length_singleton, h.processed]
  · rw [hFrame]
    exact h.failed
  · rw [hFrame, invoked_slots hJob]
    exact h.slots
  · rw [hFrame]
    exact h.capacity

theorem Inv.handlerFailed (h : Inv s) {k now : Nat} {err : JobError}
    (hs : s.handlerFailed k err now = some t) : Inv t := by
  obtain ⟨job, hJob, hs⟩ := Option.map_eq_some_iff.mp hs
  have hPerm := live_perm hJob
  have hSlots := (invoked_slots hJob).trans h.slots.symm
  rcases s.base.afterFailure_cases job err now with ⟨-, hAfter⟩ | ⟨-, dead, hAfter⟩
  · rw [hAfter] at hs
    subst hs
    refine h.moved ?_ rfl ?_ hSlots.symm h.capacity
    · refine List.perm_iff_count.mpr fun e => ?_
      have hCount := hPerm.count_eq e
      have hTag : Job.tag { job with attempts := job.attempts + 1 } = job.tag := rfl
      simp only [live, List.map_append, List.map_cons, List.map_nil, List.count_append,
        List.count_cons, List.count_nil, hTag] at hCount ⊢
      omega
    · intro id ht
      have hOpenJob : job.id ∉ s.terminal :=
        h.live_not_terminal (hPerm.mem_iff.mp List.mem_cons_self)
      have hne : job.id ≠ id := fun heq => hOpenJob (heq ▸ ht)
      simp only [lastAttempt, List.find?_cons, decide_eq_false hne]
  · rw [hAfter] at hs
    subst hs
    refine h.ended (j := job) (o := .failure err) ?_ ?_ rfl rfl
      (BaseJobQueue.releaseKey_get _ job) (BaseJobQueue.settleWaiter_settlements _ _ _ now) rfl
      h.processed ?_ hSlots.symm h.capacity
    · exact live_perm hJob
    · simp only [terminal, settleFailure, ← List.append_assoc]
      exact List.perm_append_singleton _ _
    · change s.base.failed + 1 = (s.failedJobs ++ [job.id]).length
      rw [List.length_append, h.failed, List.length_singleton]

theorem Inv.slotReleased (h : Inv s) {k : Nat} (hs : s.slotReleased k = some t) : Inv t := by
  obtain ⟨id, hId, rfl⟩ := Option.map_eq_some_iff.mp hs
  have hl := length_serve [] hId
  have hSlots := h.slots
  have hCap := h.capacity
  rw [List.length_nil] at hl
  refine h.moved (.refl _) rfl (fun _ _ => rfl) ?_ ?_
  · change s.base.running - 1 = s.invoked.length + (serve s.finishing k []).length
    omega
  · change s.base.running - 1 ≤ s.base.concurrency
    omega

theorem Inv.backoffElapsed (h : Inv s) {k now : Nat} (hs : s.backoffElapsed k now = some t) :
    Inv t := by
  obtain ⟨b, hb, hs⟩ := Option.map_eq_some_iff.mp hs
  rw [h.isOpen, if_neg Bool.false_ne_true] at hs
  subst hs
  refine h.moved ?_ rfl (fun _ _ => rfl) h.slots h.capacity
  refine List.perm_iff_count.mpr fun e => ?_
  have hCount := ((perm_serve [] hb).map fun b => b.job.tag).count_eq e
  simp only [live, List.map_append, List.map_cons, List.map_nil, List.count_append,
    List.count_cons, List.count_nil, List.append_nil] at hCount ⊢
  omega

/-- No `close` has been called. -/
def BeforeClose : MemoryJobQueue → MemoryLabel → Prop
  | _, .closeCalled _ _ => False
  | _, .closeReturned _ _ => False
  | _, _ => True

theorem Inv.push (h : Inv s) {opts : EnqueueOptions} {id : JobId} {now : Nat} {job : Job}
    {base : BaseJobQueue} (hFresh : s.Fresh id)
    (hNorm : s.base.normalizeEnqueue opts id now = (.job job, base))
    (ws : OrderedMap JobId WaiterKind) (cs : List JobId) :
    Inv { s.push job { base with waiters := ws } with claiming := cs } := by
  obtain ⟨rfl, hFree, hBase⟩ := BaseJobQueue.normalizeEnqueue_job hNorm
  have hKeys := congrArg BaseJobQueue.inflightKeys hBase
  refine h.accept (j := opts.toJob id now) hFresh hFree ?_ rfl hKeys ?_
  · simp only [live, MemoryJobQueue.push, List.map_append, List.map_cons, List.map_nil,
      List.append_assoc]
    exact List.perm_middle
  · rw [hBase]
    rfl

theorem Inv.refused (h : Inv s) {opts : EnqueueOptions} {id : JobId} {now : Nat}
    {r : Normalized} {base : BaseJobQueue}
    (hNorm : s.base.normalizeEnqueue opts id now = (r, base)) (hr : ∀ job, r ≠ .job job) :
    Inv { s with base := base } := by
  rw [BaseJobQueue.normalizeEnqueue_refused hNorm hr]
  exact h.moved (.refl _) rfl (fun _ _ => rfl) h.slots h.capacity

theorem inv_step (s : MemoryJobQueue) (l : MemoryLabel) (t : MemoryJobQueue) (h : Inv s)
    (hok : BeforeClose s l) (hs : step s l = some t) : Inv t := by
  cases l with
  | on type =>
    cases hs
    exact h.moved (.refl _) rfl (fun _ _ => rfl) h.slots h.capacity
  | enqueue opts id now =>
    obtain ⟨hFresh, rfl⟩ := Option.ite_some_none_eq_some.mp hs
    unfold MemoryJobQueue.enqueue
    split
    · rename_i job base hNorm
      exact h.push hFresh hNorm base.waiters s.claiming
    · rename_i r base hr hNorm
      exact h.refused hNorm hr
  | enqueueAndWait opts id now =>
    obtain ⟨hFresh, rfl⟩ := Option.ite_some_none_eq_some.mp hs
    unfold MemoryJobQueue.enqueueAndWait
    split
    · rename_i job base hNorm
      exact h.push hFresh hNorm _ s.claiming
    · rename_i r base hr hNorm
      exact h.refused hNorm hr
  | enqueueAndClaim opts id now =>
    obtain ⟨hFresh, rfl⟩ := Option.ite_some_none_eq_some.mp hs
    unfold MemoryJobQueue.enqueueAndClaim
    split
    · rename_i job base hNorm
      exact h.push hFresh hNorm base.waiters _
    · rename_i r base hr hNorm
      exact h.refused hNorm hr
  | claimRegistered k =>
    obtain ⟨id, -, rfl⟩ := Option.map_eq_some_iff.mp hs
    unfold BaseJobQueue.registerClaim
    split <;> exact h.moved (.refl _) rfl (fun _ _ => rfl) h.slots h.capacity
  | claimReturned k =>
    obtain ⟨id, -, rfl⟩ := Option.map_eq_some_iff.mp hs
    exact h.moved (.refl _) rfl (fun _ _ => rfl) h.slots h.capacity
  | waitTimedOut id =>
    obtain ⟨-, rfl⟩ := Option.ite_some_none_eq_some.mp hs
    exact h.moved (.refl _) rfl (fun _ _ => rfl) h.slots h.capacity
  | dispatch now => exact h.dispatch hs
  | handlerSucceeded k result now => exact h.handlerSucceeded hs
  | handlerFailed k err now => exact h.handlerFailed hs
  | slotReleased k => exact h.slotReleased hs
  | backoffElapsed k now => exact h.backoffElapsed hs
  | closeCalled opts now => exact hok.elim
  | closeReturned k now => exact hok.elim

theorem inv_reach (h : LabelledSystem.Reach step BeforeClose Start s) : Inv s :=
  h.invariant (fun _ ⟨c, hc⟩ => hc ▸ inv_create c) inv_step

def retryLabels : List MemoryLabel :=
  [.on "crawl", .enqueueAndWait { type := "crawl", idempotencyKey := some "k" } 1 0, .dispatch 0,
    .handlerFailed 0 ⟨"network", "reset"⟩ 5, .slotReleased 0, .backoffElapsed 0 505,
    .dispatch 505, .handlerSucceeded 0 "done" 510]

end MemoryJobQueue

end OrchestraAI.Queue
