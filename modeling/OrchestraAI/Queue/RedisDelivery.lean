import Mathlib.Data.List.Flatten
import OrchestraAI.Library.AttemptLedger
import OrchestraAI.Queue.RedisShape

/-! # Deliveries of the Redis provider

A job is started at most as often as its attempts allow, and never again once a
handler has succeeded under the recorded lease, over the runs in which a failed
attempt that is to be retried finds its record as it left it, a handler succeeds
alone, and no reclaim pass takes the record of a job that has succeeded.
-/

namespace OrchestraAI.Queue

open WorkBag AttemptLedger

def Job.ready (job : Job) : Copy JobId := ⟨job.id, job.attempts, job.max, false⟩

def Job.inUse (job : Job) : Copy JobId := ⟨job.id, job.attempts, job.max, true⟩

def Work.taskOf : Work → Option JobId
  | .task held => some held.job.id
  | _ => none

namespace RedisSystem

/-- Nothing is started or counted as failed after it has won; the newest event comes first. -/
def Final : List Event → Prop
  | [] => True
  | e :: log => (∀ id, e = .started id ∨ e = .failed id → .won id ∉ log) ∧ Final log

def copiesInRedis (s : RedisSystem) (id : JobId) : Nat :=
  (s.pending.map Job.id).count id + (s.processing.keys).count id

structure Delivered (s : RedisSystem) : Prop where
  final : Final s.log
  single : ∀ id, s.copiesInRedis id ≤ 1
  bounded : ∀ e ∈ s.issued, s.log.count (.started e.2.id) ≤ e.2.max

/-- The handler of `item` is about to succeed under the recorded lease. -/
def AboutToWin (s : RedisSystem) (item : Item) (outcome : Outcome) : Prop :=
  match item.work with
  | .task task => s.Wins task outcome
  | _ => False

def LosesRecord (s : RedisSystem) (item : Item) : Prop :=
  match item.work with
  | .task task => match task.phase with
    | .releasing verdict expected none =>
      final (s.instances item.worker) task.job verdict = false ∧
        s.processing.get task.job.id ≠ some expected
    | _ => False
  | _ => False

/-- A reclaim pass is about to take the record of a job that has succeeded under it. -/
def TakesWon (s : RedisSystem) (item : Item) : Prop :=
  match item.work with
  | .stale id raw => s.processing.get id = some raw ∧ .won id ∈ s.log
  | _ => False

def LeaseKept (s : RedisSystem) : RedisLabel → Prop
  | .released k => ∀ item ∈ s.bag[k]?, ¬ s.LosesRecord item
  | .handlerSettled k outcome => ∀ item ∈ s.bag[k]?, s.AboutToWin item outcome →
    ∀ other ∈ s.bag.eraseIdx k, other.work.taskOf ≠ item.work.taskOf
  | .reclaimRun k => ∀ item ∈ s.bag[k]?, ¬ s.TakesWon item
  | _ => True

instance (s : RedisSystem) (item : Item) (outcome : Outcome) :
    Decidable (s.AboutToWin item outcome) := by
  obtain ⟨_, _ | _⟩ := item <;> dsimp only [AboutToWin] <;> infer_instance

instance (s : RedisSystem) (item : Item) : Decidable (s.LosesRecord item) := by
  obtain ⟨_, _ | ⟨_, _, _ | _ | ⟨_, _, _ | _⟩⟩⟩ := item <;> dsimp only [LosesRecord] <;>
    infer_instance

instance (s : RedisSystem) (item : Item) : Decidable (s.TakesWon item) := by
  obtain ⟨_, _ | _⟩ := item <;> dsimp only [TakesWon] <;> infer_instance

instance (s : RedisSystem) (l : RedisLabel) : Decidable (s.LeaseKept l) := by
  obtain _ | _ := l <;> dsimp only [LeaseKept] <;> infer_instance

/-- The copy of its job that an item is responsible for; a handler is not responsible for one
until it has given up the record of an attempt to be retried. -/
def itemCopies (q : BaseJobQueue) : Work → List (Copy JobId)
  | .push job _ => [job.ready]
  | .retryTimer job _ => [job.ready]
  | .requeueTimer job => [job.ready]
  | .reclaimed job => [job.inUse]
  | .stale _ _ => []
  | .task task => match task.phase with
    | .releasing verdict _ (some _) => if final q task.job verdict then [] else [task.job.inUse]
    | _ => []

def bagCopies (s : RedisSystem) : List (Copy JobId) :=
  s.bag.flatMap fun item => itemCopies (s.instances item.worker) item.work

def hashCopies (s : RedisSystem) : List (Copy JobId) :=
  s.processing.entries.map fun e => e.2.job.inUse

def ledger (s : RedisSystem) : Ledger JobId where
  copies := s.pending.map Job.ready ++ s.hashCopies ++ s.bagCopies
  issued := s.issued.map fun e => (e.2.id, e.2.max)
  uses id := s.log.count (.claimed id)

variable {s t : RedisSystem}

theorem itemCopies_congr {q q' : BaseJobQueue} (h : q.closed = q'.closed) :
    itemCopies q = itemCopies q' := by
  funext w
  cases w with
  | task task =>
    have hFinal : ∀ verdict, final q task.job verdict = final q' task.job verdict := by
      intro verdict
      rcases verdict with _ | (_ | _)
      · rfl
      · rfl
      · simp only [final, BaseJobQueue.willRetry, h]
    simp only [itemCopies, hFinal]
  | _ => rfl

theorem itemCopies_closed (q : BaseJobQueue) (w : Work) :
    (itemCopies { q with closed := true } w).Sublist (itemCopies q w) := by
  cases w with
  | task task =>
    simp only [itemCopies]
    split
    · rename_i verdict _ _ _
      rcases verdict with _ | (_ | err)
      · exact .refl _
      · exact .refl _
      · have hFinal : final { q with closed := true } task.job (.handled (.failure err)) = true := by
          simp [final, BaseJobQueue.willRetry]
        rw [if_pos hFinal]
        exact List.nil_sublist _
    · exact .refl _
  | _ => exact .refl _

def SameClosed (s t : RedisSystem) : Prop :=
  ∀ j, (t.instances j).closed = (s.instances j).closed

theorem sameClosed_update {i : Nat} {q : BaseJobQueue}
    (h : t.instances = Function.update s.instances i q)
    (hq : q.closed = (s.instances i).closed) : SameClosed s t := by
  intro j
  rw [h]
  by_cases hj : j = i
  · subst hj; rw [Function.update_self, hq]
  · rw [Function.update_of_ne hj]

/-- The copies of the items other than `k`. -/
def restCopies (s : RedisSystem) (k : Nat) : List (Copy JobId) :=
  (s.bag.eraseIdx k).flatMap fun item => itemCopies (s.instances item.worker) item.work

theorem bagCopies_take {k i : Nat} {w : Work} (hItem : s.bag[k]? = some ⟨i, w⟩) :
    s.bagCopies.Perm (itemCopies (s.instances i) w ++ s.restCopies k) :=
  (perm_cons_eraseIdx hItem).flatMap_right _

theorem bagCopies_serve {k i : Nat} {u : List Work}
    (hBag : t.bag = serve s.bag k (u.map (Item.mk i))) (hClosed : SameClosed s t) :
    t.bagCopies = s.restCopies k ++ u.flatMap (itemCopies (s.instances i)) := by
  have hItems : (fun item : Item => itemCopies (t.instances item.worker) item.work) =
      fun item => itemCopies (s.instances item.worker) item.work := by
    funext item
    rw [itemCopies_congr (hClosed item.worker)]
  rw [bagCopies, hItems, hBag, serve, List.flatMap_append, List.flatMap_map]
  rfl

theorem bagCopies_append {u : List Item} (hBag : t.bag = s.bag ++ u)
    (hClosed : SameClosed s t) : t.bagCopies =
      s.bagCopies ++ u.flatMap fun item => itemCopies (s.instances item.worker) item.work := by
  have hItems : (fun item : Item => itemCopies (t.instances item.worker) item.work) =
      fun item => itemCopies (s.instances item.worker) item.work := by
    funext item
    rw [itemCopies_congr (hClosed item.worker)]
  rw [bagCopies, hItems, hBag, List.flatMap_append]
  rfl

theorem uses_same {events : List Event} (h : t.log = events ++ s.log)
    (hEvents : ∀ id, .claimed id ∉ events) : t.ledger.uses = s.ledger.uses := by
  funext id
  simp only [ledger, h, List.count_append, List.count_eq_zero.mpr (hEvents id), Nat.zero_add]

theorem keep_of {l : List Event} (hSub : t.ledger.copies.Subperm s.ledger.copies)
    (hIssued : t.issued = s.issued) (hLog : t.log = l ++ s.log)
    (hEvents : ∀ id, .claimed id ∉ l) : AttemptLedger.Step s.ledger t.ledger := by
  refine .keep hSub ?_
  rw [uses_same hLog hEvents]
  simp only [ledger, hIssued]

/-- A turn of item `k` that leaves Redis alone and keeps at most the item's copies. -/
theorem keep_turn {k i : Nat} {w : Work} {u : List Work} {l : List Event}
    (hItem : s.bag[k]? = some ⟨i, w⟩) (hBag : t.bag = serve s.bag k (u.map (Item.mk i)))
    (hClosed : SameClosed s t)
    (hCopies : (u.flatMap (itemCopies (s.instances i))).Sublist (itemCopies (s.instances i) w))
    (hRedis : (t.pending, t.processing, t.issued) = (s.pending, s.processing, s.issued))
    (hLog : t.log = l ++ s.log) (hEvents : ∀ id, .claimed id ∉ l) :
    AttemptLedger.Step s.ledger t.ledger := by
  simp only [Prod.mk.injEq] at hRedis
  obtain ⟨hPending, hHash, hIssued⟩ := hRedis
  refine keep_of ?_ hIssued hLog hEvents
  refine List.subperm_iff_count.mpr fun c => ?_
  have hTake := (bagCopies_take hItem).count_eq c
  have hLe := hCopies.count_le c
  simp only [ledger, hashCopies, hPending, hHash, bagCopies_serve hBag hClosed,
    List.count_append] at hTake ⊢
  omega

theorem putBack_turn {k i : Nat} {w next : Work} {job : Job}
    (hItem : s.bag[k]? = some ⟨i, w⟩) (hUsed : itemCopies (s.instances i) w = [job.inUse])
    (hNext : itemCopies (s.instances i) next =
      [{ job with attempts := job.attempts + 1 : Job }.ready])
    (hBag : t.bag = serve s.bag k [⟨i, next⟩]) (hRoom : job.attempts + 1 < job.max)
    (hClosed : SameClosed s t)
    (hRest : (t.pending, t.processing, t.issued, t.log) =
      (s.pending, s.processing, s.issued, s.log)) :
    AttemptLedger.Step s.ledger t.ledger := by
  simp only [Prod.mk.injEq] at hRest
  obtain ⟨hPending, hHash, hIssued, hLog⟩ := hRest
  have hTake := bagCopies_take hItem
  have hServe := bagCopies_serve (u := [next]) hBag hClosed
  rw [hUsed] at hTake
  refine .putBack job.inUse (s.pending.map Job.ready ++ s.hashCopies ++ s.restCopies k) rfl hRoom
    (List.perm_iff_count.mpr fun c => ?_) (List.perm_iff_count.mpr fun c => ?_) ?_
  · have hCount := hTake.count_eq c
    simp only [ledger, List.count_append, List.count_cons, List.count_nil] at hCount ⊢
    omega
  · change _ = List.count c ({ job with attempts := job.attempts + 1 : Job }.ready :: _)
    simp only [ledger, hashCopies, hPending, hHash, hServe, List.flatMap_cons, List.flatMap_nil,
      hNext, List.append_nil, List.count_append, List.count_cons, List.count_nil]
    omega
  · simp only [ledger, hIssued, hLog]

theorem ledger_step {l : RedisLabel} (hShape : Shape s) (hok : s.LeaseKept l)
    (hs : step s l = some t) : AttemptLedger.Step s.ledger t.ledger := by
  have hSame : SameClosed s s := fun _ => rfl
  have hStill : ∀ {i q}, q.closed = (s.instances i).closed →
      AttemptLedger.Step s.ledger (s.withInstance i q).ledger := by
    intro i q hq
    refine keep_of (l := []) (List.Perm.subperm ?_) rfl rfl (by simp)
    have hBag := bagCopies_append (t := s.withInstance i q) (u := []) (by simp [withInstance])
      (sameClosed_update rfl hq)
    simp only [ledger, hBag, List.flatMap_nil, List.append_nil]
    exact .refl _
  cases l with
  | on i type => cases hs; exact hStill rfl
  | enqueue i opts wait id now =>
    obtain ⟨hFresh, rfl⟩ := Option.ite_some_none_eq_some.mp hs
    rcases enqueue_cases (s := s) i opts wait id now with ⟨q, -, hq, ht⟩ | ⟨q, -, -, hq, ht⟩
    · rw [ht]; exact hStill hq
    · rw [ht]
      refine .issue id (opts.toJob id now).max ?_ (Nat.le_max_left _ _) ?_ ?_ rfl
      · simpa [ledger, Fresh] using hFresh
      · refine List.Perm.subperm (List.perm_iff_count.mpr fun c => ?_)
        have hBag := bagCopies_append (s := s) (t := { (s.withInstance i q).addWork i (.push
          (opts.toJob id now) true) with issued := s.issued ++ [(i, opts.toJob id now)] })
          (u := [⟨i, .push (opts.toJob id now) true⟩]) rfl (sameClosed_update rfl hq)
        have hCopy : itemCopies (s.instances i) (.push (opts.toJob id now) true) =
            [⟨id, 0, (opts.toJob id now).max, false⟩] := rfl
        simp only [ledger, hBag, List.flatMap_cons, List.flatMap_nil, hCopy, List.append_nil,
          List.count_append, List.count_cons, List.count_nil]
        change (s.pending.map Job.ready).count c + s.hashCopies.count c + _ = _
        omega
      · simp only [ledger, List.map_append]
        rfl
  | claimRegistered i id =>
    cases hs
    refine hStill ?_
    unfold BaseJobQueue.registerClaim
    split <;> rfl
  | waitTimedOut i id =>
    obtain ⟨-, rfl⟩ := Option.ite_some_none_eq_some.mp hs
    exact hStill rfl
  | pushed k =>
    obtain ⟨i, job, first, hItem, rfl⟩ := pushed_inv hs
    refine keep_of (l := []) (List.Perm.subperm (List.perm_iff_count.mpr fun c => ?_)) rfl rfl
      (by simp)
    have hTake := (bagCopies_take hItem).count_eq c
    have hServe := bagCopies_serve (t := s.turnInto k i []) (i := i) (u := []) rfl hSame
    change List.count c ((s.pending ++ [job]).map Job.ready ++ s.hashCopies ++
      (s.turnInto k i []).bagCopies) = _
    simp only [ledger, hServe, itemCopies, List.map_append, List.map_cons, List.map_nil,
      List.flatMap_nil, List.append_nil, List.count_append] at hTake ⊢
    omega
  | claim i now leaseToken =>
    obtain ⟨job, rest, hPending, ⟨-, rfl⟩ | ⟨hNew, -, raw, duration, hRaw, -, rfl⟩⟩ := claim_inv hs
    · refine keep_of (l := []) (List.Perm.subperm (List.perm_iff_count.mpr fun c => ?_)) rfl
        rfl (by simp)
      change List.count c ((rest ++ [job]).map Job.ready ++ s.hashCopies ++ s.bagCopies) = _
      simp only [ledger, hPending, List.map_append, List.map_cons, List.map_nil,
        List.count_append, List.count_cons, List.count_nil]
      omega
    · have hAbsent : s.processing.get job.id = none := by
        simpa [OrderedMap.has] using hNew
      have hHash := (OrderedMap.entries_perm_set_new raw hAbsent).map fun e => e.2.job.inUse
      have hBag := bagCopies_append (t := s.addWork i (.task ⟨job, ⟨leaseToken, duration, raw⟩,
        .claimed, true, none⟩)) (u := [_]) rfl hSame
      refine .use job.ready (rest.map Job.ready ++ s.hashCopies ++ s.bagCopies) rfl ?_ ?_ rfl ?_
      · simp only [ledger, hPending, List.map_cons, List.cons_append]
        exact .refl _
      · refine List.perm_iff_count.mpr fun c => ?_
        have hCount := hHash.count_eq c
        rw [List.map_cons, hRaw] at hCount
        change List.count c (rest.map Job.ready ++ _ ++ (s.addWork i _).bagCopies) =
          List.count c (job.inUse :: _)
        simp only [hBag, hashCopies, itemCopies, List.flatMap_cons, List.flatMap_nil,
          List.append_nil, List.count_append, List.count_cons] at hCount ⊢
        omega
      · funext id
        change List.count _ (Event.claimed job.id :: s.log) = _
        rw [List.count_cons]
        by_cases hid : id = job.id
        · subst hid
          simp [ledger, Job.ready]
        · have hne : Event.claimed job.id ≠ .claimed id := by simpa using Ne.symm hid
          have hOther : id ≠ job.ready.id := hid
          rw [Function.update_of_ne hOther]
          simp [ledger, hne]
  | start k =>
    obtain ⟨i, task, hItem, hPhase, rfl | rfl⟩ := start_inv hs
    · refine keep_turn (l := [.started task.job.id]) hItem rfl (sameClosed_update rfl rfl) ?_
        rfl rfl (by simp)
      simp [itemCopies]
    · refine keep_turn (l := []) hItem rfl hSame ?_ rfl rfl (by simp)
      simp [itemCopies]
  | renewSent k now =>
    obtain ⟨i, task, next, hItem, hPhase, -, -, -, rfl⟩ := renewSent_inv hs
    refine keep_turn (l := []) hItem rfl hSame ?_ rfl rfl (by simp)
    simp [itemCopies]
  | renewRun k =>
    obtain ⟨i, task, expected, next, hItem, hRenewal, reply, hReply, rfl⟩ := renewRun_inv hs
    obtain ⟨hExpected, hNext⟩ := (hShape.of_item hItem).2.1 _ hRenewal
    refine keep_of (l := []) (List.Perm.subperm (List.perm_iff_count.mpr fun c => ?_)) rfl rfl
      (by simp)
    have hTake := (bagCopies_take hItem).count_eq c
    have hServe := bagCopies_serve (t := s.turnInto k i [.task { task with
      renewal := some ⟨expected, next, some reply.1⟩ }]) (i := i) rfl hSame
    have hHash : (reply.2.entries.map fun e => e.2.job.inUse).Perm s.hashCopies := by
      rw [hReply, compareAndSetHash]
      split
      · rename_i hGet
        have hSet := (OrderedMap.entries_perm_set s.processing task.job.id next).map
          fun e => e.2.job.inUse
        have hOld := (OrderedMap.entries_perm_delete hGet).map fun e => e.2.job.inUse
        rw [List.map_cons, hNext] at hSet
        rw [List.map_cons, hExpected] at hOld
        exact hSet.trans hOld.symm
      · exact .refl _
    change List.count c (s.pending.map Job.ready ++ reply.2.entries.map _ ++
      (s.turnInto k i _).bagCopies) = _
    have hCount := hHash.count_eq c
    simp only [ledger, hServe, itemCopies, List.flatMap_cons, List.flatMap_nil, List.append_nil,
      List.count_append] at hTake hCount ⊢
    omega
  | renewReplied k =>
    obtain ⟨i, task, expected, next, ok, hItem, -, raw, renewing, -, rfl⟩ := renewReplied_inv hs
    refine keep_turn (l := []) hItem rfl hSame ?_ rfl rfl (by simp)
    simp [itemCopies]
  | handlerSettled k outcome =>
    obtain ⟨i, task, hItem, -, rfl⟩ := handlerSettled_inv hs
    refine keep_turn hItem rfl hSame ?_ rfl rfl ?_
    · simp [itemCopies]
    · intro id
      split <;> simp
  | released k =>
    obtain ⟨i, task, verdict, expected, hItem, hPhase, reply, hReply, rfl⟩ := released_inv hs
    have hExpected := (hShape.of_item hItem).2.2 _ _ _ hPhase
    refine keep_of (List.subperm_iff_count.mpr fun c => ?_) rfl rfl ?_
    · have hTake := (bagCopies_take hItem).count_eq c
      have hServe := bagCopies_serve (t := s.turnInto k i [.task { task with
        phase := .releasing verdict expected (some reply.1) }]) (i := i) rfl hSame
      change List.count c (s.pending.map Job.ready ++ reply.2.entries.map _ ++
        (s.turnInto k i _).bagCopies) ≤ _
      by_cases hGet : s.processing.get task.job.id = some expected
      · have hOld := ((OrderedMap.entries_perm_delete hGet).map
          fun e => e.2.job.inUse).count_eq c
        rw [List.map_cons, hExpected] at hOld
        rw [hReply, compareAndDeleteHash, if_pos hGet] at hServe ⊢
        simp only [ledger, hashCopies, hServe, itemCopies, hPhase, List.flatMap_cons,
          List.flatMap_nil, List.append_nil, List.nil_append, List.count_append,
          List.count_cons] at hTake hOld ⊢
        split
        · rw [List.count_nil]
          omega
        · rw [List.count_singleton]
          omega
      · have hFinal : final (s.instances i) task.job verdict = true := by
          have hKeep := hok _ hItem
          simp only [LosesRecord, hPhase, hGet, ne_eq, not_false_eq_true, and_true] at hKeep
          exact Bool.eq_true_of_not_eq_false hKeep
        rw [hReply, compareAndDeleteHash, if_neg hGet] at hServe ⊢
        simp only [ledger, hashCopies, hServe, itemCopies, hPhase, hFinal, if_true,
          List.flatMap_cons, List.flatMap_nil, List.append_nil, List.nil_append,
          List.count_append] at hTake ⊢
        omega
    · intro id
      split <;> simp
  | concluded k now =>
    obtain ⟨i, task, verdict, expected, ok, hItem, hPhase, hCase⟩ := concluded_inv hs
    rcases hCase with ⟨result, -, rfl⟩ | ⟨-, q, err, -, hq, rfl⟩ |
      ⟨err, rfl, hRetry, q, -, hq, rfl⟩
    · refine keep_turn (u := []) (l := [.completed task.job.id]) hItem rfl
        (sameClosed_update rfl ?_) (List.nil_sublist _) rfl rfl (by simp)
      rw [BaseJobQueue.afterSuccess_frame]
    · exact keep_turn (u := []) (l := [.failed task.job.id]) hItem rfl
        (sameClosed_update rfl hq.closed) (List.nil_sublist _) rfl rfl (by simp)
    · have hFinal : final (s.instances i) task.job (.handled (.failure err)) = false := by
        simp [final, hRetry]
      refine putBack_turn hItem ?_ rfl rfl ?_ (sameClosed_update rfl hq.closed) rfl
      · simp only [itemCopies, hPhase, hFinal, Bool.false_eq_true, if_false]
      · simp only [BaseJobQueue.willRetry, Bool.and_eq_true, decide_eq_true_eq] at hRetry
        exact hRetry.1.2
  | retryElapsed k now =>
    obtain ⟨i, job, err, hItem, rfl | rfl⟩ := retryElapsed_inv hs
    · exact keep_turn (u := []) (l := [.failed job.id]) hItem rfl
        (sameClosed_update rfl rfl) (List.nil_sublist _) rfl rfl (by simp)
    · exact keep_turn (l := []) hItem rfl hSame (.refl _) rfl rfl (by simp)
  | reclaimScan i now =>
    obtain ⟨items, hItems, rfl⟩ := reclaimScan_inv hs
    refine keep_of (l := []) (List.Perm.subperm ?_) rfl rfl (by simp)
    have hNone : (items.flatMap fun item =>
        itemCopies (s.instances item.worker) item.work) = [] := by
      refine List.flatMap_eq_nil_iff.mpr fun item hItem => ?_
      obtain ⟨id, raw, rfl, -⟩ := hItems item hItem
      rfl
    have hBag := bagCopies_append (t := { s with bag := s.bag ++ items }) rfl hSame
    simp only [ledger, hBag, hNone, List.append_nil]
    exact .refl _
  | reclaimRun k =>
    obtain ⟨i, gone, raw, hItem, ⟨hSame, rfl⟩ | ⟨-, rfl⟩⟩ := reclaimRun_inv hs
    · refine keep_of (List.Perm.subperm (List.perm_iff_count.mpr fun c => ?_)) rfl rfl ?_
      · have hTake := (bagCopies_take hItem).count_eq c
        have hServe := bagCopies_serve (t := s.turnInto k i [.reclaimed raw.job]) (i := i) rfl
          fun _ => rfl
        have hOld := ((OrderedMap.entries_perm_delete hSame).map
          fun e => e.2.job.inUse).count_eq c
        change List.count c (s.pending.map Job.ready ++
          (s.processing.delete gone).entries.map _ ++ (s.turnInto k i _).bagCopies) = _
        simp only [ledger, hashCopies, hServe, itemCopies, List.map_cons, List.flatMap_cons,
          List.flatMap_nil, List.append_nil, List.nil_append, List.count_append,
          List.count_cons, List.count_nil] at hTake hOld ⊢
        omega
      · intro id
        split <;> simp
    · exact keep_turn (u := []) (l := []) hItem rfl (fun _ => rfl) (List.nil_sublist _)
        rfl rfl (by simp)
  | reclaimContinues k now =>
    obtain ⟨i, job, q, hItem, -, hq, ⟨hRequeue, rfl⟩ | ⟨-, rfl⟩⟩ := reclaimContinues_inv hs
    · refine putBack_turn hItem rfl rfl rfl ?_ (sameClosed_update rfl hq) rfl
      simp only [requeueable, Bool.and_eq_true, decide_eq_true_eq] at hRequeue
      exact hRequeue.1.2
    · refine keep_turn (u := []) (l := [.failed job.id]) hItem rfl ?_ (List.nil_sublist _)
        rfl rfl (by simp)
      refine sameClosed_update (q := q.failTerminally job (workerLost job) now) ?_ hq
      simp [failJob, withInstance, record, turnInto]
  | requeueElapsed k now =>
    obtain ⟨i, job, err, hItem, rfl | rfl⟩ := requeueElapsed_inv hs
    · exact keep_turn (u := []) (l := [.failed job.id]) hItem rfl
        (sameClosed_update rfl rfl) (List.nil_sublist _) rfl rfl (by simp)
    · exact keep_turn (l := []) hItem rfl hSame (.refl _) rfl rfl (by simp)
  | restart i concurrency =>
    cases hs
    refine keep_of (l := []) (List.Sublist.subperm ?_) rfl rfl (by simp)
    have hKept : (s.bag.filter fun item => item.worker ≠ i).Sublist s.bag := List.filter_sublist
    refine (List.Sublist.refl _).append (List.Sublist.trans ?_ (hKept.flatMap _))
    refine List.Sublist.flatMap_right _ fun item hItem => ?_
    have hOther : item.worker ≠ i := of_decide_eq_true (List.mem_filter.mp hItem).2
    simp only [restart, withInstance, Function.update_of_ne hOther]
    exact .refl _
  | closeCalled i =>
    cases hs
    refine keep_of (l := []) (List.Sublist.subperm ?_) rfl rfl (by simp)
    refine (List.Sublist.refl _).append (List.Sublist.flatMap_right _ fun item _ => ?_)
    by_cases hi : item.worker = i
    · subst hi
      simp only [withInstance, Function.update_self]
      exact itemCopies_closed _ _
    · simp only [withInstance, Function.update_of_ne hi]
      exact .refl _
  | closeReturned i rejectWaiters =>
    cases hs
    refine hStill ?_
    cases rejectWaiters <;> rfl

theorem ledger_create (concurrency visibilityMs : Nat → Nat) :
    AttemptLedger.Inv (create concurrency visibilityMs).ledger where
  unique := List.nodup_nil
  single := List.nodup_nil
  covers _ h := by cases h
  bounded _ h := by cases h
  unknown _ _ := rfl

/-- Nothing an item still does can start or fail job `id`. -/
def Harmless (id : JobId) : Work → Prop
  | .push job _ => job.id ≠ id
  | .retryTimer job _ => job.id ≠ id
  | .requeueTimer job => job.id ≠ id
  | .reclaimed job => job.id ≠ id
  | .stale _ _ => True
  | .task task => task.job.id = id → ∃ result expected reply,
    task.phase = .releasing (.handled (.success result)) expected reply

structure WonInv (s : RedisSystem) : Prop where
  known : ∀ id, .won id ∈ s.log → id ∈ s.issued.map fun e => e.2.id
  pending : ∀ id, .won id ∈ s.log → ∀ job ∈ s.pending, job.id ≠ id
  items : ∀ id, .won id ∈ s.log → ∀ item ∈ s.bag, Harmless id item.work
  final : Final s.log

theorem final_append {events log : List Event} (h : Final log)
    (hEvents : ∀ e ∈ events, ∀ id, e ≠ .won id ∧ (e = .started id ∨ e = .failed id →
      .won id ∉ log)) : Final (events ++ log) := by
  induction events with
  | nil => exact h
  | cons e events ih =>
    have hRest := fun d hd => hEvents d (List.mem_cons_of_mem _ hd)
    refine ⟨fun id hBad hWon => ?_, ih hRest⟩
    rcases List.mem_append.mp hWon with hWon | hWon
    · exact (hRest _ hWon id).1 rfl
    · exact (hEvents e List.mem_cons_self id).2 hBad hWon

/-- A turn of item `k` without a new success. -/
theorem WonInv.turn (h : WonInv s) {k i : Nat} {w : Work} {u : List Work} {l : List Event}
    (hItem : s.bag[k]? = some ⟨i, w⟩) (hBag : t.bag = serve s.bag k (u.map (Item.mk i)))
    (hNew : ∀ id, .won id ∈ s.log → Harmless id w → ∀ w' ∈ u, Harmless id w')
    (hPending : ∀ id, .won id ∈ s.log → Harmless id w → ∀ job ∈ t.pending,
      job ∈ s.pending ∨ job.id ≠ id) (hIssued : t.issued = s.issued)
    (hLog : t.log = l ++ s.log) (hEvents : ∀ e ∈ l, ∀ id, e ≠ .won id ∧
      (e = .started id ∨ e = .failed id → ¬ Harmless id w)) : WonInv t := by
  have hWon : ∀ id, .won id ∈ t.log → .won id ∈ s.log := by
    intro id hm
    rw [hLog] at hm
    exact (List.mem_append.mp hm).resolve_left fun he => (hEvents _ he id).1 rfl
  have hServed : ∀ id, .won id ∈ s.log → Harmless id w := fun id hm =>
    h.items id hm _ (mem_of_get hItem)
  refine ⟨?_, ?_, ?_, ?_⟩
  · rw [hIssued]; exact fun id hm => h.known id (hWon id hm)
  · intro id hm job hJob
    have hm := hWon id hm
    rcases hPending id hm (hServed id hm) job hJob with hOld | hOther
    · exact h.pending id hm job hOld
    · exact hOther
  · intro id hm item hi
    have hm := hWon id hm
    rw [hBag] at hi
    rcases mem_serve hi with hOld | hi
    · exact h.items id hm item hOld
    · obtain ⟨w', hw', rfl⟩ := List.mem_map.mp hi
      exact hNew id hm (hServed id hm) w' hw'
  · rw [hLog]
    refine final_append h.final fun e he id => ⟨(hEvents e he id).1, fun hBad hm => ?_⟩
    exact (hEvents e he id).2 hBad (hServed id hm)

theorem hash_alone (hLedger : AttemptLedger.Inv s.ledger) (hShape : Shape s) {id : JobId}
    {raw : ProcessingRecord} (hGet : s.processing.get id = some raw) :
    (∀ job ∈ s.pending, job.id ≠ id) ∧ ∀ c ∈ s.bagCopies, c.id ≠ id := by
  have hHash : id ∈ s.hashCopies.map Copy.id := by
    refine List.mem_map.mpr ⟨raw.job.inUse, ?_, hShape.hash id raw hGet⟩
    exact List.mem_map.mpr ⟨(id, raw), (OrderedMap.mem_entries_iff ..).mpr hGet, rfl⟩
  have hSingle := hLedger.single
  simp only [ledger, List.map_append] at hSingle
  obtain ⟨hFront, -, hApart⟩ := List.nodup_append.mp hSingle
  refine ⟨fun job hJob heq => ?_, fun c hc heq => ?_⟩
  · refine (List.nodup_append.mp hFront).2.2 job.id ?_ id hHash heq
    rw [List.map_map]
    exact List.mem_map_of_mem (f := Copy.id ∘ Job.ready) hJob
  · exact hApart id (List.mem_append_right _ hHash) c.id (List.mem_map_of_mem hc) heq.symm

theorem harmless_of_copies {q : BaseJobQueue} {w : Work} {id : JobId}
    (hCopies : ∀ c ∈ itemCopies q w, c.id ≠ id) (hTask : w.taskOf ≠ some id) : Harmless id w := by
  cases w with
  | push job first => exact hCopies job.ready List.mem_cons_self
  | retryTimer job err => exact hCopies job.ready List.mem_cons_self
  | requeueTimer job => exact hCopies job.ready List.mem_cons_self
  | reclaimed job => exact hCopies job.inUse List.mem_cons_self
  | stale gone raw => trivial
  | task task => exact fun hid => absurd (congrArg some hid) hTask

theorem WonInv.win (h : WonInv s) (hLedger : AttemptLedger.Inv s.ledger) (hShape : Shape s)
    {k i : Nat} {task won : RedisTask} (hRecorded : s.Recorded task)
    (hAlone : ∀ other ∈ s.bag.eraseIdx k, other.work.taskOf ≠ some task.job.id)
    {result : String} {expected : ProcessingRecord} {reply : Option Bool}
    (hPhase : won.phase = .releasing (.handled (.success result)) expected reply) :
    WonInv ((s.turnInto k i [.task won]).record [.won task.job.id]) := by
  obtain ⟨raw, hGet, -⟩ := Option.map_eq_some_iff.mp hRecorded
  obtain ⟨hPending, hBag⟩ := hash_alone hLedger hShape hGet
  have hKnown : task.job.id ∈ s.issued.map fun e => e.2.id := by
    have hCopy : raw.job.inUse ∈ s.ledger.copies := by
      have hMem := (OrderedMap.mem_entries_iff s.processing task.job.id raw).mpr hGet
      exact List.mem_append_left _ (List.mem_append_right _
        (List.mem_map_of_mem (f := fun e : JobId × ProcessingRecord => e.2.job.inUse) hMem))
    obtain ⟨e, he, heq⟩ := List.mem_map.mp (hLedger.covers _ hCopy).1
    have hid : e.2.id = task.job.id := (congrArg Prod.fst heq).trans (hShape.hash _ _ hGet)
    exact hid ▸ List.mem_map_of_mem (f := fun e : Nat × Job => e.2.id) he
  have hWon : ∀ id, Event.won id ∈ [Event.won task.job.id] ++ s.log →
      id = task.job.id ∨ .won id ∈ s.log := by
    intro id hm
    rcases List.mem_append.mp hm with hm | hm
    · exact .inl (Event.won.inj (List.mem_singleton.mp hm))
    · exact .inr hm
  have hDone : ∀ id, Harmless id (.task won) := fun _ _ => ⟨result, expected, reply, hPhase⟩
  refine ⟨?_, ?_, ?_, ?_⟩
  · intro id hm
    rcases hWon id hm with rfl | hm
    · exact hKnown
    · exact h.known id hm
  · intro id hm
    rcases hWon id hm with rfl | hm
    · exact hPending
    · exact h.pending id hm
  · intro id hm item hi
    rcases List.mem_append.mp hi with hOld | hi
    · rcases hWon id hm with rfl | hm
      · have hMem := List.mem_of_mem_eraseIdx hOld
        refine harmless_of_copies (q := s.instances item.worker) (fun c hc => hBag c ?_)
          (hAlone item hOld)
        exact List.mem_flatMap.mpr ⟨item, hMem, hc⟩
      · exact h.items id hm item (List.mem_of_mem_eraseIdx hOld)
    · rw [List.mem_singleton.mp hi]
      exact hDone id
  · refine ⟨fun id hBad => ?_, h.final⟩
    rcases hBad with hBad | hBad <;> cases hBad

theorem won_step (hLedger : AttemptLedger.Inv s.ledger) (hShape : Shape s) {l : RedisLabel}
    (h : WonInv s) (hok : s.LeaseKept l) (hs : step s l = some t) : WonInv t := by
  have hLoose : ∀ {t' : RedisSystem}, (t'.bag, t'.pending, t'.issued, t'.log) =
      (s.bag, s.pending, s.issued, s.log) → WonInv t' := by
    intro t' hSame
    simp only [Prod.mk.injEq] at hSame
    obtain ⟨hb, hp, hi, hl⟩ := hSame
    exact ⟨by rw [hl, hi]; exact h.known, by rw [hl, hp]; exact h.pending,
      by rw [hl, hb]; exact h.items, by rw [hl]; exact h.final⟩
  cases l with
  | on i type => cases hs; exact hLoose rfl
  | enqueue i opts wait id now =>
    obtain ⟨hFresh, rfl⟩ := Option.ite_some_none_eq_some.mp hs
    rcases enqueue_cases (s := s) i opts wait id now with ⟨q, -, -, ht⟩ | ⟨q, -, -, -, ht⟩
    · rw [ht]; exact hLoose rfl
    · rw [ht]
      refine ⟨fun j hm => ?_, h.pending, fun j hm item hi => ?_, h.final⟩
      · rw [List.map_append]
        exact List.mem_append_left _ (h.known j hm)
      · rcases List.mem_append.mp hi with hOld | hi
        · exact h.items j hm item hOld
        · rw [List.mem_singleton.mp hi]
          rintro rfl
          exact hFresh (h.known _ hm)
  | claimRegistered i id => cases hs; exact hLoose rfl
  | waitTimedOut i id =>
    obtain ⟨-, rfl⟩ := Option.ite_some_none_eq_some.mp hs
    exact hLoose rfl
  | pushed k =>
    obtain ⟨i, job, first, hItem, rfl⟩ := pushed_inv hs
    refine h.turn (u := []) (l := []) hItem rfl (by simp) (fun id _ hw j hj => ?_) rfl rfl
      (by simp)
    rcases List.mem_append.mp hj with hj | hj
    · exact .inl hj
    · rw [List.mem_singleton.mp hj]
      exact .inr hw
  | claim i now leaseToken =>
    obtain ⟨job, rest, hPending, ⟨-, rfl⟩ | ⟨-, -, raw, duration, -, -, rfl⟩⟩ := claim_inv hs
    · refine ⟨h.known, fun id hm j hj => h.pending id hm j ?_, h.items, h.final⟩
      rw [hPending, List.mem_cons]
      exact (List.mem_append.mp hj).symm.imp_left List.mem_singleton.mp
    · have hWon : ∀ id, Event.won id ∈ Event.claimed job.id :: s.log → .won id ∈ s.log :=
        fun id hm => (List.mem_cons.mp hm).resolve_left (by simp)
      refine ⟨fun id hm => h.known id (hWon id hm), fun id hm j hj => ?_,
        fun id hm item hi => ?_, ⟨by simp, h.final⟩⟩
      · exact h.pending id (hWon id hm) j (hPending ▸ List.mem_cons_of_mem _ hj)
      · rcases List.mem_append.mp hi with hOld | hi
        · exact h.items id (hWon id hm) item hOld
        · rw [List.mem_singleton.mp hi]
          exact fun hid => absurd hid
            (h.pending id (hWon id hm) job (hPending ▸ List.mem_cons_self))
  | start k =>
    obtain ⟨i, task, hItem, hPhase, rfl | rfl⟩ := start_inv hs
    · have hFree : ∀ id, Harmless id (.task task) → task.job.id ≠ id := by
        intro id hw hid
        obtain ⟨_, _, _, hp⟩ := hw hid
        rw [hPhase] at hp
        cases hp
      refine h.turn (l := [.started task.job.id]) hItem rfl ?_ (fun _ _ _ _ hj => .inl hj)
        rfl rfl ?_
      · intro id _ hw w' hw'
        rw [List.mem_singleton.mp hw']
        exact fun hid => absurd hid (hFree id hw)
      · intro e he id
        rw [List.mem_singleton.mp he]
        refine ⟨by simp, fun hBad hw => hFree id hw ?_⟩
        simpa using hBad
    · refine h.turn (l := []) hItem rfl ?_ (fun _ _ _ _ hj => .inl hj) rfl rfl (by simp)
      intro id _ hw w' hw'
      rw [List.mem_singleton.mp hw']
      intro hid
      obtain ⟨_, _, _, hp⟩ := hw hid
      rw [hPhase] at hp
      cases hp
  | renewSent k now =>
    obtain ⟨i, task, next, hItem, -, -, -, -, rfl⟩ := renewSent_inv hs
    refine h.turn (l := []) hItem rfl ?_ (fun _ _ _ _ hj => .inl hj) rfl rfl (by simp)
    intro id _ hw w' hw'
    rw [List.mem_singleton.mp hw']
    exact hw
  | renewRun k =>
    obtain ⟨i, task, expected, next, hItem, -, reply, -, rfl⟩ := renewRun_inv hs
    refine h.turn (l := []) hItem rfl ?_ (fun _ _ _ _ hj => .inl hj) rfl rfl (by simp)
    intro id _ hw w' hw'
    rw [List.mem_singleton.mp hw']
    exact hw
  | renewReplied k =>
    obtain ⟨i, task, expected, next, ok, hItem, -, raw, renewing, -, rfl⟩ := renewReplied_inv hs
    refine h.turn (l := []) hItem rfl ?_ (fun _ _ _ _ hj => .inl hj) rfl rfl (by simp)
    intro id _ hw w' hw'
    rw [List.mem_singleton.mp hw']
    exact hw
  | handlerSettled k outcome =>
    obtain ⟨i, task, hItem, hPhase, rfl⟩ := handlerSettled_inv hs
    by_cases hWins : s.Wins task outcome
    · rw [if_pos hWins]
      cases outcome with
      | failure err => exact hWins.elim
      | success result =>
        have hAlone := hok _ hItem hWins
        exact h.win hLedger hShape hWins hAlone rfl
    · rw [if_neg hWins]
      refine h.turn (l := []) hItem rfl ?_ (fun _ _ _ _ hj => .inl hj) rfl rfl (by simp)
      intro id _ hw w' hw'
      rw [List.mem_singleton.mp hw']
      intro hid
      obtain ⟨_, _, _, hp⟩ := hw hid
      rw [hPhase] at hp
      cases hp
  | released k =>
    obtain ⟨i, task, verdict, expected, hItem, hPhase, reply, -, rfl⟩ := released_inv hs
    refine h.turn hItem rfl ?_ (fun _ _ _ _ hj => .inl hj) rfl rfl ?_
    · intro id _ hw w' hw'
      rw [List.mem_singleton.mp hw']
      intro hid
      obtain ⟨result, _, _, hp⟩ := hw hid
      rw [hPhase] at hp
      cases hp
      exact ⟨result, _, _, rfl⟩
    · intro e he id
      split at he
      · simp [List.mem_singleton.mp he]
      · cases he
  | concluded k now =>
    obtain ⟨i, task, verdict, expected, ok, hItem, hPhase, hCase⟩ := concluded_inv hs
    have hSuccess : ∀ id, Harmless id (.task task) → task.job.id = id →
        ∃ result, verdict = .handled (.success result) := by
      intro id hw hid
      obtain ⟨result, _, _, hp⟩ := hw hid
      rw [hPhase] at hp
      cases hp
      exact ⟨result, rfl⟩
    rcases hCase with ⟨result, -, rfl⟩ | ⟨hOther, q, err, -, -, rfl⟩ |
      ⟨err, hFailed, -, q, -, -, rfl⟩
    · exact h.turn (u := []) (l := [.completed task.job.id]) hItem rfl (by simp)
        (fun _ _ _ _ hj => .inl hj) rfl rfl (by simp)
    · refine h.turn (u := []) (l := [.failed task.job.id]) hItem rfl (by simp)
        (fun _ _ _ _ hj => .inl hj) rfl rfl ?_
      intro e he id
      rw [List.mem_singleton.mp he]
      refine ⟨by simp, fun hBad hw => ?_⟩
      obtain ⟨result, hVerdict⟩ := hSuccess id hw (by simpa using hBad)
      exact hOther result hVerdict
    · refine h.turn (l := []) hItem rfl ?_ (fun _ _ _ _ hj => .inl hj) rfl rfl (by simp)
      intro id _ hw w' hw'
      rw [List.mem_singleton.mp hw']
      intro hid
      obtain ⟨result, hVerdict⟩ := hSuccess id hw hid
      rw [hFailed] at hVerdict
      cases hVerdict
  | retryElapsed k now =>
    obtain ⟨i, job, err, hItem, rfl | rfl⟩ := retryElapsed_inv hs
    · refine h.turn (u := []) (l := [.failed job.id]) hItem rfl (by simp)
        (fun _ _ _ _ hj => .inl hj) rfl rfl ?_
      intro e he id
      rw [List.mem_singleton.mp he]
      exact ⟨by simp, fun hBad hw => hw (by simpa using hBad)⟩
    · refine h.turn (l := []) hItem rfl ?_ (fun _ _ _ _ hj => .inl hj) rfl rfl (by simp)
      intro id _ hw w' hw'
      rw [List.mem_singleton.mp hw']
      exact hw
  | reclaimScan i now =>
    obtain ⟨items, hItems, rfl⟩ := reclaimScan_inv hs
    refine ⟨h.known, h.pending, fun id hm item hi => ?_, h.final⟩
    rcases List.mem_append.mp hi with hOld | hi
    · exact h.items id hm item hOld
    · obtain ⟨gone, raw, rfl, -⟩ := hItems item hi
      trivial
  | reclaimRun k =>
    obtain ⟨i, gone, raw, hItem, ⟨hGet, rfl⟩ | ⟨-, rfl⟩⟩ := reclaimRun_inv hs
    · have hOpen : .won gone ∉ s.log := by
        have hKeep := hok _ hItem
        simpa only [TakesWon, hGet, true_and] using hKeep
      refine h.turn hItem rfl ?_ (fun _ _ _ _ hj => .inl hj) rfl rfl ?_
      · intro id hm _ w' hw'
        rw [List.mem_singleton.mp hw']
        intro hid
        rw [hShape.hash gone raw hGet] at hid
        exact hOpen (hid ▸ hm)
      · intro e he id
        split at he
        · cases he
        · simp [List.mem_singleton.mp he]
    · exact h.turn (u := []) (l := []) hItem rfl (by simp) (fun _ _ _ _ hj => .inl hj) rfl
        rfl (by simp)
  | reclaimContinues k now =>
    obtain ⟨i, job, q, hItem, -, -, ⟨-, rfl⟩ | ⟨-, rfl⟩⟩ := reclaimContinues_inv hs
    · refine h.turn (l := []) hItem rfl ?_ (fun _ _ _ _ hj => .inl hj) rfl rfl (by simp)
      intro id _ hw w' hw'
      rw [List.mem_singleton.mp hw']
      exact hw
    · refine h.turn (u := []) (l := [.failed job.id]) hItem rfl (by simp)
        (fun _ _ _ _ hj => .inl hj) rfl rfl ?_
      intro e he id
      rw [List.mem_singleton.mp he]
      exact ⟨by simp, fun hBad hw => hw (by simpa using hBad)⟩
  | requeueElapsed k now =>
    obtain ⟨i, job, err, hItem, rfl | rfl⟩ := requeueElapsed_inv hs
    · refine h.turn (u := []) (l := [.failed job.id]) hItem rfl (by simp)
        (fun _ _ _ _ hj => .inl hj) rfl rfl ?_
      intro e he id
      rw [List.mem_singleton.mp he]
      exact ⟨by simp, fun hBad hw => hw (by simpa using hBad)⟩
    · refine h.turn (l := []) hItem rfl ?_ (fun _ _ _ _ hj => .inl hj) rfl rfl (by simp)
      intro id _ hw w' hw'
      rw [List.mem_singleton.mp hw']
      exact hw
  | restart i concurrency =>
    cases hs
    exact ⟨h.known, h.pending,
      fun id hm item hi => h.items id hm item (List.mem_filter.mp hi).1, h.final⟩
  | closeCalled i => cases hs; exact hLoose rfl
  | closeReturned i rejectWaiters => cases hs; exact hLoose rfl

theorem delivery_reach (h : LabelledSystem.Reach step LeaseKept Start s) :
    Shape s ∧ AttemptLedger.Inv s.ledger ∧ WonInv s := by
  refine h.invariant (I := fun s => Shape s ∧ AttemptLedger.Inv s.ledger ∧ WonInv s) ?_ ?_
  · rintro _ ⟨c, v, rfl⟩
    refine ⟨shape_reach (.start ⟨c, v, rfl⟩) (p := LeaseKept), ledger_create c v, ?_⟩
    exact ⟨fun _ hm => (by cases hm), fun _ hm => (by cases hm), fun _ hm => (by cases hm), trivial⟩
  · rintro s l t ⟨hShape, hLedger, hWon⟩ hok hs
    exact ⟨shape_step s l t hShape hs, hLedger.step (ledger_step hShape hok hs),
      won_step hLedger hShape hWon hok hs⟩

/-- No redelivery after a success, one copy and a bounded number of starts, over the runs
whose steps keep the lease. -/
theorem delivery (h : LabelledSystem.Reach step LeaseKept Start s) : Delivered s := by
  obtain ⟨hShape, hLedger, hWon⟩ := delivery_reach h
  refine ⟨hWon.final, fun id => ?_, fun e he => ?_⟩
  · have hIds : s.hashCopies.map Copy.id = s.processing.keys := by
      rw [hashCopies, List.map_map, OrderedMap.keys]
      refine List.map_congr_left fun e he => ?_
      exact hShape.hash e.1 e.2 ((OrderedMap.mem_entries_iff ..).mp he)
    have hPending : (s.pending.map Job.ready).map Copy.id = s.pending.map Job.id := by
      rw [List.map_map]
      rfl
    have hSingle := hLedger.single
    simp only [ledger, List.map_append, hIds, hPending] at hSingle
    have hFront := (List.nodup_append.mp hSingle).1
    rw [copiesInRedis, ← List.count_append]
    exact List.nodup_iff_count_le_one.mp hFront id
  · have hStarts := starts_reach h e.2.id
    have hBound := hLedger.bounded (e.2.id, e.2.max)
      (List.mem_map_of_mem (f := fun e : Nat × Job => (e.2.id, e.2.max)) he)
    simp only [ledger] at hBound
    omega

def retryLabels : List RedisLabel :=
  [.on 0 "crawl", .enqueue 0 { type := "crawl" } false 1 0, .pushed 0, .claim 0 0 7, .start 0,
    .handlerSettled 0 (.failure ⟨"network", "reset"⟩), .released 0, .concluded 0 5,
    .retryElapsed 0 505, .pushed 0, .claim 0 505 8, .start 0, .renewSent 0 40000, .renewRun 0,
    .renewReplied 0, .handlerSettled 0 (.success "done"), .released 0, .concluded 0 50000]

theorem delivery_retry :
    ∃ s, LabelledSystem.run step (create (fun _ => 1) fun _ => 60000) retryLabels = some s ∧
      s.log.count (.started 1) = 2 ∧ Delivered s := by
  have hRun : (LabelledSystem.run step (create (fun _ => 1) fun _ => 60000)
      retryLabels).map (fun s => s.log.count (.started 1)) = some 2 := by decide
  obtain ⟨s, hs, hStarts⟩ := Option.map_eq_some_iff.mp hRun
  refine ⟨s, hs, hStarts, delivery ((LabelledSystem.Reach.start ⟨_, _, rfl⟩).run hs ?_)⟩
  decide

/-- The handler returns while a renewal is on its way: the release compares with the record
before the renewal, the record stays, and a reclaim pass hands the finished job out again. -/
theorem finished_job_redelivered :
    ¬ ∀ s, LabelledSystem.Reach step LabelledSystem.Anything Start s → Delivered s := by
  intro h
  have hRun : (LabelledSystem.run step (create (fun _ => 1) fun _ => 60000)
      [.on 0 "crawl", .enqueue 0 { type := "crawl" } false 1 0, .pushed 0, .claim 0 0 7, .start 0,
        .renewSent 0 40000, .renewRun 0, .handlerSettled 0 (.success "done"), .released 0,
        .concluded 0 41000, .reclaimScan 0 170000, .reclaimRun 0, .reclaimContinues 0 170000,
        .requeueElapsed 0 170500, .pushed 0, .claim 0 171000 8, .start 0]).map
      (fun s => (s.log.head?, decide (.won 1 ∈ s.log.tail))) =
        some (some (.started 1), true) := by decide
  obtain ⟨s, hs, hEnd⟩ := Option.map_eq_some_iff.mp hRun
  simp only [Prod.mk.injEq, decide_eq_true_eq] at hEnd
  obtain ⟨hHead, hWon⟩ := hEnd
  have hFinal := (h s (LabelledSystem.reach_of_run ⟨_, _, rfl⟩ hs)).final
  obtain ⟨log, hLog⟩ := List.head?_eq_some_iff.mp hHead
  rw [hLog] at hFinal hWon
  exact hFinal.1 1 (.inl rfl) hWon

end RedisSystem

end OrchestraAI.Queue
