import Mathlib.Data.List.Flatten
import OrchestraAI.Library.KeyOwnership
import OrchestraAI.Queue.MemoryConservation
import OrchestraAI.Queue.RedisShape

/-! # Idempotent enqueue of the Redis provider

The key table is kept per instance while the jobs live in Redis. Over the runs in
which a keyed job is only ever handled by the instance that accepted it, the
queues simulate the owners of `KeyOwnership`, and the tables are exact.
-/

namespace OrchestraAI.Queue

open WorkBag

def Work.papers : Work → List Job
  | .task held => held.renewal.toList.map fun renewal => renewal.next.job
  | .stale _ raw => [raw.job]
  | _ => []

namespace RedisSystem

def Ended (s : RedisSystem) (id : JobId) : Prop := .completed id ∈ s.log ∨ .failed id ∈ s.log

instance (s : RedisSystem) (id : JobId) : Decidable (s.Ended id) :=
  inferInstanceAs (Decidable (_ ∨ _))

/-- The jobs that are pending or running, wherever they are; a record that outlived its
job does not run. -/
def live (s : RedisSystem) : List Job :=
  s.pending ++ (s.bag.flatMap fun item => item.work.jobs) ++
    (s.processing.entries.map fun e => e.2.job).filter fun job => ¬ s.Ended job.id

structure Idempotent (s : RedisSystem) : Prop where
  distinct : ∀ job ∈ s.live, ∀ other ∈ s.live, job.key ≠ none → job.key = other.key →
    job.id = other.id
  reusable : ∀ i opts id now, opts.type ≠ "" → opts.dedupeCompleted = false →
    (∀ e ∈ s.issued, e.2.key = truthyKey opts.idempotencyKey → s.Ended e.2.id) →
    ∃ job q, (s.instances i).normalizeEnqueue opts id now = (.job job, q)

/-- Instance `i` has accepted no keyed job that is still unfinished. -/
def NothingOpen (s : RedisSystem) (i : Nat) : Prop :=
  ∀ e ∈ s.issued, e.1 = i → e.2.key = none ∨ s.Ended e.2.id

def KnowsKey (s : RedisSystem) (i : Nat) (key : Option String) : Prop :=
  ∀ e ∈ s.issued, e.2.key = key → key ≠ none → ¬ s.Ended e.2.id → e.1 = i

def TakesKeyed (s : RedisSystem) (item : Item) : Prop :=
  match item.work with
  | .stale id raw => raw.job.key ≠ none ∧ s.processing.get id = some raw
  | _ => False

/-- Keyed jobs are handled by the instance that accepted them, and never reclaimed. -/
def OneOwner (s : RedisSystem) : RedisLabel → Prop
  | .enqueue i opts _ _ _ => s.KnowsKey i (truthyKey opts.idempotencyKey)
  | .claim i _ _ => ∀ job ∈ s.pending.head?, job.key ≠ none →
    (i, job.tag) ∈ s.issued.map fun e => (e.1, e.2.tag)
  | .reclaimRun k => ∀ item ∈ s.bag[k]?, ¬ s.TakesKeyed item
  | .restart i _ => s.NothingOpen i
  | .closeReturned i _ => s.NothingOpen i
  | _ => True

instance (s : RedisSystem) (item : Item) : Decidable (s.TakesKeyed item) := by
  obtain ⟨_, _ | _⟩ := item <;> dsimp only [TakesKeyed] <;> infer_instance

instance (s : RedisSystem) (i : Nat) : Decidable (s.NothingOpen i) :=
  inferInstanceAs (Decidable (∀ e ∈ s.issued, _ → _))

instance (s : RedisSystem) (i : Nat) (key : Option String) : Decidable (s.KnowsKey i key) :=
  inferInstanceAs (Decidable (∀ e ∈ s.issued, _ → _ → _ → _))

instance (s : RedisSystem) (l : RedisLabel) : Decidable (s.OneOwner l) := by
  obtain _ | _ := l <;> dsimp only [OneOwner] <;> infer_instance

def carried (s : RedisSystem) : List (Nat × JobId × Option String) :=
  s.bag.flatMap fun item => item.work.jobs.map fun job => (item.worker, job.tag)

def keyView (s : RedisSystem) : KeyOwnership.View JobId String where
  pool := s.pending.map Job.tag
  carried := s.carried
  papers := (s.processing.entries.map fun e => e.2.job.tag) ++
    s.bag.flatMap fun item => item.work.papers.map Job.tag
  issued := s.issued.map fun e => (e.1, e.2.tag)
  table i := (s.instances i).inflightKeys
  ended := s.Ended

variable {s t : RedisSystem}

theorem carried_turnInto {k i : Nat} {w : Work} (hItem : s.bag[k]? = some ⟨i, w⟩)
    (ws : List Work) (hBag : t.bag = serve s.bag k (ws.map (Item.mk i))) :
    (w.jobs.map (fun job => (i, job.tag)) ++ t.carried).Perm
      (s.carried ++ (ws.flatMap Work.jobs).map fun job => (i, job.tag)) := by
  have hPerm := (perm_serve (ws.map (Item.mk i)) hItem).flatMap_right
    fun item => item.work.jobs.map fun job => (item.worker, job.tag)
  rw [List.flatMap_cons, List.flatMap_append, List.flatMap_map, ← hBag] at hPerm
  rw [List.map_flatMap]
  exact hPerm

theorem mentions_pending {job : Job} (h : job ∈ s.pending) : s.keyView.Mentions job.tag :=
  .inl (List.mem_map_of_mem h)

theorem mentions_item {k i : Nat} {w : Work} {job : Job} (hItem : s.bag[k]? = some ⟨i, w⟩)
    (h : job ∈ w.jobs) : s.keyView.Mentions job.tag := by
  refine .inr (.inl (List.mem_map.mpr ⟨(i, job.tag), ?_, rfl⟩))
  exact List.mem_flatMap.mpr ⟨_, mem_of_get hItem, List.mem_map_of_mem (f := fun j => (i, j.tag)) h⟩

theorem mentions_paper {item : Item} {job : Job} (hItem : item ∈ s.bag)
    (h : job ∈ item.work.papers) : s.keyView.Mentions job.tag :=
  .inr (.inr (List.mem_append_right _
    (List.mem_flatMap.mpr ⟨item, hItem, List.mem_map_of_mem h⟩)))

theorem mentions_hash {id : JobId} {raw : ProcessingRecord} (h : s.processing.get id = some raw) :
    s.keyView.Mentions raw.job.tag :=
  .inr (.inr (List.mem_append_left _
    (List.mem_map_of_mem (f := fun e : JobId × ProcessingRecord => e.2.job.tag)
      ((OrderedMap.mem_entries_iff ..).mpr h))))

/-- What a step writes down is mentioned when the new records and the new items are. -/
theorem papers_mentioned
    (hHash : ∀ id raw, t.processing.get id = some raw → s.keyView.Mentions raw.job.tag)
    (hBag : ∀ item ∈ t.bag, item ∈ s.bag ∨ ∀ job ∈ item.work.papers, s.keyView.Mentions job.tag) :
    ∀ tag ∈ t.keyView.papers, s.keyView.Mentions tag := by
  intro tag hTag
  rcases List.mem_append.mp hTag with hTag | hTag
  · obtain ⟨e, he, rfl⟩ := List.mem_map.mp hTag
    exact hHash e.1 e.2 ((OrderedMap.mem_entries_iff ..).mp he)
  · obtain ⟨item, hItem, hTag⟩ := List.mem_flatMap.mp hTag
    obtain ⟨job, hJob, rfl⟩ := List.mem_map.mp hTag
    rcases hBag item hItem with hOld | hNew
    · exact mentions_paper hOld hJob
    · exact hNew job hJob

theorem bag_turnInto {k i : Nat} {u : List Work}
    (hBag : t.bag = serve s.bag k (u.map (Item.mk i)))
    (hNew : ∀ w ∈ u, ∀ job ∈ w.papers, s.keyView.Mentions job.tag) :
    ∀ item ∈ t.bag, item ∈ s.bag ∨ ∀ job ∈ item.work.papers, s.keyView.Mentions job.tag := by
  intro item hItem
  rw [hBag] at hItem
  rcases mem_serve hItem with hOld | hItem
  · exact .inl hOld
  · obtain ⟨w, hw, rfl⟩ := List.mem_map.mp hItem
    exact .inr (hNew w hw)

theorem hash_same (hHash : t.processing = s.processing) :
    ∀ id raw, t.processing.get id = some raw → s.keyView.Mentions raw.job.tag :=
  fun _ _ h => mentions_hash (hHash ▸ h)

theorem table_same {i : Nat} {q : BaseJobQueue} (h : t.instances = Function.update s.instances i q)
    (hq : q.inflightKeys = (s.instances i).inflightKeys) : t.keyView.table = s.keyView.table := by
  funext j
  simp only [keyView, h]
  by_cases hj : j = i
  · subst hj
    rw [Function.update_self, hq]
  · rw [Function.update_of_ne hj]

theorem table_update {i : Nat} {q : BaseJobQueue} (h : t.instances = Function.update s.instances i q)
    (j : Nat) : t.keyView.table j = if j = i then q.inflightKeys else s.keyView.table j := by
  simp only [keyView, h]
  by_cases hj : j = i
  · subst hj
    rw [Function.update_self, if_pos rfl]
  · rw [Function.update_of_ne hj, if_neg hj]

theorem ended_same {l : List Event} (h : t.log = l ++ s.log)
    (hEvents : ∀ e ∈ l, ∀ id, e ≠ .completed id ∧ e ≠ .failed id) :
    t.keyView.ended = s.keyView.ended := by
  funext id
  simp only [keyView, Ended, h, List.mem_append]
  have hc : Event.completed id ∉ l := fun hm => (hEvents _ hm id).1 rfl
  have hf : Event.failed id ∉ l := fun hm => (hEvents _ hm id).2 rfl
  simp only [hc, hf, false_or]

theorem quiet_turn {k i : Nat} {w : Work} {ws : List Work} (hItem : s.bag[k]? = some ⟨i, w⟩)
    (hBag : t.bag = serve s.bag k (ws.map (Item.mk i)))
    (hJobs : (ws.flatMap Work.jobs).map Job.tag = w.jobs.map Job.tag)
    (hNew : ∀ w ∈ ws, ∀ job ∈ w.papers, s.keyView.Mentions job.tag)
    (hHash : ∀ id raw, t.processing.get id = some raw → s.keyView.Mentions raw.job.tag)
    (hPending : t.pending = s.pending) (hIssued : t.issued = s.issued)
    (hTable : t.keyView.table = s.keyView.table) (hEnded : t.keyView.ended = s.keyView.ended) :
    KeyOwnership.Step s.keyView t.keyView := by
  refine .quiet ?_ ?_ (papers_mentioned hHash (bag_turnInto hBag hNew)) ?_
  · simp only [keyView, hPending]
    exact .refl _
  · have hPerm := carried_turnInto hItem ws hBag
    have hSame : (ws.flatMap Work.jobs).map (fun job => (i, job.tag)) =
        w.jobs.map fun job => (i, job.tag) := by
      have h := congrArg (List.map (Prod.mk i)) hJobs
      rwa [List.map_map, List.map_map] at h
    rw [hSame] at hPerm
    exact (List.perm_append_left_iff _).mp (hPerm.trans List.perm_append_comm)
  · have hIssuedTags : t.keyView.issued = s.keyView.issued := by simp only [keyView, hIssued]
    rw [hIssuedTags, hTable, hEnded]

/-- An instance ends the job of item `k` and releases its key. -/
theorem finish_turn {k i : Nat} {w : Work} {job : Job} (hItem : s.bag[k]? = some ⟨i, w⟩)
    (hJobs : w.jobs = [job]) (hBag : t.bag = serve s.bag k [])
    (hRedis : (t.pending, t.processing, t.issued) = (s.pending, s.processing, s.issued))
    (q q' : BaseJobQueue) (hInst : t.instances = Function.update s.instances i q)
    (hKeys : q.inflightKeys = (q'.releaseKey job).inflightKeys)
    (hOld : q'.inflightKeys = (s.instances i).inflightKeys) {e : Event}
    (hLog : t.log = e :: s.log) (hEvent : e = .completed job.id ∨ e = .failed job.id) :
    KeyOwnership.Step s.keyView t.keyView := by
  simp only [Prod.mk.injEq] at hRedis
  obtain ⟨hPending, hHash, hIssued⟩ := hRedis
  refine .finish i job.tag ?_ ?_ ?_ ?_ ?_ ?_
  · simp only [keyView, hPending]
  · have hPerm := carried_turnInto (t := t) hItem [] hBag
    rw [hJobs] at hPerm
    have hLeft : s.carried.Perm ((i, job.tag) :: t.carried) := by simpa using hPerm.symm
    exact hLeft
  · exact papers_mentioned (hash_same hHash) (bag_turnInto (i := i) (u := []) hBag (by simp))
  · simp only [keyView, hIssued]
  · intro id
    simp only [keyView, Ended, hLog, List.mem_cons, Job.tag]
    rcases hEvent with rfl | rfl
    · simp only [Event.completed.injEq, reduceCtorEq, false_or]
      tauto
    · simp only [Event.failed.injEq, reduceCtorEq, false_or]
      tauto
  · intro j key
    rw [table_update hInst]
    by_cases hj : j = i
    · subst hj
      rw [if_pos rfl, hKeys, BaseJobQueue.releaseKey_get, hOld]
      simp only [true_and]
      rfl
    · rw [if_neg hj, if_neg (fun h => hj h.1)]

theorem renewal_mentioned {k i : Nat} {task next : RedisTask}
    (hItem : s.bag[k]? = some ⟨i, .task task⟩) (hSame : next.renewal = task.renewal) :
    ∀ w ∈ [Work.task next], ∀ job ∈ w.papers, s.keyView.Mentions job.tag := by
  intro w hw job hJob
  rw [List.mem_singleton.mp hw, Work.papers, hSame] at hJob
  exact mentions_paper (mem_of_get hItem) hJob

theorem nothingOpen_view {i : Nat} (h : s.NothingOpen i) :
    ∀ e ∈ s.keyView.issued, e.1 = i → e.2.2 = none ∨ s.keyView.ended e.2.1 := by
  intro e he hi
  obtain ⟨e, hIssued, rfl⟩ := List.mem_map.mp he
  exact h e hIssued hi

/-- Under the owner condition every step of the queues is one of `KeyOwnership`. -/
theorem step_refines {l : RedisLabel} (hok : s.OneOwner l) (hs : step s l = some t) :
    KeyOwnership.Step s.keyView t.keyView := by
  have hStill : ∀ {i q}, q.inflightKeys = (s.instances i).inflightKeys →
      KeyOwnership.Step s.keyView (s.withInstance i q).keyView := fun {i q} hq =>
    .quiet (.refl _) (.refl _) (fun tag h => .inr (.inr h)) (by
      rw [table_same (t := s.withInstance i q) rfl hq]; rfl)
  cases l with
  | on i type => cases hs; exact hStill rfl
  | enqueue i opts wait id now =>
    obtain ⟨hFresh, rfl⟩ := Option.ite_some_none_eq_some.mp hs
    rcases enqueue_cases (s := s) i opts wait id now with ⟨q, hq, -, ht⟩ | ⟨q, hFree, hq, -, ht⟩
    · rw [ht]; exact hStill hq
    · rw [ht]
      refine .issue i (opts.toJob id now).tag ?_ ?_ ?_ rfl ?_ ?_ ?_
      · simpa [keyView, Fresh, Job.tag, EnqueueOptions.toJob] using hFresh
      · intro k hk
        refine ⟨hFree k hk, fun e he hKey hOpen => ?_⟩
        obtain ⟨e, hIssued, rfl⟩ := List.mem_map.mp he
        have hOpts : truthyKey opts.idempotencyKey = some k := hk
        exact hok e hIssued (hKey.trans hOpts.symm) (by simp [hOpts]) hOpen
      · refine papers_mentioned (hash_same rfl) fun item hItem => ?_
        rcases List.mem_append.mp hItem with hOld | hNew
        · exact .inl hOld
        · rw [List.mem_singleton.mp hNew]
          exact .inr (by simp [Work.papers])
      · simp only [keyView, carried, addWork, List.flatMap_append]
        exact List.perm_append_singleton _ _
      · simp only [keyView, List.map_append]
        rfl
      · intro j k
        rw [table_update (t := { (s.withInstance i q).addWork i _ with issued := _ }) rfl, hq]
        by_cases hj : j = i
        · subst hj
          simp only [if_true, true_and, Job.tag]
          cases hKey : (opts.toJob id now).key with
          | none => simp [keyView]
          | some key =>
            rw [OrderedMap.get_set]
            by_cases hk : k = key
            · simp [hk, EnqueueOptions.toJob]
            · simp [hk, Ne.symm hk, keyView]
        · rw [if_neg hj, if_neg (fun h => hj h.1)]
  | claimRegistered i id =>
    cases hs
    refine hStill ?_
    unfold BaseJobQueue.registerClaim
    split <;> rfl
  | waitTimedOut i id =>
    obtain ⟨-, rfl⟩ := Option.ite_some_none_eq_some.mp hs
    exact hStill rfl
  | pushed k =>
    obtain ⟨i, job, first, hItem, rfl⟩ := pushed_inv hs
    refine .put i job.tag ?_ ?_ ?_ rfl
    · simp only [keyView, List.map_append]
      exact List.perm_append_singleton _ _
    · have hPerm := carried_turnInto (t := s.turnInto k i []) hItem [] rfl
      have hLeft : s.carried.Perm ((i, job.tag) :: (s.turnInto k i []).carried) := by
        simpa [Work.jobs] using hPerm.symm
      exact hLeft
    · exact papers_mentioned (hash_same rfl) (bag_turnInto (i := i) (u := []) rfl (by simp))
  | claim i now leaseToken =>
    obtain ⟨job, rest, hPending, ⟨-, rfl⟩ | ⟨-, -, raw, duration, hRaw, -, rfl⟩⟩ := claim_inv hs
    · refine .quiet ?_ (.refl _) (fun tag h => .inr (.inr h)) rfl
      simp only [keyView, hPending, List.map_append, List.map_cons, List.map_nil]
      exact List.perm_append_singleton _ _
    · refine .take i job.tag ?_ ?_ ?_ ?_ ?_
      · simp only [keyView, hPending, List.map_cons]
        exact .refl _
      · simp only [keyView, carried, addWork, record, List.flatMap_append]
        exact List.perm_append_singleton _ _
      · refine papers_mentioned ?_ fun item hItem => ?_
        · intro id found hFound
          rw [OrderedMap.get_set] at hFound
          split at hFound
          · cases hFound
            rw [hRaw]
            exact mentions_pending (hPending ▸ List.mem_cons_self)
          · exact mentions_hash hFound
        · rcases List.mem_append.mp hItem with hOld | hNew
          · exact .inl hOld
          · rw [List.mem_singleton.mp hNew]
            exact .inr (by simp [Work.papers])
      · intro hKey
        exact hok job (by simp [hPending]) hKey
      · rw [ended_same (l := [.claimed job.id]) rfl (by simp)]
        rfl
  | start k =>
    obtain ⟨i, task, hItem, -, rfl | rfl⟩ := start_inv hs
    · refine quiet_turn hItem rfl rfl ?_ (hash_same rfl) rfl rfl (table_same rfl rfl)
        (ended_same (l := [.started task.job.id]) rfl (by simp))
      exact renewal_mentioned hItem rfl
    · exact quiet_turn hItem rfl rfl (renewal_mentioned hItem rfl) (hash_same rfl) rfl rfl rfl rfl
  | renewSent k now =>
    obtain ⟨i, task, next, hItem, -, -, hNext, -, rfl⟩ := renewSent_inv hs
    refine quiet_turn hItem rfl rfl ?_ (hash_same rfl) rfl rfl rfl rfl
    intro w hw job hJob
    rw [List.mem_singleton.mp hw] at hJob
    have hSame : job = task.job := (List.mem_singleton.mp hJob).trans hNext
    exact hSame ▸ mentions_item hItem List.mem_cons_self
  | renewRun k =>
    obtain ⟨i, task, expected, next, hItem, hRenewal, reply, hReply, rfl⟩ := renewRun_inv hs
    have hNext : s.keyView.Mentions next.job.tag :=
      mentions_paper (mem_of_get hItem) (by simp [Work.papers, hRenewal])
    refine quiet_turn hItem rfl rfl ?_ ?_ rfl rfl rfl rfl
    · intro w hw job hJob
      rw [List.mem_singleton.mp hw] at hJob
      rwa [List.mem_singleton.mp hJob]
    · intro id found hFound
      simp only [hReply, compareAndSetHash] at hFound
      split at hFound
      · rw [OrderedMap.get_set] at hFound
        split at hFound
        · exact Option.some.inj hFound ▸ hNext
        · exact mentions_hash hFound
      · exact mentions_hash hFound
  | renewReplied k =>
    obtain ⟨i, task, expected, next, ok, hItem, -, raw, renewing, -, rfl⟩ := renewReplied_inv hs
    exact quiet_turn hItem rfl rfl (by simp [Work.papers]) (hash_same rfl) rfl rfl rfl rfl
  | handlerSettled k outcome =>
    obtain ⟨i, task, hItem, -, rfl⟩ := handlerSettled_inv hs
    refine quiet_turn hItem rfl rfl (renewal_mentioned hItem rfl) (hash_same rfl) rfl rfl rfl
      (ended_same rfl ?_)
    intro e he id
    split at he
    · simp [List.mem_singleton.mp he]
    · cases he
  | released k =>
    obtain ⟨i, task, verdict, expected, hItem, hPhase, reply, hReply, rfl⟩ := released_inv hs
    refine quiet_turn hItem rfl rfl (renewal_mentioned hItem rfl) ?_ rfl rfl rfl
      (ended_same rfl ?_)
    · intro id found hFound
      simp only [hReply, compareAndDeleteHash] at hFound
      split at hFound
      · exact mentions_hash (get_of_delete hFound)
      · exact mentions_hash hFound
    · intro e he id
      split at he
      · simp [List.mem_singleton.mp he]
      · cases he
  | concluded k now =>
    obtain ⟨i, task, verdict, expected, ok, hItem, -, hCase⟩ := concluded_inv hs
    rcases hCase with ⟨result, -, rfl⟩ | ⟨-, q, err, hq, -, rfl⟩ | ⟨err, -, -, q, hq, -, rfl⟩
    · refine finish_turn hItem rfl rfl rfl _ (s.instances i) rfl ?_ rfl rfl (.inl rfl)
      rw [BaseJobQueue.afterSuccess_frame]
      rfl
    · exact finish_turn hItem rfl rfl rfl _ q rfl rfl hq rfl (.inr rfl)
    · exact quiet_turn hItem rfl rfl (by simp [Work.papers]) (hash_same rfl) rfl rfl
        (table_same rfl hq) rfl
  | retryElapsed k now =>
    obtain ⟨i, job, err, hItem, rfl | rfl⟩ := retryElapsed_inv hs
    · exact finish_turn hItem rfl rfl rfl _ (s.instances i) rfl rfl rfl rfl (.inr rfl)
    · exact quiet_turn hItem rfl rfl (by simp [Work.papers]) (hash_same rfl) rfl rfl rfl rfl
  | reclaimScan i now =>
    obtain ⟨items, hItems, rfl⟩ := reclaimScan_inv hs
    refine .quiet (.refl _) ?_ ?_ rfl
    · have hNone : (items.flatMap fun item =>
          item.work.jobs.map fun job => (item.worker, job.tag)) = [] := by
        refine List.flatMap_eq_nil_iff.mpr fun item hItem => ?_
        obtain ⟨id, raw, rfl, -⟩ := hItems item hItem
        rfl
      simp only [keyView, carried, List.flatMap_append, hNone, List.append_nil]
      exact .refl _
    · refine papers_mentioned (hash_same rfl) fun item hItem => ?_
      refine (List.mem_append.mp hItem).imp_right fun hNew job hJob => ?_
      obtain ⟨id, raw, rfl, hGet⟩ := hItems item hNew
      rw [List.mem_singleton.mp hJob]
      exact mentions_hash hGet
  | reclaimRun k =>
    obtain ⟨i, gone, raw, hItem, ⟨hSame, rfl⟩ | ⟨-, rfl⟩⟩ := reclaimRun_inv hs
    · have hKey : raw.job.key = none := by
        have hKeep := hok _ hItem
        simpa [TakesKeyed, hSame] using hKeep
      refine .copy i raw.job.tag hKey (mentions_hash hSame) rfl ?_ ?_ ?_
      · have hPerm := carried_turnInto (t := s.turnInto k i [.reclaimed raw.job]) hItem
          [.reclaimed raw.job] rfl
        exact hPerm.trans (List.perm_append_singleton _ _)
      · exact papers_mentioned (fun _ _ hFound => mentions_hash (get_of_delete hFound))
          (bag_turnInto (i := i) (u := [.reclaimed raw.job]) rfl (by simp [Work.papers]))
      · refine congrArg (Prod.mk _ ∘ Prod.mk _) (ended_same rfl ?_)
        intro e he id
        split at he
        · cases he
        · simp [List.mem_singleton.mp he]
    · exact quiet_turn hItem rfl rfl (by simp) (hash_same rfl) rfl rfl rfl rfl
  | reclaimContinues k now =>
    obtain ⟨i, job, q, hItem, hq, -, ⟨-, rfl⟩ | ⟨-, rfl⟩⟩ := reclaimContinues_inv hs
    · exact quiet_turn hItem rfl rfl (by simp [Work.papers]) (hash_same rfl) rfl rfl
        (table_same rfl hq) rfl
    · refine finish_turn hItem rfl rfl rfl (q.failTerminally job (workerLost job) now) q ?_ rfl
        hq rfl (.inr rfl)
      simp [failJob, withInstance, record, turnInto]
  | requeueElapsed k now =>
    obtain ⟨i, job, err, hItem, rfl | rfl⟩ := requeueElapsed_inv hs
    · exact finish_turn hItem rfl rfl rfl _ (s.instances i) rfl rfl rfl rfl (.inr rfl)
    · exact quiet_turn hItem rfl rfl (by simp [Work.papers]) (hash_same rfl) rfl rfl rfl rfl
  | restart i concurrency =>
    cases hs
    have hSub : (s.restart i concurrency).carried.Sublist s.carried :=
      List.filter_sublist.flatMap _
    refine .forget i rfl (fun tag => (hSub.map Prod.snd).count_le tag) (fun _ he => hSub.subset he)
      ?_ rfl (nothingOpen_view hok) fun j => table_update (t := s.restart i concurrency) rfl j
    exact papers_mentioned (hash_same rfl) fun item hItem => .inl (List.mem_filter.mp hItem).1
  | closeCalled i => cases hs; exact hStill rfl
  | closeReturned i rejectWaiters =>
    cases hs
    refine .forget i rfl (fun _ => Nat.le_refl _) (fun _ => id) (fun tag h => .inr (.inr h)) rfl
      (nothingOpen_view hok) fun j => table_update (t := s.closeReturned i rejectWaiters) rfl j

theorem keyInv_create (concurrency visibilityMs : Nat → Nat) :
    KeyOwnership.Inv (create concurrency visibilityMs).keyView where
  unique := List.nodup_nil
  known tag h := by rcases h with h | h | h <;> cases h
  past id h := by rcases h with h | h <;> cases h
  home e h := by cases h
  once tag _ := ⟨Nat.zero_le _, fun _ => rfl⟩
  table i k id := .intro (fun h => by cases h) fun h => by cases h.1
  single i j k a b h := by cases h

theorem keyInv_reach (h : LabelledSystem.Reach step OneOwner Start s) :
    KeyOwnership.Inv s.keyView :=
  h.invariant (fun _ ⟨c, v, hc⟩ => hc ▸ keyInv_create c v)
    fun _ _ _ hInv hok hs => hInv.step (step_refines hok hs)

/-- A job that is pending or running is mentioned and, if it has a key, has not ended. -/
theorem live_open (h : KeyOwnership.Inv s.keyView) {job : Job} (hJob : job ∈ s.live) :
    s.keyView.Mentions job.tag ∧ (job.key ≠ none → ¬ s.Ended job.id) := by
  rcases List.mem_append.mp hJob with hJob | hJob
  · rcases List.mem_append.mp hJob with hJob | hJob
    · refine ⟨mentions_pending hJob, fun hKey => h.held_open (a := job.tag) hKey ?_⟩
      exact KeyOwnership.held_pos_of_pool (List.mem_map_of_mem hJob)
    · obtain ⟨item, hItem, hJob⟩ := List.mem_flatMap.mp hJob
      have hCarried : (item.worker, job.tag) ∈ s.keyView.carried :=
        List.mem_flatMap.mpr ⟨item, hItem,
          List.mem_map_of_mem (f := fun j : Job => (item.worker, j.tag)) hJob⟩
      exact ⟨.inr (.inl (List.mem_map_of_mem (f := Prod.snd) hCarried)),
        fun hKey => h.held_open hKey (KeyOwnership.held_pos_of_carried hCarried)⟩
  · obtain ⟨hJob, hOpen⟩ := List.mem_filter.mp hJob
    obtain ⟨e, he, rfl⟩ := List.mem_map.mp hJob
    exact ⟨mentions_hash ((OrderedMap.mem_entries_iff ..).mp he), fun _ => of_decide_eq_true hOpen⟩

/-- Idempotent enqueue over the runs in which keyed jobs stay with their owner. -/
theorem idempotence (h : LabelledSystem.Reach step OneOwner Start s) : Idempotent s := by
  have hInv := keyInv_reach h
  refine ⟨?_, ?_⟩
  · intro job hJob other hOther hKey hSame
    obtain ⟨hMentioned, hOpen⟩ := live_open hInv hJob
    obtain ⟨hMentioned', hOpen'⟩ := live_open hInv hOther
    obtain ⟨k, hk⟩ := Option.ne_none_iff_exists'.mp hKey
    have hk' : other.key = some k := hSame.symm.trans hk
    exact hInv.distinct hMentioned hMentioned' hk hk' (hOpen hKey) (hOpen' (hSame ▸ hKey))
  · intro i opts id now hType hDedupe hFinished
    unfold BaseJobQueue.normalizeEnqueue
    rw [if_neg hType]
    split
    · exact ⟨_, _, rfl⟩
    · rename_i k hKey
      have hFree : (s.instances i).inflightKeys.get k = none := by
        by_contra hHeld
        obtain ⟨holder, hHolder⟩ := Option.ne_none_iff_exists'.mp hHeld
        obtain ⟨hIssued, hOpen⟩ := (hInv.table i k holder).mp hHolder
        obtain ⟨e, he, heq⟩ := List.mem_map.mp hIssued
        have hTag := congrArg Prod.snd heq
        have hid : e.2.id = holder := congrArg Prod.fst hTag
        exact hOpen (hid ▸ hFinished e he (by rw [hKey]; exact congrArg Prod.snd hTag))
      rw [hFree]
      simp only [hDedupe, Bool.false_and, Bool.false_eq_true, if_false]
      exact ⟨_, _, rfl⟩

/-- A keyed job that is retried once at the instance that accepted it, which then accepts
the key again. -/
def reuseLabels : List RedisLabel :=
  [.on 0 "crawl", .enqueue 0 { type := "crawl", idempotencyKey := some "k" } false 1 0, .pushed 0,
    .claim 0 0 7, .start 0, .handlerSettled 0 (.failure ⟨"network", "reset"⟩), .released 0,
    .concluded 0 5, .retryElapsed 0 505, .pushed 0, .claim 0 505 8, .start 0,
    .handlerSettled 0 (.success "done"), .released 0, .concluded 0 510,
    .enqueue 0 { type := "crawl", idempotencyKey := some "k" } false 2 520]

theorem idempotence_reuse :
    ∃ s, LabelledSystem.run step (create (fun _ => 1) fun _ => 60000) reuseLabels = some s ∧
      s.issued.map (fun e => e.2.id) = [1, 2] ∧ Idempotent s := by
  have hRun : (LabelledSystem.run step (create (fun _ => 1) fun _ => 60000)
      reuseLabels).map (fun s => s.issued.map fun e => e.2.id) = some [1, 2] := by decide
  obtain ⟨s, hs, hIssued⟩ := Option.map_eq_some_iff.mp hRun
  refine ⟨s, hs, hIssued, idempotence ((LabelledSystem.Reach.start ⟨_, _, rfl⟩).run hs ?_)⟩
  decide

/-- The job is claimed by an instance that did not accept it: nobody tells the instance that
did, and its key stays taken. -/
theorem key_leaks_across_instances :
    ¬ ∀ s, LabelledSystem.Reach step LabelledSystem.Anything Start s → Idempotent s := by
  intro h
  have hRun : (LabelledSystem.run step (create (fun _ => 1) fun _ => 60000)
      [.on 1 "crawl", .enqueue 0 { type := "crawl", idempotencyKey := some "k" } false 1 0,
        .pushed 0, .claim 1 0 7, .start 0, .handlerSettled 0 (.success "done"), .released 0,
        .concluded 0 5]).map (fun s => (s.issued.map (fun e => e.2.id), s.log.head?,
          (s.instances 0).inflightKeys.get "k")) =
      some ([1], some (.completed 1), some 1) := by decide
  obtain ⟨s, hs, hEnd⟩ := Option.map_eq_some_iff.mp hRun
  simp only [Prod.mk.injEq] at hEnd
  obtain ⟨hIssued, hLog, hKey⟩ := hEnd
  have hReuse := (h s (LabelledSystem.reach_of_run ⟨_, _, rfl⟩ hs)).reusable 0
    { type := "crawl", idempotencyKey := some "k" } 2 10 (by decide) rfl
  obtain ⟨job, q, hNorm⟩ := hReuse fun e he _ => by
    have hid : e.2.id ∈ [1] := hIssued ▸ List.mem_map_of_mem (f := fun e => e.2.id) he
    rw [List.mem_singleton.mp hid]
    exact .inl (List.mem_of_head? hLog)
  have hTruthy : truthyKey (some "k") = some "k" := by decide
  simp [BaseJobQueue.normalizeEnqueue, hTruthy, hKey] at hNorm

end RedisSystem

end OrchestraAI.Queue
