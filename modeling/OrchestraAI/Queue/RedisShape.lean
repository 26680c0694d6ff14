import OrchestraAI.Queue.RedisSteps

/-! # What the records of the Redis provider look like

Facts about every run, whatever happens in it: a record is filed under its own
job, the records a worker compares with are records of its job, and a handler is
started at most once for each claim.
-/

namespace OrchestraAI.Queue

open WorkBag

def Work.WellFormed : Work → Prop
  | .task held => held.lease.raw.job = held.job ∧
    (∀ renewal, held.renewal = some renewal →
      renewal.expected.job = held.job ∧ renewal.next.job = held.job) ∧
    ∀ verdict expected reply, held.phase = .releasing verdict expected reply →
      expected.job = held.job
  | .stale id raw => raw.job.id = id
  | _ => True

namespace RedisSystem

structure Shape (s : RedisSystem) : Prop where
  hash : ∀ id raw, s.processing.get id = some raw → raw.job.id = id
  items : ∀ item ∈ s.bag, item.work.WellFormed

variable {s t : RedisSystem}

/-- A turn of item `k` into well-formed items. -/
theorem Shape.turn (h : Shape s) {k i : Nat} {u : List Work}
    (hBag : t.bag = serve s.bag k (u.map (Item.mk i))) (hNew : ∀ w ∈ u, w.WellFormed)
    (hHash : ∀ id raw, t.processing.get id = some raw → raw.job.id = id) : Shape t := by
  refine ⟨hHash, fun item hItem => ?_⟩
  rw [hBag] at hItem
  rcases mem_serve hItem with hOld | hItem
  · exact h.items item hOld
  · obtain ⟨w, hw, rfl⟩ := List.mem_map.mp hItem
    exact hNew w hw

theorem Shape.added (h : Shape s) {u : List Item} (hBag : t.bag = s.bag ++ u)
    (hNew : ∀ item ∈ u, item.work.WellFormed)
    (hHash : ∀ id raw, t.processing.get id = some raw → raw.job.id = id) : Shape t := by
  refine ⟨hHash, fun item hItem => ?_⟩
  rw [hBag] at hItem
  exact (List.mem_append.mp hItem).elim (h.items item) (hNew item)

theorem Shape.of_item (h : Shape s) {k i : Nat} {w : Work} (hItem : s.bag[k]? = some ⟨i, w⟩) :
    w.WellFormed := h.items _ (mem_of_get hItem)

theorem get_of_delete {hash : OrderedMap JobId ProcessingRecord} {gone id : JobId}
    {raw : ProcessingRecord} (h : (hash.delete gone).get id = some raw) :
    hash.get id = some raw := by
  rw [OrderedMap.get_delete] at h
  split at h
  · cases h
  · exact h

theorem shape_step (s : RedisSystem) (l : RedisLabel) (t : RedisSystem) (h : Shape s)
    (hs : step s l = some t) : Shape t := by
  have hLoose : ∀ {t' : RedisSystem}, t'.bag = s.bag → t'.processing = s.processing →
      Shape t' := fun hb hp => ⟨hp ▸ h.hash, hb ▸ h.items⟩
  cases l with
  | on i type => cases hs; exact hLoose rfl rfl
  | enqueue i opts wait id now =>
    obtain ⟨-, rfl⟩ := Option.ite_some_none_eq_some.mp hs
    rcases enqueue_cases (s := s) i opts wait id now with ⟨q, -, -, ht⟩ | ⟨q, -, -, -, ht⟩
    · rw [ht]; exact hLoose rfl rfl
    · rw [ht]; exact h.added rfl (by simp [Work.WellFormed]) h.hash
  | claimRegistered i id => cases hs; exact hLoose rfl rfl
  | waitTimedOut i id =>
    obtain ⟨-, rfl⟩ := Option.ite_some_none_eq_some.mp hs
    exact hLoose rfl rfl
  | pushed k =>
    obtain ⟨i, job, first, hItem, rfl⟩ := pushed_inv hs
    exact h.turn (i := i) (u := []) rfl (by simp) h.hash
  | claim i now leaseToken =>
    obtain ⟨job, rest, -, ⟨-, rfl⟩ | ⟨-, -, raw, duration, hRaw, -, rfl⟩⟩ := claim_inv hs
    · exact hLoose rfl rfl
    · refine h.added rfl ?_ fun id found hFound => ?_
      · intro item hItem
        rw [List.mem_singleton.mp hItem]
        exact ⟨hRaw, by simp, by simp⟩
      · rw [OrderedMap.get_set] at hFound
        split at hFound
        · rename_i hid
          cases hFound
          rw [hRaw, hid]
        · exact h.hash id found hFound
  | start k =>
    obtain ⟨i, task, hItem, -, rfl | rfl⟩ := start_inv hs
    · obtain ⟨hRaw, hRenewal, -⟩ := h.of_item hItem
      exact h.turn rfl (by simpa [Work.WellFormed] using ⟨hRaw, hRenewal⟩) h.hash
    · obtain ⟨hRaw, hRenewal, -⟩ := h.of_item hItem
      refine h.turn (i := i) rfl (fun w hw => ?_) h.hash
      rw [List.mem_singleton.mp hw]
      exact ⟨hRaw, hRenewal, fun _ _ _ hp => by cases hp; exact hRaw⟩
  | renewSent k now =>
    obtain ⟨i, task, next, hItem, -, -, hNext, -, rfl⟩ := renewSent_inv hs
    obtain ⟨hRaw, -, hPhase⟩ := h.of_item hItem
    refine h.turn (i := i) rfl (fun w hw => ?_) h.hash
    rw [List.mem_singleton.mp hw]
    exact ⟨hRaw, fun _ hr => by cases hr; exact ⟨hRaw, hNext⟩, hPhase⟩
  | renewRun k =>
    obtain ⟨i, task, expected, next, hItem, hRenewal, reply, hReply, rfl⟩ := renewRun_inv hs
    obtain ⟨hRaw, hRecords, hPhase⟩ := h.of_item hItem
    obtain ⟨hExpected, hNext⟩ := hRecords _ hRenewal
    refine h.turn (i := i) rfl (fun w hw => ?_) fun id found hFound => ?_
    · rw [List.mem_singleton.mp hw]
      exact ⟨hRaw, fun _ hr => by cases hr; exact ⟨hExpected, hNext⟩, hPhase⟩
    · simp only [hReply, compareAndSetHash] at hFound
      split at hFound
      · rw [OrderedMap.get_set] at hFound
        split at hFound
        · rename_i hid
          cases hFound
          rw [hNext, hid]
        · exact h.hash id found hFound
      · exact h.hash id found hFound
  | renewReplied k =>
    obtain ⟨i, task, expected, next, ok, hItem, hRenewal, raw, renewing, hWhich, rfl⟩ :=
      renewReplied_inv hs
    obtain ⟨hRaw, hRecords, hPhase⟩ := h.of_item hItem
    refine h.turn (i := i) rfl (fun w hw => ?_) h.hash
    rw [List.mem_singleton.mp hw]
    refine ⟨?_, by simp, hPhase⟩
    rcases hWhich with rfl | rfl
    · exact (hRecords _ hRenewal).2
    · exact hRaw
  | handlerSettled k outcome =>
    obtain ⟨i, task, hItem, -, rfl⟩ := handlerSettled_inv hs
    obtain ⟨hRaw, hRecords, -⟩ := h.of_item hItem
    refine h.turn (i := i) rfl (fun w hw => ?_) h.hash
    rw [List.mem_singleton.mp hw]
    exact ⟨hRaw, hRecords, fun _ _ _ hp => by cases hp; exact hRaw⟩
  | released k =>
    obtain ⟨i, task, verdict, expected, hItem, hPhase, reply, hReply, rfl⟩ := released_inv hs
    obtain ⟨hRaw, hRecords, hExpected⟩ := h.of_item hItem
    refine h.turn (i := i) rfl (fun w hw => ?_) fun id found hFound => ?_
    · rw [List.mem_singleton.mp hw]
      exact ⟨hRaw, hRecords, fun _ _ _ hp => by cases hp; exact hExpected _ _ _ hPhase⟩
    · simp only [hReply, compareAndDeleteHash] at hFound
      split at hFound
      · exact h.hash id found (get_of_delete hFound)
      · exact h.hash id found hFound
  | concluded k now =>
    obtain ⟨i, task, verdict, expected, ok, -, -, hCase⟩ := concluded_inv hs
    rcases hCase with ⟨result, -, rfl⟩ | ⟨-, q, err, -, -, rfl⟩ | ⟨err, -, -, q, -, -, rfl⟩
    · exact h.turn (i := i) (u := []) rfl (by simp) h.hash
    · exact h.turn (i := i) (u := []) rfl (by simp) h.hash
    · exact h.turn (i := i) rfl (by simp [Work.WellFormed]) h.hash
  | retryElapsed k now =>
    obtain ⟨i, job, err, -, rfl | rfl⟩ := retryElapsed_inv hs
    · exact h.turn (i := i) (u := []) rfl (by simp) h.hash
    · exact h.turn (i := i) rfl (by simp [Work.WellFormed]) h.hash
  | reclaimScan i now =>
    obtain ⟨items, hItems, rfl⟩ := reclaimScan_inv hs
    refine h.added rfl (fun item hItem => ?_) h.hash
    obtain ⟨id, raw, rfl, hGet⟩ := hItems item hItem
    exact h.hash id raw hGet
  | reclaimRun k =>
    obtain ⟨i, gone, raw, -, ⟨-, rfl⟩ | ⟨-, rfl⟩⟩ := reclaimRun_inv hs
    · exact h.turn (i := i) rfl (by simp [Work.WellFormed])
        fun id found hFound => h.hash id found (get_of_delete hFound)
    · exact h.turn (i := i) (u := []) rfl (by simp) h.hash
  | reclaimContinues k now =>
    obtain ⟨i, job, q, -, -, -, ⟨-, rfl⟩ | ⟨-, rfl⟩⟩ := reclaimContinues_inv hs
    · exact h.turn (i := i) rfl (by simp [Work.WellFormed]) h.hash
    · exact h.turn (i := i) (u := []) rfl (by simp) h.hash
  | requeueElapsed k now =>
    obtain ⟨i, job, err, -, rfl | rfl⟩ := requeueElapsed_inv hs
    · exact h.turn (i := i) (u := []) rfl (by simp) h.hash
    · exact h.turn (i := i) rfl (by simp [Work.WellFormed]) h.hash
  | restart i concurrency =>
    cases hs
    exact ⟨h.hash, fun item hItem => h.items item (List.mem_filter.mp hItem).1⟩
  | closeCalled i => cases hs; exact hLoose rfl rfl
  | closeReturned i rejectWaiters => cases hs; exact hLoose rfl rfl

theorem shape_reach {p : RedisSystem → RedisLabel → Prop}
    (h : LabelledSystem.Reach step p Start s) : Shape s := by
  refine h.invariant ?_ fun s l t hInv _ hs => shape_step s l t hInv hs
  rintro _ ⟨c, v, rfl⟩
  exact ⟨fun _ _ hn => (by cases hn), fun _ hn => (by cases hn)⟩

def startable (id : JobId) (item : Item) : Nat :=
  match item.work with
  | .task task => if task.phase = .claimed ∧ task.job.id = id then 1 else 0
  | _ => 0

def StartsCovered (s : RedisSystem) : Prop :=
  ∀ id, s.log.count (.started id) + weight (startable id) s.bag ≤ s.log.count (.claimed id)

theorem StartsCovered.turn (h : StartsCovered s) {k i : Nat} {w : Work} {u : List Work}
    {l : List Event} (hItem : s.bag[k]? = some ⟨i, w⟩)
    (hBag : t.bag = serve s.bag k (u.map (Item.mk i))) (hLog : t.log = l ++ s.log)
    (hClaimed : ∀ id, .claimed id ∉ l)
    (hCost : ∀ id, weight (startable id) (u.map (Item.mk i)) + l.count (.started id) ≤
      startable id ⟨i, w⟩) : StartsCovered t := by
  intro id
  have hs := h id
  have hServe := weight_serve (startable id) (u.map (Item.mk i)) hItem
  have hCost := hCost id
  rw [hLog, hBag, List.count_append, List.count_append, List.count_eq_zero.mpr (hClaimed id)]
  omega

theorem StartsCovered.added (h : StartsCovered s) {u : List Item}
    (hBag : t.bag = s.bag ++ u) (hLog : t.log = s.log)
    (hItems : ∀ item ∈ u, ∀ id, startable id item = 0) : StartsCovered t := by
  intro id
  have hNone := (weight_eq_zero_iff (startable id) u).mpr fun item hm => hItems item hm id
  rw [hLog, hBag, weight_append, hNone]
  exact h id

theorem starts_step (s : RedisSystem) (l : RedisLabel) (t : RedisSystem) (h : StartsCovered s)
    (hs : step s l = some t) : StartsCovered t := by
  have hLoose : ∀ {t' : RedisSystem}, t'.bag = s.bag → t'.log = s.log → StartsCovered t' :=
    fun hb hl => h.added (u := []) (hb.trans (List.append_nil _).symm) hl (by simp)
  cases l with
  | on i type => cases hs; exact hLoose rfl rfl
  | enqueue i opts wait id now =>
    obtain ⟨-, rfl⟩ := Option.ite_some_none_eq_some.mp hs
    rcases enqueue_cases (s := s) i opts wait id now with ⟨q, -, -, ht⟩ | ⟨q, -, -, -, ht⟩
    · rw [ht]; exact hLoose rfl rfl
    · rw [ht]; exact h.added rfl rfl (by simp [startable])
  | claimRegistered i id => cases hs; exact hLoose rfl rfl
  | waitTimedOut i id =>
    obtain ⟨-, rfl⟩ := Option.ite_some_none_eq_some.mp hs
    exact hLoose rfl rfl
  | pushed k =>
    obtain ⟨i, job, first, hItem, rfl⟩ := pushed_inv hs
    exact h.turn (u := []) (l := []) hItem rfl rfl (by simp) fun _ => Nat.zero_le _
  | claim i now leaseToken =>
    obtain ⟨job, rest, -, ⟨-, rfl⟩ | ⟨-, -, raw, duration, -, -, rfl⟩⟩ := claim_inv hs
    · exact hLoose rfl rfl
    · intro id
      have hs := h id
      change List.count _ (Event.claimed job.id :: s.log) + weight _ (s.bag ++ [_]) ≤
        List.count _ (Event.claimed job.id :: s.log)
      rw [weight_append, weight_cons, weight_nil, List.count_cons, List.count_cons]
      by_cases hid : job.id = id
      · simp [startable, hid]
        omega
      · simp [startable, hid]
        omega
  | start k =>
    obtain ⟨i, task, hItem, hPhase, rfl | rfl⟩ := start_inv hs
    · refine h.turn (l := [.started task.job.id]) hItem rfl rfl (by simp) fun id => ?_
      by_cases hid : task.job.id = id <;> simp [startable, hPhase, hid]
    · exact h.turn (l := []) hItem rfl rfl (by simp) fun id => by simp [startable]
  | renewSent k now =>
    obtain ⟨i, task, next, hItem, hPhase, -, -, -, rfl⟩ := renewSent_inv hs
    exact h.turn (l := []) hItem rfl rfl (by simp) fun id => by simp [startable]
  | renewRun k =>
    obtain ⟨i, task, expected, next, hItem, -, reply, -, rfl⟩ := renewRun_inv hs
    exact h.turn (l := []) hItem rfl rfl (by simp) fun id => by simp [startable]
  | renewReplied k =>
    obtain ⟨i, task, expected, next, ok, hItem, -, raw, renewing, -, rfl⟩ := renewReplied_inv hs
    exact h.turn (l := []) hItem rfl rfl (by simp) fun id => by simp [startable]
  | handlerSettled k outcome =>
    obtain ⟨i, task, hItem, hPhase, rfl⟩ := handlerSettled_inv hs
    refine h.turn hItem rfl rfl ?_ fun id => ?_
    · intro id
      split <;> simp
    · split <;> simp [startable]
  | released k =>
    obtain ⟨i, task, verdict, expected, hItem, hPhase, reply, -, rfl⟩ := released_inv hs
    refine h.turn hItem rfl rfl ?_ fun id => ?_
    · intro id
      split <;> simp
    · split <;> simp [startable]
  | concluded k now =>
    obtain ⟨i, task, verdict, expected, ok, hItem, -, hCase⟩ := concluded_inv hs
    rcases hCase with ⟨result, -, rfl⟩ | ⟨-, q, err, -, -, rfl⟩ | ⟨err, -, -, q, -, -, rfl⟩
    · exact h.turn (u := []) (l := [.completed task.job.id]) hItem rfl rfl (by simp)
        fun id => by simp
    · exact h.turn (u := []) (l := [.failed task.job.id]) hItem rfl rfl (by simp)
        fun id => by simp
    · exact h.turn (l := []) hItem rfl rfl (by simp) fun id => by simp [startable]
  | retryElapsed k now =>
    obtain ⟨i, job, err, hItem, rfl | rfl⟩ := retryElapsed_inv hs
    · exact h.turn (u := []) (l := [.failed job.id]) hItem rfl rfl (by simp)
        fun id => by simp
    · exact h.turn (l := []) hItem rfl rfl (by simp) fun id => by simp [startable]
  | reclaimScan i now =>
    obtain ⟨items, hItems, rfl⟩ := reclaimScan_inv hs
    refine h.added rfl rfl fun item hItem id => ?_
    obtain ⟨gone, raw, rfl, -⟩ := hItems item hItem
    rfl
  | reclaimRun k =>
    obtain ⟨i, gone, raw, hItem, ⟨-, rfl⟩ | ⟨-, rfl⟩⟩ := reclaimRun_inv hs
    · refine h.turn hItem rfl rfl ?_ fun id => ?_
      · intro id
        split <;> simp
      · split <;> simp [startable]
    · exact h.turn (u := []) (l := []) hItem rfl rfl (by simp) fun _ => Nat.zero_le _
  | reclaimContinues k now =>
    obtain ⟨i, job, q, hItem, -, -, ⟨-, rfl⟩ | ⟨-, rfl⟩⟩ := reclaimContinues_inv hs
    · exact h.turn (l := []) hItem rfl rfl (by simp) fun id => by simp [startable]
    · exact h.turn (u := []) (l := [.failed job.id]) hItem rfl rfl (by simp)
        fun id => by simp
  | requeueElapsed k now =>
    obtain ⟨i, job, err, hItem, rfl | rfl⟩ := requeueElapsed_inv hs
    · exact h.turn (u := []) (l := [.failed job.id]) hItem rfl rfl (by simp)
        fun id => by simp
    · exact h.turn (l := []) hItem rfl rfl (by simp) fun id => by simp [startable]
  | restart i concurrency =>
    cases hs
    intro id
    have hLe := weight_filter_le (startable id) (fun item => decide (item.worker ≠ i)) s.bag
    exact Nat.le_trans (Nat.add_le_add_left hLe _) (h id)
  | closeCalled i => cases hs; exact hLoose rfl rfl
  | closeReturned i rejectWaiters => cases hs; exact hLoose rfl rfl

theorem starts_reach {ok : RedisSystem → RedisLabel → Prop}
    (h : LabelledSystem.Reach step ok Start s) : StartsCovered s := by
  refine h.invariant ?_ fun s l t hInv _ hs => starts_step s l t hInv hs
  rintro _ ⟨c, v, rfl⟩ id
  exact Nat.le_refl 0

end RedisSystem

end OrchestraAI.Queue
