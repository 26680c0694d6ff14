import OrchestraAI.Core.Registry
import OrchestraAI.Library.LabelledSystem

/-! # What the run registry keeps

The maps stay sound under every operation. A run is live while its status is not
terminal or a retry of it is being decided; only the refusal of such a retry can
leave a terminal run among the live ones.
-/

namespace OrchestraAI.Core

open OrchestraAI.Recovery LabelledSystem

namespace RunMaps

variable {m : RunMaps} {id j : RunId} {retained : Nat}

/-- Every created run is live, in the history or evicted, and in one of these only; the
history and its order agree. -/
structure Sound (retained : Nat) (m : RunMaps) : Prop where
  control : ∀ id, id ∈ m.runControl.keys ↔ id ∈ m.activeRuns.keys
  apart : ∀ id ∈ m.activeRuns.keys, id ∉ m.terminalRuns.keys
  order : m.terminalOrder = m.terminalRuns.keys
  bounded : m.terminalOrder.length ≤ retained
  gone : ∀ id ∈ m.evicted, id ∉ m.activeRuns.keys ∧ id ∉ m.terminalRuns.keys
  placed : ∀ id, id ∈ m.created ↔
    id ∈ m.activeRuns.keys ∨ id ∈ m.terminalRuns.keys ∨ id ∈ m.evicted

theorem Sound.register (h : m.Sound retained) (hNew : id ∉ m.created) :
    (m.register id).Sound retained where
  control j := by
    simp only [RunMaps.register, OrderedMap.mem_keys_set, h.control j]
  apart j hj := by
    rcases (OrderedMap.mem_keys_set ..).mp hj with rfl | hj
    · exact fun hTerminal => hNew ((h.placed j).mpr (.inr (.inl hTerminal)))
    · exact h.apart j hj
  order := h.order
  bounded := h.bounded
  gone j hj := by
    refine ⟨fun hActive => ?_, (h.gone j hj).2⟩
    rcases (OrderedMap.mem_keys_set ..).mp hActive with rfl | hActive
    · exact hNew ((h.placed j).mpr (.inr (.inr hj)))
    · exact (h.gone j hj).1 hActive
  placed j := by
    simp only [RunMaps.register, OrderedMap.mem_keys_set, List.mem_append, List.mem_singleton,
      h.placed j]
    tauto

theorem Sound.resurrect (h : m.Sound retained) (hTerminal : id ∈ m.terminalRuns.keys) :
    (m.resurrect id).Sound retained where
  control j := by
    simp only [RunMaps.resurrect, OrderedMap.mem_keys_set, h.control j]
  apart j hj := by
    simp only [RunMaps.resurrect, OrderedMap.mem_keys_set] at hj
    simp only [RunMaps.resurrect, OrderedMap.mem_keys_delete, not_and]
    intro hne
    exact h.apart j (hj.resolve_left hne)
  order := by
    simp only [RunMaps.resurrect, OrderedMap.keys_delete, h.order]
  bounded := (List.length_filter_le _ _).trans h.bounded
  gone j hj := by
    obtain ⟨hActive, hTerm⟩ := h.gone j hj
    simp only [RunMaps.resurrect, OrderedMap.mem_keys_set, OrderedMap.mem_keys_delete, not_or,
      not_and]
    refine ⟨⟨?_, hActive⟩, fun _ => hTerm⟩
    rintro rfl
    exact hTerm hTerminal
  placed j := by
    simp only [RunMaps.resurrect, OrderedMap.mem_keys_set, OrderedMap.mem_keys_delete, h.placed j]
    by_cases hj : j = id
    · subst hj
      simp only [hTerminal, ne_eq, not_true_eq_false, true_or, or_true]
    · simp only [hj, ne_eq, not_false_eq_true, true_and, false_or]

/-- What is left of a history and what the eviction took from it. -/
structure Evicted (order : List RunId) (history : OrderedMap RunId TaskStatus)
    (evicted : List RunId) (kept : List RunId × OrderedMap RunId TaskStatus × List RunId) :
    Prop where
  suffix : kept.1 <:+ order
  keys : kept.2.1.keys = kept.1
  get : ∀ j ∈ kept.1, kept.2.1.get j = history.get j
  gone : ∀ j, j ∈ kept.2.2 ↔ j ∈ evicted ∨ (j ∈ order ∧ j ∉ kept.1)

theorem evict_spec (hRetained : 0 < retained) (order : List RunId)
    (history : OrderedMap RunId TaskStatus) (evicted : List RunId) (hKeys : history.keys = order)
    (hLast : order.getLast? = some id) :
    Evicted order history evicted (evict retained id order history evicted) ∧
      (evict retained id order history evicted).1.length ≤ retained ∧
      id ∈ (evict retained id order history evicted).1 := by
  induction order generalizing history evicted with
  | nil => cases hLast
  | cons oldest order ih =>
    have hNodup : (oldest :: order).Nodup := hKeys ▸ history.keys_nodup
    obtain ⟨hOldest, -⟩ := List.nodup_cons.mp hNodup
    unfold evict
    split
    · rename_i hLong
      have hRest : order.getLast? = some id := by
        cases order with
        | nil =>
          simp only [List.length_cons, List.length_nil] at hLong
          omega
        | cons next order => simpa using hLast
      have hMem : id ∈ order := List.mem_of_getLast? hRest
      have hHas : history.has oldest = true ∧ oldest ≠ id := by
        refine ⟨(history.has_iff oldest).mpr (hKeys ▸ List.mem_cons_self), ?_⟩
        rintro rfl
        exact hOldest hMem
      rw [if_pos hHas]
      have hDeleted : (history.delete oldest).keys = order := by
        rw [OrderedMap.keys_delete, hKeys, List.filter_cons_of_neg (by simp)]
        exact List.filter_eq_self.mpr fun j hj => by
          simpa using fun he : j = oldest => hOldest (he ▸ hj)
      obtain ⟨hEvicted, hLength, hKept⟩ := ih (history.delete oldest) (oldest :: evicted) hDeleted
        hRest
      refine ⟨⟨hEvicted.suffix.trans (List.suffix_cons ..), hEvicted.keys, ?_, ?_⟩, hLength, hKept⟩
      · intro j hj
        have hne : j ≠ oldest := fun he => hOldest (he ▸ hEvicted.suffix.subset hj)
        rw [hEvicted.get j hj, OrderedMap.get_delete_ne _ hne]
      · intro j
        have hKeptOldest : oldest ∉ (evict retained id order (history.delete oldest)
            (oldest :: evicted)).1 := fun hj => hOldest (hEvicted.suffix.subset hj)
        rw [hEvicted.gone j, List.mem_cons, List.mem_cons]
        constructor
        · rintro ((rfl | hj) | ⟨hj, hKept⟩)
          · exact .inr ⟨.inl rfl, hKeptOldest⟩
          · exact .inl hj
          · exact .inr ⟨.inr hj, hKept⟩
        · rintro (hj | ⟨rfl | hj, hKept⟩)
          · exact .inl (.inr hj)
          · exact .inl (.inl rfl)
          · exact .inr ⟨hj, hKept⟩
    · rename_i hShort
      refine ⟨⟨List.suffix_rfl, hKeys, fun _ _ => rfl, fun j => ?_⟩, Nat.le_of_not_lt hShort,
        List.mem_of_getLast? hLast⟩
      exact ⟨.inl, fun h => h.resolve_right fun hj => hj.2 hj.1⟩

theorem retire_evicted (h : m.Sound retained) (hRetained : 0 < retained)
    (hActive : id ∈ m.activeRuns.keys) (status : TaskStatus) :
    let t := m.retire retained id status
    Evicted (m.terminalOrder ++ [id]) (m.terminalRuns.set id status) m.evicted
        (t.terminalOrder, t.terminalRuns, t.evicted) ∧
      t.terminalOrder.length ≤ retained ∧ id ∈ t.terminalOrder := by
  refine evict_spec hRetained _ _ _ ?_ List.getLast?_concat
  rw [OrderedMap.keys_set_new _ (h.apart id hActive), h.order]

theorem retire_get {status last : TaskStatus} (h : m.Sound retained) (hRetained : 0 < retained)
    (hActive : id ∈ m.activeRuns.keys)
    (hGet : (m.retire retained id status).terminalRuns.get j = some last) :
    (m.terminalRuns.set id status).get j = some last := by
  obtain ⟨hEvicted, -, -⟩ := retire_evicted h hRetained hActive status
  have hKeys : (m.retire retained id status).terminalRuns.keys =
      (m.retire retained id status).terminalOrder := hEvicted.keys
  have hIn : j ∈ (m.retire retained id status).terminalOrder := by
    rw [← hKeys, OrderedMap.mem_keys_iff]
    exact ⟨last, hGet⟩
  exact (hEvicted.get j hIn).symm.trans hGet

theorem Sound.retire (h : m.Sound retained) (hRetained : 0 < retained)
    (hActive : id ∈ m.activeRuns.keys) (status : TaskStatus) :
    (m.retire retained id status).Sound retained := by
  obtain ⟨hEvicted, hLength, hKept⟩ := retire_evicted h hRetained hActive status
  have hOrder (j : RunId) (hj : j ∈ (m.retire retained id status).terminalOrder) :
      j ∈ m.terminalRuns.keys ∨ j = id := by
    have hMem := hEvicted.suffix.subset hj
    rwa [h.order, List.mem_append, List.mem_singleton] at hMem
  have hActives (j : RunId) : j ∈ (m.retire retained id status).activeRuns.keys ↔
      j ≠ id ∧ j ∈ m.activeRuns.keys := OrderedMap.mem_keys_delete ..
  have hGone (j : RunId) : j ∈ (m.retire retained id status).evicted ↔
      j ∈ m.evicted ∨ ((j ∈ m.terminalRuns.keys ∨ j = id) ∧
        j ∉ (m.retire retained id status).terminalOrder) := by
    rw [hEvicted.gone j, List.mem_append, List.mem_singleton, h.order]
  have hKeys : (m.retire retained id status).terminalRuns.keys =
      (m.retire retained id status).terminalOrder := hEvicted.keys
  constructor
  case control =>
    intro j
    change j ∈ (m.runControl.delete id).keys ↔ j ∈ (m.activeRuns.delete id).keys
    rw [OrderedMap.mem_keys_delete, OrderedMap.mem_keys_delete, h.control]
  case apart =>
    intro j hj hTerminal
    obtain ⟨hne, hj⟩ := (hActives j).mp hj
    rw [hKeys] at hTerminal
    rcases hOrder j hTerminal with hTerminal | rfl
    · exact h.apart j hj hTerminal
    · exact hne rfl
  case order => exact hKeys.symm
  case bounded => exact hLength
  case gone =>
    intro j hj
    rw [hActives, hKeys]
    rcases (hGone j).mp hj with hj | ⟨hj, hOut⟩
    · obtain ⟨hNotActive, hNotTerminal⟩ := h.gone j hj
      refine ⟨fun hActive => hNotActive hActive.2, fun hOut => ?_⟩
      rcases hOrder j hOut with hTerminal | rfl
      · exact hNotTerminal hTerminal
      · exact hNotActive hActive
    · refine ⟨fun hStill => ?_, hOut⟩
      rcases hj with hj | rfl
      · exact h.apart j hStill.2 hj
      · exact hStill.1 rfl
  case placed =>
    intro j
    change j ∈ m.created ↔ _
    rw [h.placed, hActives, hKeys, hGone]
    by_cases hj : j = id
    · subst hj
      simp only [hActive, hKept, true_or, or_true]
    · have hIn : j ∈ (m.retire retained id status).terminalOrder → j ∈ m.terminalRuns.keys :=
        fun hIn => (hOrder j hIn).resolve_right hj
      simp only [hj, ne_eq, not_false_eq_true, true_and, or_false]
      tauto

end RunMaps

namespace Registry

variable {c : Config} {s t : Registry} {id : RunId} {r : Run}

def RetryPending (s : Registry) (id : RunId) : Prop := ∃ task ∈ s.tasks, task.recovers id = true

/-- The registry invariant; of the run `x`, in the middle of an operation, it is left open
whether it is live. -/
structure Inv (c : Config) (x : Option RunId) (s : Registry) : Prop where
  maps : s.toRunMaps.Sound c.retained
  coherent : ∀ id ∈ s.created, (s.runs id).Coherent
  ended : ∀ id status, s.terminalRuns.get id = some status →
    (s.runs id).status.terminal = true →
      (s.runs id).status = status ∧ (s.runs id).running = false
  live : ∀ id ∈ s.activeRuns.keys, some id ≠ x → (s.runs id).status.terminal = true →
    s.RetryPending id

theorem retained_pos (c : Config) : 0 < c.retained := by
  unfold Config.retained
  split <;> omega

theorem Inv.opened (h : Inv c none s) (id : RunId) : Inv c (some id) s :=
  ⟨h.maps, h.coherent, h.ended, fun j hj _ => h.live j hj (by simp)⟩

theorem Inv.closed (h : Inv c (some id) s)
    (hLive : id ∈ s.activeRuns.keys → (s.runs id).status.terminal = true → s.RetryPending id) :
    Inv c none s := by
  refine ⟨h.maps, h.coherent, h.ended, fun j hj _ hTerminal => ?_⟩
  by_cases hid : j = id
  · subst hid
    exact hLive hj hTerminal
  · exact h.live j hj (by simpa using hid) hTerminal

theorem write_runs (s : Registry) (id j : RunId) (r : Run) :
    (s.write id r).runs j = if j = id then r else s.runs j := by
  by_cases h : j = id
  · subst h; simp [write]
  · simp [write, h]

@[simp] theorem write_runs_self (s : Registry) (id : RunId) (r : Run) :
    (s.write id r).runs id = r := by rw [write_runs, if_pos rfl]

theorem Inv.write (h : Inv c (some id) s) (hCoherent : id ∈ s.created → r.Coherent)
    (hEnded : ∀ status, s.terminalRuns.get id = some status → r.status.terminal = true →
      r.status = status ∧ r.running = false) : Inv c (some id) (s.write id r) where
  maps := h.maps
  coherent j hj := by
    rw [write_runs]
    split
    · rename_i hid
      exact hCoherent (hid ▸ hj)
    · exact h.coherent j hj
  ended j status hGet := by
    rw [write_runs]
    split
    · rename_i hid
      exact hEnded status (hid ▸ hGet)
    · exact h.ended j status hGet
  live j hj hOther hTerminal := by
    have hid : j ≠ id := fun he => hOther (congrArg some he)
    rw [write_runs, if_neg hid] at hTerminal
    exact h.live j hj hOther hTerminal

theorem Inv.write_active (h : Inv c (some id) s) (hActive : id ∈ s.activeRuns.keys)
    (hCoherent : r.Coherent) : Inv c (some id) (s.write id r) := by
  refine h.write (fun _ => hCoherent) fun status hGet => ?_
  exact absurd ((OrderedMap.mem_keys_iff ..).mpr ⟨status, hGet⟩) (h.maps.apart id hActive)

theorem Inv.write_nonterminal (h : Inv c (some id) s) (hStatus : r.status.terminal = false) :
    Inv c none (s.write id r) := by
  have hWritten : Inv c (some id) (s.write id r) := by
    refine h.write (fun _ hTerminal => ?_) fun _ _ hTerminal => ?_ <;>
      rw [hStatus] at hTerminal <;> cases hTerminal
  refine hWritten.closed fun _ hTerminal => ?_
  rw [write_runs_self, hStatus] at hTerminal
  cases hTerminal

structure SameStatus (r t : Run) : Prop where
  status : t.status = r.status
  machine : t.machine = r.machine
  running : t.running = true → r.running = true

theorem Inv.touch_open (h : Inv c (some id) s) (hSame : SameStatus (s.runs id) r) :
    Inv c (some id) (s.write id r) := by
  refine h.write (fun hid => ?_) fun status hGet hTerminal => ?_
  · unfold Run.Coherent
    rw [hSame.status, hSame.machine]
    exact h.coherent id hid
  · rw [hSame.status] at hTerminal
    obtain ⟨hStatus, hRunning⟩ := h.ended id status hGet hTerminal
    exact ⟨hSame.status.trans hStatus,
      Bool.eq_false_iff.mpr fun hr => by rw [hSame.running hr] at hRunning; cases hRunning⟩

theorem Inv.touch (h : Inv c none s) (hSame : SameStatus (s.runs id) r) :
    Inv c none (s.write id r) := by
  refine ((h.opened id).touch_open hSame).closed fun hActive hTerminal => ?_
  rw [write_runs_self, hSame.status] at hTerminal
  exact h.live id hActive (by simp) hTerminal

theorem Inv.spawn {x : Option RunId} (h : Inv c x s) (task : Task) : Inv c x (s.spawn task) where
  maps := h.maps
  coherent := h.coherent
  ended := h.ended
  live j hj hOther hTerminal := by
    obtain ⟨found, hMem, hRecovers⟩ := h.live j hj hOther hTerminal
    exact ⟨found, List.mem_append_left _ hMem, hRecovers⟩

theorem RetryPending.serve {k : Nat} {task : Task} {ts : List Task} (h : s.RetryPending id)
    (hk : s.tasks[k]? = some task) (hTask : task.recovers id = false) :
    (s.serve k ts).RetryPending id := by
  obtain ⟨found, hMem, hRecovers⟩ := h
  rcases WorkBag.mem_or_eq (u := ts) hk hMem with rfl | hMem
  · rw [hTask] at hRecovers
    cases hRecovers
  · exact ⟨found, hMem, hRecovers⟩

theorem Inv.serve {x : Option RunId} {k : Nat} {task : Task} (h : Inv c x s)
    (hk : s.tasks[k]? = some task) (hTask : ∀ j, task.recovers j = false) (ts : List Task) :
    Inv c x (s.serve k ts) :=
  ⟨h.maps, h.coherent, h.ended, fun j hj hOther hTerminal =>
    (h.live j hj hOther hTerminal).serve hk (hTask j)⟩

theorem Inv.serve_retry {k : Nat} {recovery : Except String RecoveryResult} (h : Inv c none s)
    (hk : s.tasks[k]? = some (.recovering id recovery)) (ts : List Task) :
    Inv c (some id) (s.serve k ts) := by
  refine ⟨h.maps, h.coherent, h.ended, fun j hj hOther hTerminal => ?_⟩
  refine (h.live j hj (by simp) hTerminal).serve hk (decide_eq_false ?_)
  rintro rfl
  exact hOther rfl

theorem Inv.created_of_active {x : Option RunId} (h : Inv c x s)
    (hActive : id ∈ s.activeRuns.keys) : id ∈ s.created := (h.maps.placed id).mpr (.inl hActive)

theorem Inv.created_of_control {x : Option RunId} (h : Inv c x s) (hControl : s.hasControl id) :
    id ∈ s.created := by
  rw [RunMaps.hasControl, Bool.or_eq_true, OrderedMap.has_iff, OrderedMap.has_iff,
    h.maps.control] at hControl
  exact (h.maps.placed id).mpr (hControl.elim .inl fun hTerminal => .inr (.inl hTerminal))

theorem Inv.register (h : Inv c none s) (hNew : id ∉ s.created)
    (hStatus : r.status.terminal = false) : Inv c none (s.register id r) := by
  have hWritten := (h.opened id).write_nonterminal hStatus
  refine ⟨h.maps.register hNew, fun j hj => ?_, hWritten.ended, fun j hj _ hTerminal => ?_⟩
  · rcases List.mem_append.mp hj with hj | hj
    · exact hWritten.coherent j hj
    · obtain rfl := List.mem_singleton.mp hj
      change ((s.write j r).runs j).Coherent
      rw [write_runs_self]
      intro hTerminal
      rw [hStatus] at hTerminal
      cases hTerminal
  · rcases (OrderedMap.mem_keys_set ..).mp hj with rfl | hj
    · change ((s.write j r).runs j).status.terminal = true at hTerminal
      rw [write_runs_self, hStatus] at hTerminal
      cases hTerminal
    · exact hWritten.live j hj (by simp) hTerminal

theorem Inv.retireRun (h : Inv c (some id) s) : Inv c none (s.retireRun c id) := by
  unfold Registry.retireRun
  split
  · rename_i hLive
    rw [Bool.and_eq_true, OrderedMap.has_iff] at hLive
    have hActive := hLive.1
    refine ⟨h.maps.retire (retained_pos c) hActive _, fun j hj => ?_,
      fun j status hGet hTerminal => ?_, fun j hj _ hTerminal => ?_⟩
    · change ((s.write id (s.runs id).retire).runs j).Coherent
      rw [write_runs]
      split
      · exact h.coherent id (h.created_of_active hActive)
      · exact h.coherent j hj
    · have hOld := RunMaps.retire_get h.maps (retained_pos c) hActive hGet
      rw [OrderedMap.get_set] at hOld
      change ((s.write id (s.runs id).retire).runs j).status.terminal = true at hTerminal
      change ((s.write id (s.runs id).retire).runs j).status = status ∧
        ((s.write id (s.runs id).retire).runs j).running = false
      rw [write_runs] at hTerminal ⊢
      split at hOld
      · rename_i hid
        rw [if_pos hid]
        exact ⟨Option.some.inj hOld, rfl⟩
      · rename_i hid
        rw [if_neg hid] at hTerminal ⊢
        exact h.ended j status hOld hTerminal
    · obtain ⟨hid, hj⟩ := (OrderedMap.mem_keys_delete ..).mp hj
      change ((s.write id (s.runs id).retire).runs j).status.terminal = true at hTerminal
      rw [write_runs, if_neg hid] at hTerminal
      exact h.live j hj (by simpa using hid) hTerminal
  · rename_i hGone
    refine h.closed fun hActive => absurd ?_ hGone
    rw [Bool.and_eq_true, OrderedMap.has_iff, OrderedMap.has_iff, h.maps.control]
    exact ⟨hActive, hActive⟩

theorem active_of_endsNothing (hEnds : s.endsNothing id = false) :
    id ∈ s.activeRuns.keys ∧ (s.runs id).status.terminal = false := by
  rw [endsNothing, Bool.or_eq_false_iff, Bool.not_eq_false'] at hEnds
  exact ⟨(OrderedMap.has_iff ..).mp hEnds.2, hEnds.1⟩

theorem Inv.endRun (h : Inv c none s) (hEnds : s.endsNothing id = false)
    (hCoherent : (s.runs id).Coherent → r.Coherent) :
    Inv c none ((s.write id r).retireRun c id) := by
  have hActive := (active_of_endsNothing hEnds).1
  exact ((h.opened id).write_active hActive
    (hCoherent (h.coherent id (h.created_of_active hActive)))).retireRun

theorem Inv.completeRun {summary : Option String} (h : Inv c none s)
    (hs : s.completeRun c id summary = some t) : Inv c none t := by
  unfold Registry.completeRun at hs
  split at hs
  · exact Option.some.inj hs ▸ h
  · rename_i hEnds
    obtain ⟨r, hr, rfl⟩ := Option.map_eq_some_iff.mp hs
    exact h.endRun (Bool.eq_false_iff.mpr hEnds) fun hCoherent => hCoherent.complete hr

theorem Inv.cancelledRun (h : Inv c none s) (reason : String) :
    Inv c none (s.cancelledRun c id reason) := by
  unfold Registry.cancelledRun
  split
  · exact h
  · rename_i hEnds
    exact h.endRun (Bool.eq_false_iff.mpr hEnds) fun hCoherent => hCoherent.cancelled reason

theorem Inv.failRun (h : Inv c none s) (error : RunError) :
    Inv c none (s.failRun c id error) := by
  unfold Registry.failRun
  split
  · exact h
  · rename_i hEnds
    exact h.endRun (Bool.eq_false_iff.mpr hEnds) fun hCoherent => hCoherent.fail error

theorem Inv.startRun (h : Inv c none s) : Inv c none (s.startRun id) := by
  unfold Registry.startRun
  simp only
  split
  · exact h
  · rename_i hOpen
    simp only [Bool.or_eq_true, not_or, Bool.not_eq_true] at hOpen
    have hStarted : Inv c none
        (s.write id { s.runs id with running := true, abort := false }.armDeadline) :=
      (h.opened id).write_nonterminal hOpen.1.2
    exact hStarted.spawn _

theorem Inv.cancelRun (h : Inv c none s) (reason : String) :
    Inv c none (s.cancelRun id reason) := by
  unfold Registry.cancelRun
  simp only
  split
  · exact h
  · have hAborted : Inv c none (s.write id { s.runs id with abort := true }.disarmDeadline) :=
      h.touch ⟨rfl, rfl, fun hr => hr⟩
    exact hAborted.spawn _

end Registry

end OrchestraAI.Core
