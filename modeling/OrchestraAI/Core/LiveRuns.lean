import OrchestraAI.Core.RegistryInvariant

/-! # The registry holds live runs only

Retries and continuations take a run out of the history before it is known
whether they will be accepted. A continuation always reopens the run. A retry
waits for `recover`, and when that refuses, nobody puts the run back.
-/

namespace OrchestraAI.Core.Registry

open OrchestraAI.Recovery LabelledSystem

variable {c : Config} {s t : Registry} {id : RunId} {r : Run}

theorem Inv.resurrect (h : Inv c none s) (hTerminal : id ∈ s.terminalRuns.keys) :
    Inv c (some id) (s.resurrect id) := by
  refine ⟨h.maps.resurrect hTerminal, h.coherent, fun j status hGet => ?_, fun j hj hOther => ?_⟩
  · refine h.ended j status ?_
    change (s.terminalRuns.delete id).get j = some status at hGet
    rw [OrderedMap.get_delete] at hGet
    split at hGet
    · cases hGet
    · exact hGet
  · have hid : j ≠ id := fun he => hOther (congrArg some he)
    exact h.live j (((OrderedMap.mem_keys_set ..).mp hj).resolve_left hid) (by simp)

/-- Both ways of reopening a terminal run leave it with a status that is not terminal. -/
theorem reopened_nonterminal (hr : r.Coherent) {other : Run}
    (hOther : other.status.terminal = false) :
    ((r.transition .retrying).getD other).status.terminal = false := by
  cases h : r.transition .retrying with
  | none => exact hOther
  | some t =>
    rcases Run.transition_spec h with ⟨rfl, hMachine⟩ | rfl
    · refine Bool.eq_false_iff.mpr fun hTerminal => ?_
      have hMachineTerminal := hr hTerminal
      rw [hMachine] at hMachineTerminal
      cases hMachineTerminal
    · rfl

theorem retried_nonterminal (h : Inv c none s) : (s.retried id).status.terminal = false := by
  change (if s.hasControl id then ((s.runs id).transition .retrying).getD
    ((s.runs id).updateStatus .retrying) else (s.runs id).updateStatus .retrying).status.terminal =
      false
  split
  · rename_i hControl
    exact reopened_nonterminal (h.coherent id (h.created_of_control hControl)) rfl
  · rfl

theorem evaluate_keeps (hr : r.machine.terminal = true) (query : Except String RecoveryQuery) :
    (evaluate r query).2.Coherent := by
  unfold evaluate
  split
  · exact fun _ => hr
  · simp only
    split
    · split <;> exact fun _ => hr
    · exact fun _ => hr

/-- A retry is under way, or nothing refuses it before `recover` is asked. -/
theorem Inv.evaluateRetry (h : Inv c (some id) s)
    (hRefusal : id ∈ s.activeRuns.keys → (s.runs id).status.terminal = true →
      s.RetryPending id ∨ ((s.runs id).status = .failed ∧ (s.runs id).running = false ∧
        (s.runs id).budget.isBudgetExceeded = false))
    (query : Except String RecoveryQuery) : Inv c none (s.evaluateRetry id query) := by
  unfold Registry.evaluateRetry
  simp only
  split
  · rename_i hStop
    refine h.closed fun hActive hTerminal => (hRefusal hActive hTerminal).resolve_right ?_
    rintro ⟨hFailed, hRunning, -⟩
    have hControl := (h.maps.control id).mpr hActive
    rw [← OrderedMap.has_iff] at hActive hControl
    simp [hActive, hControl, hFailed, hRunning] at hStop
  · rename_i hGo
    simp only [Bool.or_eq_true, Bool.not_eq_true', not_or, Bool.not_eq_false,
      OrderedMap.has_iff, decide_eq_true_eq, ne_eq, not_not] at hGo
    obtain ⟨⟨⟨hActive, -⟩, hFailed⟩, -⟩ := hGo
    have hTerminal : (s.runs id).status.terminal = true := by rw [hFailed]; rfl
    split
    · rename_i hBudget
      have hSame : SameStatus (s.runs id)
          ((s.runs id).emit (.retryFailed "Cannot retry: budget exhausted" "budget_exceeded")) :=
        ⟨rfl, rfl, fun hr => hr⟩
      refine (h.touch_open hSame).closed fun _ _ => ?_
      refine (hRefusal hActive hTerminal).resolve_right ?_
      rintro ⟨-, -, hEnough⟩
      rw [hBudget] at hEnough
      cases hEnough
    · refine ((h.write_active hActive ?_).spawn _).closed fun _ _ => ?_
      · have hMachine := h.coherent id (h.created_of_active hActive) hTerminal
        have hKeeps := evaluate_keeps
          (r := (s.runs id).emit (.other .executionRecoveryStarted)) hMachine query
        exact hKeeps
      · exact ⟨_, List.mem_append_right _ (List.mem_singleton_self _), decide_eq_true rfl⟩

theorem Inv.retryRun (h : Inv c none s) (query : Except String RecoveryQuery) :
    Inv c none (s.retryRun id query) := by
  unfold Registry.retryRun
  split
  · exact h
  · split
    · exact h
    · rename_i revived hRevived
      unfold Registry.reviveFailed at hRevived
      split at hRevived
      · cases hRevived
        exact (h.opened id).evaluateRetry
          (fun hActive hTerminal => .inl (h.live id hActive (by simp) hTerminal)) query
      · rename_i status hGet
        split at hRevived
        · cases hRevived
        · rename_i hRetryable
          cases hRevived
          simp only [Bool.or_eq_true, decide_eq_true_eq, not_or, ne_eq, not_not,
            Bool.not_eq_true] at hRetryable
          obtain ⟨rfl, hBudget⟩ := hRetryable
          refine (h.resurrect ((OrderedMap.mem_keys_iff ..).mpr ⟨_, hGet⟩)).evaluateRetry
            (fun _ hTerminal => .inr ?_) query
          obtain ⟨hFailed, hRunning⟩ := h.ended id .failed hGet hTerminal
          exact ⟨hFailed, hRunning, hBudget⟩

/-- The retry that is decided next does not leave a terminal run among the live ones. -/
def ReturnsRefused (s : Registry) : Label → Prop
  | .recovers k =>
    match s.tasks[k]? with
    | some (.recovering id recovery) =>
      refusedBy recovery = true →
        ¬ (s.activeRuns.has id = true ∧ (s.runs id).status.terminal = true)
    | _ => True
  | _ => True

instance (s : Registry) (l : Label) : Decidable (s.ReturnsRefused l) := by
  unfold ReturnsRefused
  split
  · split <;> infer_instance
  · infer_instance

theorem clearFlag_same (s : Registry) (id : RunId) (r : Run) :
    SameStatus r (s.clearFlag id r) := by
  unfold clearFlag
  split <;> exact ⟨rfl, rfl, fun hr => hr⟩

theorem Inv.finishRetry {k : Nat} {recovery : Except String RecoveryResult} (h : Inv c none s)
    (hk : s.tasks[k]? = some (.recovering id recovery))
    (hRefused : refusedBy recovery = true →
      ¬ (s.activeRuns.has id = true ∧ (s.runs id).status.terminal = true)) :
    Inv c none (s.finishRetry k id recovery) := by
  unfold Registry.finishRetry
  split
  · rename_i hRefuses
    have hSame := clearFlag_same s id ((s.runs id).emit (.other .executionRecoveryBlocked))
    refine ((h.serve_retry hk []).touch_open ⟨hSame.status, hSame.machine, hSame.running⟩).closed
      fun hActive hTerminal => ?_
    rw [write_runs_self, hSame.status] at hTerminal
    exact absurd ⟨(OrderedMap.has_iff ..).mpr hActive, hTerminal⟩ (hRefused hRefuses)
  · split
    · refine (h.serve_retry hk _).write_nonterminal ?_
      rw [(clearFlag_same s id _).status]
      exact retried_nonterminal h
    · exact (h.serve_retry hk _).write_nonterminal (retried_nonterminal h)

theorem Inv.openEpisode (h : Inv c (some id) s)
    (hStay : s.activeRuns.has id = false ∨ s.hasControl id = false ∨ (s.runs id).running = true →
      Inv c none s) : Inv c none (s.openEpisode id) := by
  unfold Registry.openEpisode
  simp only
  split
  · rename_i hStop
    simp only [Bool.or_eq_true, Bool.not_eq_true', or_assoc] at hStop
    exact hStay hStop
  · rename_i hGo
    simp only [Bool.or_eq_true, Bool.not_eq_true', not_or, Bool.not_eq_false,
      OrderedMap.has_iff] at hGo
    split
    · refine Inv.startRun (h.write_nonterminal (reopened_nonterminal ?_ rfl))
      exact h.coherent id (h.created_of_active hGo.1.1)
    · rename_i hOpen
      exact Inv.startRun (h.closed fun _ hTerminal => absurd hTerminal hOpen)

theorem Inv.continueRun (h : Inv c none s) : Inv c none (s.continueRun id) := by
  unfold Registry.continueRun
  split
  · rename_i hRetired
    rw [Bool.and_eq_true, OrderedMap.has_iff] at hRetired
    split
    · exact h
    · have hBack : Inv c (some id) ((s.resurrect id).write id
          { s.runs id with abort := false, running := false }) :=
        (h.resurrect hRetired.2).touch_open ⟨rfl, rfl, fun hr => by cases hr⟩
      refine hBack.openEpisode fun hStay => ?_
      have hActive : (s.resurrect id).activeRuns.has id = true :=
        (OrderedMap.has_iff ..).mpr ((OrderedMap.mem_keys_set ..).mpr (.inl rfl))
      have hControl : (s.resurrect id).hasControl id = true := by
        rw [RunMaps.hasControl, Bool.or_eq_true]
        exact .inl ((OrderedMap.has_iff ..).mpr ((OrderedMap.mem_keys_set ..).mpr (.inl rfl)))
      rw [write_runs_self] at hStay
      rcases hStay with hStay | hStay | hStay
      · exact absurd (hStay.symm.trans hActive) (by decide)
      · exact absurd (hStay.symm.trans hControl) (by decide)
      · cases hStay
  · exact (h.opened id).openEpisode fun _ => h

theorem Inv.transition (h : Inv c none s) {next : TaskStatus} (hNext : next.terminal = false) :
    Inv c none (s.transition id next) := by
  unfold Registry.transition
  split
  · split
    · rename_i r hr
      rcases Run.transition_spec hr with ⟨rfl, -⟩ | rfl
      · exact h.touch ⟨rfl, rfl, fun hr => hr⟩
      · exact (h.opened id).write_nonterminal hNext
    · exact h
  · exact h

theorem inv_step (s : Registry) (l : Label) (t : Registry) (h : Inv c none s)
    (hok : s.ReturnsRefused l) (hs : s.step c l = some t) : Inv c none t := by
  cases l with
  | createRun timeoutMs maximumCost maximumLatency =>
    cases hs
    unfold Registry.createRun
    split
    · exact h
    · exact h.spawn _
  | createSettles k id? =>
    simp only [step] at hs
    split at hs
    · rename_i id hk
      split at hs
      · cases hs
      · rename_i hNew
        cases hs
        exact (h.serve hk (fun _ => rfl) []).register hNew rfl
    · rename_i hk
      cases hs
      exact h.serve hk (fun _ => rfl) []
    · cases hs
  | startRun id => cases hs; exact h.startRun
  | moves id next =>
    simp only [step] at hs
    split at hs
    · cases hs
    · rename_i hNext
      cases hs
      exact h.transition (Bool.not_eq_true _ ▸ hNext)
  | charges id amount => cases hs; exact h.touch ⟨rfl, rfl, fun hr => hr⟩
  | marks id effect => cases hs; exact h.touch ⟨rfl, rfl, fun hr => hr⟩
  | completes k summary =>
    simp only [step] at hs
    split at hs
    · exact h.completeRun hs
    · cases hs
  | observesAbort k reason =>
    simp only [step] at hs
    split at hs
    · split at hs
      · cases hs; exact h.cancelledRun reason
      · cases hs
    · cases hs
  | throws k error =>
    simp only [step] at hs
    split at hs
    · rename_i hk
      cases hs
      exact h.serve hk (fun _ => rfl) _
    · cases hs
  | returns k =>
    simp only [step] at hs
    split at hs
    · rename_i hk
      cases hs
      exact h.serve hk (fun _ => rfl) _
    · cases hs
  | catches k =>
    simp only [step] at hs
    split at hs
    · rename_i id error hk
      cases hs
      exact (h.serve hk (fun _ => rfl) _).failRun error
    · cases hs
  | settles k =>
    simp only [step] at hs
    split at hs
    · rename_i hk
      cases hs
      exact (h.serve hk (fun _ => rfl) _).touch ⟨rfl, rfl, fun hr => by cases hr⟩
    · cases hs
  | deadline id =>
    simp only [step] at hs
    split at hs
    · cases hs
      have hSame : SameStatus (s.runs id)
          { s.runs id with deadlineTimer := false, abort := true } := ⟨rfl, rfl, fun hr => hr⟩
      exact (h.touch hSame).failRun _
    · cases hs
  | cancelRun id reason => cases hs; exact h.cancelRun reason
  | graceElapses k =>
    simp only [step] at hs
    split at hs
    · rename_i id reason hk
      cases hs
      exact ((h.serve hk (fun _ => rfl) []).cancelledRun reason).touch
        ⟨rfl, rfl, fun hr => by cases hr⟩
    · cases hs
  | retryRun id query => cases hs; exact h.retryRun query
  | recovers k =>
    simp only [step] at hs
    split at hs
    · rename_i id recovery hk
      cases hs
      simp only [ReturnsRefused, hk] at hok
      exact h.finishRetry hk hok
    · cases hs
  | continueRun id => cases hs; exact h.continueRun

theorem inv_reach (h : Reach (step c) ReturnsRefused Start s) : Inv c none s := by
  refine h.invariant (I := Inv c none) ?_ inv_step
  rintro s ⟨hCreated, hActive, hControl, hTerminal, hOrder, hEvicted, -⟩
  refine ⟨⟨?_, ?_, ?_, ?_, ?_, ?_⟩, ?_, ?_, ?_⟩ <;>
    simp [hCreated, hActive, hControl, hTerminal, hOrder, hEvicted]

def Known (s : Registry) (id : RunId) : Prop := id ∈ s.created ∧ id ∉ s.evicted

def Executing (s : Registry) (id : RunId) : Prop := (s.runs id).running = true ∨ s.RetryPending id

def Live (s : Registry) (id : RunId) : Prop :=
  (s.runs id).status.terminal = false ∨ s.Executing id

structure Consistent (c : Config) (s : Registry) : Prop where
  place : ∀ id, s.Known id → Xor (id ∈ s.activeRuns.keys) (id ∈ s.terminalRuns.keys)
  finished : ∀ id, s.Known id → (s.runs id).status.terminal = true → ¬ s.Executing id →
    id ∈ s.terminalRuns.keys ∧ id ∉ s.activeRuns.keys
  control : ∀ id, id ∈ s.runControl.keys ↔ id ∈ s.activeRuns.keys
  order : s.terminalOrder.Nodup ∧ (∀ id, id ∈ s.terminalOrder ↔ id ∈ s.terminalRuns.keys) ∧
    s.terminalOrder.length ≤ c.retained
  /-- Each unit of `activeRuns.size` is a live run. -/
  live : s.activeRuns.keys.length = s.activeRuns.size ∧ s.activeRuns.keys.Nodup ∧
    ∀ id ∈ s.activeRuns.keys, s.Known id ∧ s.Live id

theorem Inv.consistent (h : Inv c none s) : Consistent c s := by
  have hLive (id : RunId) (hActive : id ∈ s.activeRuns.keys) : s.Live id := by
    cases hStatus : (s.runs id).status.terminal with
    | false => exact .inl hStatus
    | true => exact .inr (.inr (h.live id hActive (by simp) hStatus))
  constructor
  case place =>
    intro id hKnown
    rcases (h.maps.placed id).mp hKnown.1 with hActive | hTerminal | hEvicted
    · exact .inl ⟨hActive, h.maps.apart id hActive⟩
    · exact .inr ⟨hTerminal, fun hActive => h.maps.apart id hActive hTerminal⟩
    · exact absurd hEvicted hKnown.2
  case finished =>
    intro id hKnown hStatus hIdle
    have hInactive : id ∉ s.activeRuns.keys := by
      intro hActive
      rcases hLive id hActive with hOpen | hBusy
      · rw [hStatus] at hOpen
        cases hOpen
      · exact hIdle hBusy
    refine ⟨?_, hInactive⟩
    rcases (h.maps.placed id).mp hKnown.1 with hActive | hTerminal | hEvicted
    · exact absurd hActive hInactive
    · exact hTerminal
    · exact absurd hEvicted hKnown.2
  case control => exact h.maps.control
  case order =>
    rw [h.maps.order]
    exact ⟨s.terminalRuns.keys_nodup, fun _ => Iff.rfl, h.maps.order ▸ h.maps.bounded⟩
  case live =>
    refine ⟨(OrderedMap.size_eq_keys_length _).symm, s.activeRuns.keys_nodup, fun id hActive => ?_⟩
    exact ⟨⟨h.created_of_active hActive, fun hGone => (h.maps.gone id hGone).1 hActive⟩,
      hLive id hActive⟩

/-- The registry is consistent in every run in which no refused retry leaves its run live. -/
theorem consistent_of_returnsRefused (h : Reach (step c) ReturnsRefused Start s) :
    Consistent c s := (inv_reach h).consistent

def empty : Registry where
  created := []
  activeRuns := .empty
  runControl := .empty
  terminalRuns := .empty
  terminalOrder := []
  evicted := []
  runs _ := .new 0 0 0
  tasks := []

theorem empty_start : Start empty := ⟨rfl, rfl, rfl, rfl, rfl, rfl, rfl⟩

def withoutCheckpoint : Except String RecoveryQuery :=
  .ok ⟨none, .refused .missing "no checkpoint", none, .error "Checkpoint not found"⟩

/-- Run 7 fails, is retried and completes; run 8 is cancelled, pushes 7 out of a history of one,
and is continued. -/
def twoRuns : List Label :=
  [.createRun 300000 (1 / 2) 300000, .createSettles 0 (some 7), .startRun 7, .moves 7 .planning,
    .throws 0 ⟨some "network", "socket closed", true⟩, .catches 0, .settles 0,
    .retryRun 7 withoutCheckpoint, .recovers 0, .moves 7 .executing, .charges 7 (1 / 10),
    .completes 0 (some "done"), .returns 0, .settles 0,
    .createRun 300000 (1 / 2) 300000, .createSettles 0 (some 8), .startRun 8,
    .cancelRun 8 "User cancelled", .graceElapses 1, .throws 0 ⟨none, "aborted", false⟩,
    .catches 0, .settles 0, .continueRun 8]

theorem consistent_two_runs :
    ∃ s, run (step ⟨2, 1⟩) empty twoRuns = some s ∧ s.activeRuns.keys = [8] ∧ s.evicted = [7] ∧
      Consistent ⟨2, 1⟩ s := by
  have hRun : (run (step ⟨2, 1⟩) empty twoRuns).map
      (fun s => (s.activeRuns.keys, s.evicted)) = some ([8], [7]) := by decide +kernel
  obtain ⟨s, hs, hEnd⟩ := Option.map_eq_some_iff.mp hRun
  obtain ⟨hActive, hEvicted⟩ := Prod.mk.inj hEnd
  refine ⟨s, hs, hActive, hEvicted, ?_⟩
  refine consistent_of_returnsRefused ((Reach.start empty_start).run hs ?_)
  decide +kernel

/-- A tool of unknown outcome blocks the recovery: the failed run stays live and keeps its
control record. -/
theorem refused_retry_stays_live :
    ¬ ∀ (c : Config) (s : Registry), Reach (step c) Anything Start s → Consistent c s := by
  intro h
  have hRun : (run (step ⟨2, 1⟩) empty
      [.createRun 300000 (1 / 2) 300000, .createSettles 0 (some 7), .startRun 7,
        .moves 7 .planning,
        .marks 7 (some { defaultToolRecord with state := .inFlight, destructive := true }),
        .throws 0 ⟨some "network", "socket closed", true⟩, .catches 0, .settles 0,
        .retryRun 7 withoutCheckpoint, .recovers 0]).map
      (fun s => ((s.created, s.evicted, s.activeRuns.keys),
        (s.tasks.length, (s.runs 7).status, (s.runs 7).running))) =
        some (([7], [], [7]), (0, .failed, false)) := by decide +kernel
  obtain ⟨s, hs, hEnd⟩ := Option.map_eq_some_iff.mp hRun
  simp only [Prod.mk.injEq] at hEnd
  obtain ⟨⟨hCreated, hEvicted, hActive⟩, hTasks, hStatus, hRunning⟩ := hEnd
  have hIdle : ¬ s.Executing 7 := by
    rintro (hBusy | ⟨task, hMem, -⟩)
    · rw [hRunning] at hBusy
      cases hBusy
    · rw [List.length_eq_zero_iff.mp hTasks] at hMem
      cases hMem
  have hKnown : s.Known 7 := by
    rw [Known, hCreated, hEvicted]
    decide
  refine ((h _ s (reach_of_run empty_start hs)).finished 7 hKnown (by rw [hStatus]; rfl) hIdle).2 ?_
  rw [hActive]
  decide

end OrchestraAI.Core.Registry
