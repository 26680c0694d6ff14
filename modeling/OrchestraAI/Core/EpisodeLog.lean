import OrchestraAI.Core.Outcome

/-! # What is logged of an episode

Which events the operations of the loop and the actions from outside log, and how a run may end.
-/

namespace OrchestraAI.Core

open AsyncProgram

namespace Episode

variable {E : Event → Prop} {s t u : Episode}

/-- Only events of the kind `E` have been logged between two states. -/
def Logged (E : Event → Prop) (s t : Episode) : Prop :=
  ∃ events, t.log = s.log ++ events ∧ ∀ e ∈ events, E e

theorem logged_same (h : t.log = s.log) : Logged E s t :=
  ⟨[], by rw [h, List.append_nil], fun e he => by cases he⟩

theorem Logged.trans (h : Logged E s t) (h' : Logged E t u) : Logged E s u := by
  obtain ⟨events, hEvents, hNone⟩ := h
  obtain ⟨events', hEvents', hNone'⟩ := h'
  refine ⟨events ++ events', by rw [hEvents', hEvents, List.append_assoc], fun e he => ?_⟩
  exact (List.mem_append.mp he).elim (hNone e) (hNone' e)

theorem logged_report (s : Episode) {event : Event} (h : E event) : Logged E s (s.report event) :=
  ⟨[event], rfl, fun _ he => List.mem_singleton.mp he ▸ h⟩

theorem log_transition {r r' : Run} {next : TaskStatus} (h : r.transition next = some r') :
    r'.log = r.log := by
  rw [Run.transition_frame h]

theorem logged_moved (s : Episode) (next : TaskStatus) : Logged E s (s.moved next) := by
  refine logged_same ?_
  rw [moved]
  cases h : s.toRun.transition next with
  | none => rfl
  | some r => exact log_transition h

theorem logged_transition (s : Episode) (next : TaskStatus) : Logged E s (s.transition next).2 := by
  refine logged_same ?_
  rw [Episode.transition]
  cases h : s.toRun.transition next with
  | none => rfl
  | some r => exact log_transition h

theorem logged_toObserving (s : Episode) : Logged E s s.toObserving.2 := by
  rw [toObserving]
  split
  · have hRouted : Logged E s (s.transition .executing).2 := logged_transition s _
    split
    · rename_i routed h
      rw [h] at hRouted
      exact hRouted.trans (logged_transition routed .observing)
    · exact hRouted
  · exact logged_transition s .observing

theorem logged_holdForPause (s : Episode) (h : E (.other .executionPaused)) :
    Logged E s s.holdForPause := by
  rw [holdForPause]
  dsimp only
  split
  · have hMoved : Logged E _ _ := logged_moved { s with pause := s.pause.settlePause } .paused
    exact hMoved.trans (logged_report _ h)
  · exact logged_same rfl

structure Usual (E : Event → Prop) : Prop where
  paused : E (.other .executionPaused)
  resumed : E (.other .executionResumed)
  cancelled : ∀ reason, E (.runCancelled reason)

theorem log_getD (r : Run) (next : TaskStatus) :
    ((r.transition next).getD (r.force next)).log = r.log := by
  cases h : r.transition next with
  | none => rfl
  | some t => exact log_transition h

theorem log_cancelledRun (s : Episode) (reason : String) :
    (s.cancelledRun reason).log =
      s.log ++ if s.endsNothing then [] else [.runCancelled reason] := by
  rw [Episode.cancelledRun]
  split
  · exact (List.append_nil _).symm
  · exact congrArg (· ++ [Event.runCancelled reason]) (log_getD s.toRun .cancelled)

theorem log_failRun (s : Episode) (error : RunError) :
    (s.failRun error).log = s.log ++
      if s.endsNothing then []
      else if s.abort then [.runCancelled "cancel requested"] else s.failureEvents error := by
  rw [Episode.failRun]
  split
  · exact (List.append_nil _).symm
  · change (s.toRun.fail error).log = _
    rw [Run.fail]
    split
    · exact congrArg (· ++ [Event.runCancelled "cancel requested"]) (log_getD s.toRun .cancelled)
    · rw [failureEvents]
      dsimp only
      split
      · rw [Run.emit, log_getD (s.toRun.emit _), Run.emit, List.append_assoc]
      · rw [Run.emit, log_getD]
        rfl

theorem logged_cancelledRun (hE : Usual E) (s : Episode) (reason : String) :
    Logged E s (s.cancelledRun reason) := by
  refine ⟨_, log_cancelledRun s reason, fun e he => ?_⟩
  split at he
  · cases he
  · exact List.mem_singleton.mp he ▸ hE.cancelled reason

theorem logged_failRun (hE : Usual E) {error : RunError}
    (h : s.abort = false → ∀ e ∈ s.failureEvents error, E e) : Logged E s (s.failRun error) := by
  refine ⟨_, log_failRun s error, fun e he => ?_⟩
  split at he
  · cases he
  split at he
  · exact List.mem_singleton.mp he ▸ hE.cancelled _
  · rename_i hAbort
    exact h (Bool.not_eq_true _ ▸ hAbort) e he

def completion (s : Episode) (summary : Option String) : Event :=
  .runCompleted (Run.completionSummary summary) s.currentStep s.budget.currentSpend
    s.budget.elapsedLatency

theorem logged_completeRun {summary : Option String} (h : E (s.completion summary)) :
    Logged E s (s.completeRun summary).2 := by
  rw [Episode.completeRun]
  split
  · exact logged_same rfl
  cases hDone : s.toRun.complete summary with
  | none => exact logged_same rfl
  | some r =>
    refine ⟨[s.completion summary], ?_, fun _ he => List.mem_singleton.mp he ▸ h⟩
    obtain ⟨routed, hRouted, hRest⟩ := Option.bind_eq_some_iff.mp hDone
    obtain ⟨done, hEnded, rfl⟩ := Option.map_eq_some_iff.mp hRest
    have hBack : routed = { s.toRun with machine := routed.machine, status := routed.status } := by
      rw [Run.routeBack] at hRouted
      split at hRouted
      · exact Run.transition_frame hRouted
      · rw [← Option.some.inj hRouted]
    rw [hBack] at hEnded
    rw [Run.transition_frame hEnded]
    rfl

def events (s : Episode) : Op → List Event
  | .emit type => [.other type]
  | .reportBudgetExceeded => [.budgetExceeded s.budget.currentSpend s.budget.maximumCost]
  | .completeRun summary => [s.completion summary]
  | .failRun error => if s.abort then [] else s.failureEvents error
  | _ => []

theorem logged_exec (hE : Usual E) {o : Op} (hEvents : ∀ e ∈ s.events o, E e) :
    Logged E s (exec o s).2 := by
  cases o with
  | emit type => exact logged_report s (hEvents _ (List.mem_singleton_self _))
  | reportBudgetExceeded => exact logged_report s (hEvents _ (List.mem_singleton_self _))
  | transition next => exact logged_transition s next
  | toObserving => exact logged_toObserving s
  | holdForPause => exact logged_holdForPause s hE.paused
  | completeRun summary => exact logged_completeRun (hEvents _ (List.mem_singleton_self _))
  | cancelledRun reason => exact logged_cancelledRun hE s reason
  | failRun error =>
    refine logged_failRun hE fun hAbort e he => hEvents e ?_
    rw [events, hAbort]
    exact he
  | _ => exact logged_same rfl

theorem logged_pauseRun (s : Episode) (h : E (.other .executionPaused)) :
    Logged E s s.pauseRun := by
  rw [pauseRun]
  split
  · have hMoved : Logged E _ _ := logged_moved { s with pause := s.pause.requestPause } .pausing
    exact hMoved.trans (logged_report _ h)
  · exact logged_same rfl

theorem logged_leavePause (s : Episode) : Logged E s s.leavePause := by
  rw [leavePause]
  split
  · exact logged_moved s _
  · exact logged_moved s _
  · exact logged_same rfl

theorem logged_goOn (s : Episode) : Logged E s s.goOn := by
  rw [goOn]
  split
  · exact logged_moved s _
  · exact logged_moved s _
  · exact logged_same rfl

theorem logged_resumeRun (s : Episode) (h : E (.other .executionResumed)) :
    Logged E s s.resumeRun := by
  rw [resumeRun]
  split
  · have hLeft : Logged E _ _ :=
      logged_leavePause { s with pause := s.pause.requestResume.settleResume }
    exact (hLeft.trans (logged_goOn _)).trans (logged_report _ h)
  · exact logged_same rfl

theorem logged_outside (hE : Usual E) {i : Outside} {stands : Option Wait}
    (h : outside i stands s = some t) : Logged E s t := by
  cases i with
  | deadline =>
    simp only [outside] at h
    split at h
    · cases h
      let fired : Episode :=
        { s with abort := true, deadlineTimer := false, seen := { s.seen with timedOut := true } }
      have hFailed : Logged E fired (fired.failRun (Registry.timeoutError s.timeoutMs)) := by
        apply logged_failRun hE
        rintro ⟨⟩
      exact hFailed
    · cases h
  | graceElapses k =>
    simp only [outside] at h
    split at h
    · rename_i reason hReason
      split at h
      · cases h
        let left : Episode := { s with cancelling := s.cancelling.eraseIdx k }
        have hEnded : Logged E left (left.cancelledRun reason) := logged_cancelledRun hE left reason
        exact hEnded
      · cases h
    · cases h
  | cancelRun reason =>
    cases h
    rw [Episode.cancelRun]
    split
    · exact logged_same rfl
    · exact logged_same rfl
  | pauseRun =>
    cases h
    exact logged_pauseRun s hE.paused
  | resumeRun =>
    cases h
    exact logged_resumeRun s hE.resumed

/-- A run is sound, and one that is to be cancelled, or is, has been aborted. -/
structure Settled (s : Episode) : Prop extends Sound s where
  pending : s.cancelling ≠ [] → s.abort = true
  cancelled : s.status = .cancelled → s.abort = true

theorem Settled.onward (hs : s.Settled) (h : Onward s t) : t.Settled where
  toSound := hs.toSound.onward h
  pending hPending := h.abort.trans (hs.pending (h.cancelling ▸ hPending))
  cancelled hCancelled := by
    rw [h.abort]
    rcases h.moved with ⟨hStatus, -⟩ | ⟨-, hOpen, -⟩
    · exact hs.cancelled (hStatus ▸ hCancelled)
    · rw [hCancelled] at hOpen
      cases hOpen

theorem Settled.endsIn {ending : TaskStatus} (hs : s.Settled) (h : EndsIn s t ending)
    (hEnding : ending = .cancelled → s.abort = true) : t.Settled where
  toSound := hs.toSound.endsIn h
  pending hPending := h.abort.trans (hs.pending (h.cancelling ▸ hPending))
  cancelled hCancelled := h.abort.trans (hEnding (h.status.symm.trans hCancelled))

/-- What the loop and the environment leave: a settled run, which has not been completed. -/
structure Uncompleted (E : Event → Prop) (s t : Episode) : Prop where
  settled : t.Settled
  logged : Logged E s t
  status : t.status = .completed → s.status = .completed

theorem Settled.uncompleted_onward (hs : s.Settled) (h : Onward s t) (hLog : Logged E s t) :
    Uncompleted E s t where
  settled := hs.onward h
  logged := hLog
  status hCompleted := by
    rcases h.moved with ⟨hStatus, -⟩ | ⟨-, hOpen, -⟩
    · exact hStatus ▸ hCompleted
    · rw [hCompleted] at hOpen
      cases hOpen

theorem Settled.uncompleted_endsIn {ending : TaskStatus} (hs : s.Settled) (h : EndsIn s t ending)
    (hEnding : ending = .cancelled → s.abort = true) (hNot : ending ≠ .completed)
    (hLog : Logged E s t) : Uncompleted E s t where
  settled := hs.endsIn h hEnding
  logged := hLog
  status hCompleted := absurd (h.status.symm.trans hCompleted) hNot

theorem Settled.uncompleted_cancelledRun (hs : s.Settled) (hE : Usual E) (hAbort : s.abort = true)
    (reason : String) : Uncompleted E s (s.cancelledRun reason) := by
  have hLog := logged_cancelledRun hE s reason
  rcases hs.toSound.cancelledRun_cases reason with ⟨-, hSame⟩ | hEnds
  · rw [hSame]
    exact ⟨hs, logged_same rfl, id⟩
  · exact hs.uncompleted_endsIn hEnds (fun _ => hAbort) nofun hLog

theorem Settled.uncompleted_failRun (hs : s.Settled) (hE : Usual E) {error : RunError}
    (h : s.abort = false → ∀ e ∈ s.failureEvents error, E e) :
    Uncompleted E s (s.failRun error) := by
  have hLog := logged_failRun hE h
  rcases hs.toSound.failRun_cases error with ⟨-, hSame⟩ | ⟨hAbort, hEnds⟩ | ⟨-, hEnds⟩
  · rw [hSame]
    exact ⟨hs, logged_same rfl, id⟩
  · exact hs.uncompleted_endsIn hEnds (fun _ => hAbort) nofun hLog
  · exact hs.uncompleted_endsIn hEnds nofun nofun hLog

theorem Settled.uncompleted_exec (hs : s.Settled) (hE : Usual E) {o : Op} (hHonest : o.honest s)
    (h : o.completes = false) (hEvents : ∀ e ∈ s.events o, E e) :
    Uncompleted E s (exec o s).2 := by
  have hLog := logged_exec hE hEvents
  cases o with
  | holdForPause => exact hs.uncompleted_onward hs.toSound.onward_holdForPause hLog
  | transition next => exact hs.uncompleted_onward (hs.toSound.onward_transition hHonest) hLog
  | toObserving => exact hs.uncompleted_onward hs.toSound.onward_toObserving hLog
  | completeRun summary => cases h
  | cancelledRun reason => exact hs.uncompleted_cancelledRun hE hHonest reason
  | failRun error =>
    refine hs.uncompleted_failRun hE fun hAbort e he => hEvents e ?_
    rw [events, hAbort]
    exact he
  | settle =>
    exact hs.uncompleted_onward ⟨rfl, rfl, rfl, rfl, rfl, rfl, rfl, .inl ⟨rfl, rfl⟩⟩ hLog
  | _ => exact hs.uncompleted_onward (onward_plain s trivial) hLog

theorem Settled.uncompleted_outside (hs : s.Settled) (hE : Usual E) {i : Outside}
    {stands : Option Wait} (h : outside i stands s = some t) : Uncompleted E s t := by
  cases i with
  | deadline =>
    simp only [outside] at h
    split at h
    · cases h
      let fired : Episode :=
        { s with abort := true, deadlineTimer := false, seen := { s.seen with timedOut := true } }
      have hFired : fired.Settled :=
        ⟨⟨hs.machine, hs.live, hs.endings⟩, fun _ => rfl, fun _ => rfl⟩
      have hFailed : Uncompleted E fired (fired.failRun (Registry.timeoutError s.timeoutMs)) :=
        hFired.uncompleted_failRun hE fun hAbort => (by cases hAbort)
      obtain ⟨hSettled, hLog, hStatus⟩ := hFailed
      exact ⟨hSettled, hLog, hStatus⟩
    · cases h
  | graceElapses k =>
    simp only [outside] at h
    split at h
    · rename_i reason hReason
      split at h
      · cases h
        have hPending : s.cancelling ≠ [] := by
          intro hNil
          rw [hNil] at hReason
          cases hReason
        have hAbort := hs.pending hPending
        let left : Episode := { s with cancelling := s.cancelling.eraseIdx k }
        have hLeft : left.Settled :=
          ⟨⟨hs.machine, hs.live, hs.endings⟩, fun _ => hAbort, hs.cancelled⟩
        obtain ⟨hSettled, hLog, hStatus⟩ := hLeft.uncompleted_cancelledRun hE hAbort reason
        exact ⟨⟨⟨hSettled.machine, hSettled.live, hSettled.endings⟩, hSettled.pending,
          hSettled.cancelled⟩, hLog, hStatus⟩
      · cases h
    · cases h
  | cancelRun reason =>
    cases h
    rw [Episode.cancelRun]
    split
    · exact ⟨⟨⟨hs.machine, hs.live, hs.endings⟩, hs.pending, hs.cancelled⟩, logged_same rfl, id⟩
    · exact ⟨⟨⟨hs.machine, hs.live, hs.endings⟩, fun _ => rfl, fun _ => rfl⟩, logged_same rfl, id⟩
  | pauseRun =>
    cases h
    exact hs.uncompleted_onward hs.toSound.onward_pauseRun (logged_pauseRun s hE.paused)
  | resumeRun =>
    cases h
    exact hs.uncompleted_onward hs.toSound.onward_resumeRun (logged_resumeRun s hE.resumed)

theorem Settled.over_outside (hs : s.Settled) {i : Outside} {stands : Option Wait}
    (h : outside i stands s = some t) (hOver : s.Over) : t.Over := by
  cases i with
  | deadline =>
    simp only [outside] at h
    split at h
    · cases h
      let fired : Episode :=
        { s with abort := true, deadlineTimer := false, seen := { s.seen with timedOut := true } }
      have hFired : fired.Sound := ⟨hs.machine, hs.live, hs.endings⟩
      have hOver : fired.Over := .inr rfl
      rcases hFired.failRun_cases (Registry.timeoutError s.timeoutMs) with
        ⟨-, hSame⟩ | ⟨-, hEnds⟩ | ⟨-, hEnds⟩
      · have hKept : (fired.failRun (Registry.timeoutError s.timeoutMs)).Over := by
          rw [hSame]
          exact hOver
        exact hKept
      · exact hEnds.over
      · exact hEnds.over
    · cases h
  | graceElapses k =>
    simp only [outside] at h
    split at h
    · rename_i reason hReason
      split at h
      · cases h
        let left : Episode := { s with cancelling := s.cancelling.eraseIdx k }
        have hLeft : left.Sound := ⟨hs.machine, hs.live, hs.endings⟩
        have hEnded : (left.cancelledRun reason).Over := by
          rcases hLeft.cancelledRun_cases reason with ⟨-, hSame⟩ | hEnds
          · rw [hSame]
            exact hOver
          · exact hEnds.over
        exact hEnded
      · cases h
    · cases h
  | cancelRun reason =>
    cases h
    rw [Episode.cancelRun]
    split
    · exact hOver
    · exact .inr rfl
  | pauseRun =>
    cases h
    exact hs.toSound.onward_pauseRun.over hOver
  | resumeRun =>
    cases h
    exact hs.toSound.onward_resumeRun.over hOver

end Episode

end OrchestraAI.Core
