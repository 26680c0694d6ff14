import OrchestraAI.Core.EpisodeRuns
import OrchestraAI.Core.LoopShape

/-! # What moves and what ends an episode

The operations of the loop and the actions from outside either leave open whether the run is
over, or end it by one of the three terminal functions, each of which emits one event.
-/

namespace OrchestraAI.Core

namespace Episode

variable {s t : Episode}

def endings (s : Episode) : Nat := s.log.countP Event.ends

/-- The status, the machine and the index of live runs agree on whether the run is over, and the
log has one ending if it is. -/
structure Sound (s : Episode) : Prop where
  machine : s.machine.terminal = s.status.terminal
  live : s.live = !s.status.terminal
  endings : s.endings = if s.status.terminal then 1 else 0

/-- From `s` to `t` nothing has ended the run. -/
structure Onward (s t : Episode) : Prop where
  live : t.live = s.live
  abort : t.abort = s.abort
  cancelling : t.cancelling = s.cancelling
  asked : t.seen.cancelAsked = s.seen.cancelAsked
  answers : t.seen.cancelAnswers = s.seen.cancelAnswers
  timedOut : t.seen.timedOut = s.seen.timedOut
  endings : t.endings = s.endings
  moved : t.status = s.status ∧ t.machine = s.machine ∨
    s.status.terminal = false ∧ t.status.terminal = false ∧ t.machine.terminal = false

theorem Onward.terminal (h : Onward s t) : t.status.terminal = s.status.terminal := by
  rcases h.moved with ⟨hStatus, -⟩ | ⟨hs, ht, -⟩
  · rw [hStatus]
  · rw [hs, ht]

theorem Sound.onward (hs : s.Sound) (h : Onward s t) : t.Sound where
  machine := by
    rcases h.moved with ⟨hStatus, hMachine⟩ | ⟨-, hStatus, hMachine⟩
    · rw [hStatus, hMachine, hs.machine]
    · rw [hStatus, hMachine]
  live := by rw [h.live, h.terminal, hs.live]
  endings := by rw [h.endings, h.terminal, hs.endings]

theorem Onward.refl (s : Episode) : Onward s s :=
  ⟨rfl, rfl, rfl, rfl, rfl, rfl, rfl, .inl ⟨rfl, rfl⟩⟩

theorem Onward.trans {u : Episode} (h : Onward s t) (h' : Onward t u) : Onward s u where
  live := h'.live.trans h.live
  abort := h'.abort.trans h.abort
  cancelling := h'.cancelling.trans h.cancelling
  asked := h'.asked.trans h.asked
  answers := h'.answers.trans h.answers
  timedOut := h'.timedOut.trans h.timedOut
  endings := h'.endings.trans h.endings
  moved := by
    rcases h'.moved with ⟨hStatus, hMachine⟩ | ⟨ht, hu⟩
    · rw [hStatus, hMachine]
      exact h.moved
    · exact .inr ⟨h.terminal ▸ ht, hu⟩

theorem onward_report (s : Episode) {event : Event} (h : event.ends = false) :
    Onward s (s.report event) where
  live := rfl
  abort := rfl
  cancelling := rfl
  asked := rfl
  answers := rfl
  timedOut := rfl
  endings := by simp [endings, report, Run.emit, h]
  moved := .inl ⟨rfl, rfl⟩

theorem onward_refuse (s : Episode) (next : TaskStatus) : Onward s (s.refuse next) :=
  ⟨rfl, rfl, rfl, rfl, rfl, rfl, rfl, .inl ⟨rfl, rfl⟩⟩

theorem active_of_transition {r : Run} {next : TaskStatus} (hNext : next.active = true)
    (hSome : (r.transition next).isSome = true) : r.machine.terminal = false := by
  unfold Run.transition at hSome
  have hActive : next.terminal = false ∧ next ≠ .retrying := by
    simpa [TaskStatus.active] using hNext
  split at hSome
  · rename_i hSame
    rw [hSame, hActive.1]
  · split at hSome
    · rename_i hEdge
      refine Bool.eq_false_iff.mpr fun hTerminal => ?_
      rcases TaskStatus.transition_from_terminal hTerminal hEdge with hRetry | ⟨-, rfl⟩
      · exact hActive.2 hRetry
      · cases hActive.1
    · cases hSome

theorem Sound.onward_run (hs : s.Sound) {next : TaskStatus} (hNext : next.active = true) {r : Run}
    (h : s.toRun.transition next = some r) : Onward s { s with toRun := r } := by
  have hOpen : s.machine.terminal = false := active_of_transition hNext (by rw [h]; rfl)
  have hTerminal : next.terminal = false := (by simpa [TaskStatus.active] using hNext : _ ∧ _).1
  rcases Run.transition_spec h with ⟨rfl, -⟩ | rfl
  · exact .refl s
  · exact ⟨rfl, rfl, rfl, rfl, rfl, rfl, rfl, .inr ⟨hs.machine ▸ hOpen, hTerminal, hTerminal⟩⟩

theorem Sound.onward_transition (hs : s.Sound) {next : TaskStatus} (hNext : next.active = true) :
    Onward s (s.transition next).2 := by
  unfold Episode.transition
  cases h : s.toRun.transition next with
  | none => exact onward_refuse s next
  | some r => exact hs.onward_run hNext h

theorem Sound.onward_moved (hs : s.Sound) {next : TaskStatus} (hNext : next.active = true) :
    Onward s (s.moved next) := by
  unfold moved
  cases h : s.toRun.transition next with
  | none => exact .refl s
  | some r => exact hs.onward_run hNext h

theorem Sound.onward_toObserving (hs : s.Sound) : Onward s s.toObserving.2 := by
  unfold toObserving
  split
  · have hRouted : Onward s (s.transition .executing).2 := hs.onward_transition rfl
    split
    · rename_i routed h
      rw [h] at hRouted
      exact hRouted.trans ((hs.onward hRouted).onward_transition rfl)
    · exact hRouted
  · exact hs.onward_transition rfl

theorem Sound.onward_holdForPause (hs : s.Sound) : Onward s s.holdForPause := by
  unfold holdForPause
  have hHeld : Onward s { s with pause := s.pause.settlePause } :=
    ⟨rfl, rfl, rfl, rfl, rfl, rfl, rfl, .inl ⟨rfl, rfl⟩⟩
  dsimp only
  split
  · have hMoved : Onward _ (Episode.moved _ .paused) := (hs.onward hHeld).onward_moved rfl
    exact hHeld.trans (hMoved.trans (onward_report _ rfl))
  · exact hHeld

theorem Sound.onward_pauseRun (hs : s.Sound) : Onward s s.pauseRun := by
  unfold pauseRun
  have hAsked : Onward s { s with pause := s.pause.requestPause } :=
    ⟨rfl, rfl, rfl, rfl, rfl, rfl, rfl, .inl ⟨rfl, rfl⟩⟩
  dsimp only
  split
  · have hMoved : Onward _ (Episode.moved _ .pausing) := (hs.onward hAsked).onward_moved rfl
    exact hAsked.trans (hMoved.trans (onward_report _ rfl))
  · exact hAsked

theorem Sound.onward_leavePause (hs : s.Sound) : Onward s s.leavePause := by
  unfold leavePause
  split
  · exact hs.onward_moved rfl
  · exact hs.onward_moved rfl
  · exact .refl s

theorem Sound.onward_goOn (hs : s.Sound) : Onward s s.goOn := by
  unfold goOn
  split
  · exact hs.onward_moved rfl
  · exact hs.onward_moved rfl
  · exact .refl s

theorem Sound.onward_resumeRun (hs : s.Sound) : Onward s s.resumeRun := by
  unfold resumeRun
  dsimp only
  split
  · have hAsked : Onward s { s with pause := s.pause.requestResume.settleResume } :=
      ⟨rfl, rfl, rfl, rfl, rfl, rfl, rfl, .inl ⟨rfl, rfl⟩⟩
    have hLeft := hAsked.trans (hs.onward hAsked).onward_leavePause
    exact (hLeft.trans (hs.onward hLeft).onward_goOn).trans (onward_report _ rfl)
  · exact ⟨rfl, rfl, rfl, rfl, rfl, rfl, rfl, .inl ⟨rfl, rfl⟩⟩

theorem onward_plain (s : Episode) {o : Op} (h : o.plain) : Onward s (exec o s).2 := by
  cases o with
  | look | evaluate => exact .refl s
  | emit type => exact onward_report s rfl
  | reportBudgetExceeded => exact onward_report s rfl
  | addCost | addLatency | startStep | update | call =>
    exact ⟨rfl, rfl, rfl, rfl, rfl, rfl, rfl, .inl ⟨rfl, rfl⟩⟩
  | _ => exact h.elim

/-- The run of an episode that ends in `status`. -/
def endedAs (s : Episode) (status : TaskStatus) (events : List Event) : Run :=
  { s.toRun with machine := status, status := status, log := s.log ++ events }

/-- The machine lets `_completeRun` pass. -/
def mayComplete (s : Episode) : Bool :=
  s.machine = s.completesVia || s.machine.canTransition s.completesVia

theorem nonterminal_of_endsNothing (h : s.endsNothing = false) : s.status.terminal = false := by
  simp only [endsNothing, Bool.or_eq_false_iff] at h
  exact h.1

theorem transition_canTransition {r : Run} {next : TaskStatus} (hNe : r.machine ≠ next)
    (h : r.machine.canTransition next = true) :
    r.transition next = some { r with machine := next, status := next } := by
  rw [Run.transition, if_neg hNe, if_pos h]

theorem ne_of_terminal {a b : TaskStatus} (ha : a.terminal = false) (hb : b.terminal = true) :
    a ≠ b := by
  rintro rfl
  rw [ha] at hb
  cases hb

theorem mayComplete_eq (s : Episode) :
    s.mayComplete =
      if s.status = .observing ∨ s.status = .waitingForTool then
        decide (s.machine = .executing) || s.machine.canTransition .executing
      else decide (s.machine = .completed) || s.machine.canTransition .completed := by
  unfold mayComplete completesVia
  split <;> rfl

theorem Sound.complete (hs : s.Sound) (hOpen : s.status.terminal = false)
    (summary : Option String) :
    s.toRun.complete summary =
      if s.mayComplete then
        some (s.endedAs .completed
          [.runCompleted (Run.completionSummary summary) s.currentStep s.budget.currentSpend
            s.budget.elapsedLatency])
      else none := by
  have hMachine : s.machine ≠ .completed := ne_of_terminal (hs.machine.trans hOpen) rfl
  rw [mayComplete_eq, Run.complete, Run.routeBack]
  split
  · -- The run is routed back to EXECUTING, from where it may always complete.
    by_cases hSame : s.machine = .executing
    · simp [Run.transition, hSame, TaskStatus.canTransition, TaskStatus.transitions,
        Run.reportCompleted, Run.emit, endedAs]
    · by_cases hEdge : s.machine.canTransition .executing = true
      · rw [transition_canTransition hSame hEdge, hEdge, Bool.or_true]
        rfl
      · simp [Run.transition, hSame, hEdge]
  · by_cases hEdge : s.machine.canTransition .completed = true
    · simp only [Option.bind_some, transition_canTransition hMachine hEdge, hEdge, Bool.or_true]
      rfl
    · simp [Run.transition, hMachine, hEdge]

theorem Sound.completeRun (hs : s.Sound) (summary : Option String) :
    s.completeRun summary =
      if s.endsNothing then (.ok (), s)
      else if s.mayComplete then
        (.ok (), s.retired (s.endedAs .completed
          [.runCompleted (Run.completionSummary summary) s.currentStep s.budget.currentSpend
            s.budget.elapsedLatency]))
      else (.error (invalidTransition s.machine s.completesVia), s.refuse s.completesVia) := by
  unfold Episode.completeRun
  split
  · rfl
  · rename_i hLive
    rw [hs.complete (nonterminal_of_endsNothing (Bool.not_eq_true _ ▸ hLive))]
    by_cases hMay : s.mayComplete = true
    · simp [hMay]
    · simp [hMay]

theorem Sound.cancelledRun (hs : s.Sound) (reason : String) :
    s.cancelledRun reason =
      if s.endsNothing then s else s.retired (s.endedAs .cancelled [.runCancelled reason]) := by
  unfold Episode.cancelledRun
  split
  · rfl
  · rename_i hLive
    have hOpen : s.machine.terminal = false :=
      hs.machine.trans (nonterminal_of_endsNothing (Bool.not_eq_true _ ▸ hLive))
    have hMove := transition_canTransition (r := s.toRun) (ne_of_terminal hOpen rfl)
      (TaskStatus.canTransition_cancelled hOpen)
    rw [noteRefused, Run.cancelled, hMove]
    rfl

def failureEvents (s : Episode) (error : RunError) : List Event :=
  let code := (Recovery.truthy error.code).getD "unknown"
  (if code = "budget_exceeded" ∨ code = "budget_constraint" then
    [.budgetExceeded s.budget.currentSpend s.budget.maximumCost] else []) ++
    [.runFailed error.safe code s.currentStep s.budget.currentSpend]

/-- The transition that is forced writes what the transition that is let pass writes. -/
theorem getD_transition {r : Run} {next : TaskStatus} (hNe : r.machine ≠ next) :
    (r.transition next).getD (r.force next) = { r with machine := next, status := next } := by
  rw [Run.transition, if_neg hNe]
  split <;> rfl

/-- A failure ends the run, by force if need be; an abort takes it for a cancellation. -/
theorem Sound.failRun (hs : s.Sound) (error : RunError) :
    s.failRun error =
      if s.endsNothing then s
      else if s.abort then s.cancelledRun "cancel requested"
      else (s.noteRefused .failed).retired (s.endedAs .failed (s.failureEvents error)) := by
  unfold Episode.failRun
  split
  · rfl
  · rename_i hLive
    have hMachine : s.machine ≠ .failed := ne_of_terminal
      (hs.machine.trans (nonterminal_of_endsNothing (Bool.not_eq_true _ ▸ hLive))) rfl
    by_cases hAbort : s.abort = true
    · rw [Run.fail, Episode.cancelledRun, if_pos hAbort, if_pos hAbort, if_pos hAbort, if_neg hLive]
    · rw [Run.fail, if_neg hAbort, if_neg hAbort, if_neg hAbort]
      unfold failureEvents
      dsimp only
      split
      · rw [getD_transition (r := s.toRun.emit _) hMachine]
        simp [endedAs, Run.emit]
      · rw [getD_transition hMachine]
        rfl

/-- How an episode that is not over ends: by one event, with the status that it names. -/
structure EndsIn (s t : Episode) (ending : TaskStatus) : Prop where
  was : s.status.terminal = false
  status : t.status = ending
  machine : t.machine = ending
  terminal : ending.terminal = true
  live : t.live = false
  abort : t.abort = s.abort
  cancelling : t.cancelling = s.cancelling
  asked : t.seen.cancelAsked = s.seen.cancelAsked
  answers : t.seen.cancelAnswers = s.seen.cancelAnswers
  timedOut : t.seen.timedOut = s.seen.timedOut
  endings : t.endings = s.endings + 1

theorem Sound.endsIn {ending : TaskStatus} (hs : s.Sound) (h : EndsIn s t ending) : t.Sound where
  machine := by rw [h.machine, h.status]
  live := by rw [h.live, h.status, h.terminal]; rfl
  endings := by rw [h.endings, h.status, h.terminal, hs.endings, h.was]; rfl

theorem endsIn_retired {u : Episode} {ending : TaskStatus} {events : List Event}
    (hOpen : s.status.terminal = false) (hEnding : ending.terminal = true)
    (hu : u.cancelling = s.cancelling ∧ u.seen.cancelAsked = s.seen.cancelAsked ∧
      u.seen.cancelAnswers = s.seen.cancelAnswers ∧ u.seen.timedOut = s.seen.timedOut)
    (hEvents : events.countP Event.ends = 1) :
    EndsIn s (u.retired (s.endedAs ending events)) ending where
  was := hOpen
  status := rfl
  machine := rfl
  terminal := hEnding
  live := rfl
  abort := rfl
  cancelling := hu.1
  asked := hu.2.1
  answers := hu.2.2.1
  timedOut := hu.2.2.2
  endings := by
    rw [← hEvents]
    exact List.countP_append

theorem Sound.completeRun_cases (hs : s.Sound) (summary : Option String) :
    (s.endsNothing = true ∧ s.completeRun summary = (.ok (), s)) ∨
    (s.mayComplete = true ∧ (s.completeRun summary).1 = .ok () ∧
      EndsIn s (s.completeRun summary).2 .completed) ∨
    (s.mayComplete = false ∧ ∃ error,
      s.completeRun summary = (.error error, s.refuse s.completesVia)) := by
  rw [hs.completeRun]
  cases hLive : s.endsNothing with
  | true => exact .inl ⟨rfl, rfl⟩
  | false =>
    have hOpen := nonterminal_of_endsNothing hLive
    cases hMay : s.mayComplete with
    | true => exact .inr (.inl ⟨rfl, rfl, endsIn_retired hOpen rfl ⟨rfl, rfl, rfl, rfl⟩ rfl⟩)
    | false => exact .inr (.inr ⟨rfl, _, rfl⟩)

theorem Sound.cancelledRun_cases (hs : s.Sound) (reason : String) :
    (s.endsNothing = true ∧ s.cancelledRun reason = s) ∨
      EndsIn s (s.cancelledRun reason) .cancelled := by
  rw [hs.cancelledRun]
  cases hLive : s.endsNothing with
  | true => exact .inl ⟨rfl, rfl⟩
  | false =>
    exact .inr (endsIn_retired (nonterminal_of_endsNothing hLive) rfl ⟨rfl, rfl, rfl, rfl⟩ rfl)

theorem Sound.failRun_cases (hs : s.Sound) (error : RunError) :
    (s.endsNothing = true ∧ s.failRun error = s) ∨
    (s.abort = true ∧ EndsIn s (s.failRun error) .cancelled) ∨
    (s.abort = false ∧ EndsIn s (s.failRun error) .failed) := by
  rw [hs.failRun]
  cases hLive : s.endsNothing with
  | true => exact .inl ⟨rfl, rfl⟩
  | false =>
    have hOpen := nonterminal_of_endsNothing hLive
    cases hAbort : s.abort with
    | true =>
      refine .inr (.inl ⟨rfl, ?_⟩)
      rcases hs.cancelledRun_cases "cancel requested" with ⟨hEnds, -⟩ | hEnds
      · rw [hLive] at hEnds
        cases hEnds
      · exact hEnds
    | false =>
      refine .inr (.inr ⟨rfl, endsIn_retired hOpen rfl ?_ ?_⟩)
      · unfold noteRefused
        split <;> exact ⟨rfl, rfl, rfl, rfl⟩
      · unfold failureEvents
        dsimp only
        split <;> rfl

theorem Sound.endsNothing (hs : s.Sound) : s.endsNothing = s.status.terminal := by
  unfold Episode.endsNothing
  rw [hs.live, Bool.not_not, Bool.or_self]

end Episode

end OrchestraAI.Core
