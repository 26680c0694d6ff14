import OrchestraAI.Core.EpisodeEnds

/-! # The outcome of an episode

Whatever comes when, an episode ends once, as cancelled only if it was asked to, and a
`cancelRun` answers that it has cancelled only if it has. Two interleavings break this: the
deadline sets the abort flag before it fails the run, and a run whose cancellation is in its
grace may still complete.
-/

namespace OrchestraAI.Core

open AsyncProgram LabelledSystem

/-- A cancellation by the loop follows an abort, and it moves the run to active statuses only. -/
def Op.honest : Op → Episode → Prop
  | .cancelledRun _, s => s.abort = true
  | .transition next, _ => next.active = true
  | _, _ => True

namespace Episode

variable {s t : Episode}

/-- Nothing is left to do but to end: the run is over, or will be after the grace. -/
def Over (s : Episode) : Prop := s.status.terminal = true ∨ s.abort = true

theorem EndsIn.over {ending : TaskStatus} (h : EndsIn s t ending) : t.Over :=
  .inl (by rw [h.status, h.terminal])

theorem Onward.over (h : Onward s t) (hs : s.Over) : t.Over := by
  unfold Over
  rw [h.terminal, h.abort]
  exact hs

end Episode

open Episode

def outcomeContract : Contract Episode Op Wait Wait.Ans where
  safe := Op.honest
  allowed _ s := s.Sound
  rely _ s _ s' := s.Over → s'.Over

namespace Loop

variable {α β : Type} {c : Settings} {s : Episode}

/-- `p` meets the contract and comes to `Q`. -/
abbrev Owes (p : Loop α) (s : Episode) (Q : Except LoopError α → Episode → Prop) : Prop :=
  Meets outcomeContract exec p s Q

theorem inner_honest {o : Op} (h : o.inner) (s : Episode) : o.honest s := by
  cases o with
  | cancelledRun => exact h.elim
  | transition next => exact h
  | _ => trivial

theorem Inner.owes {p : Loop α} (h : Inner p) {Q : Except LoopError α → Episode → Prop}
    (hQ : ∀ r s, Q r s) : Owes p s Q :=
  .of_all (I := fun _ => True) h trivial (fun _ s ho _ _ => ⟨inner_honest ho s, trivial⟩)
    (fun _ _ _ _ _ _ _ => trivial) fun r s _ => hQ r s

theorem owes_look {f : View → Loop β} {Q : Except LoopError β → Episode → Prop}
    (h : Owes (f s.view) s Q) : Owes (look >>= f) s Q :=
  fun _ => ⟨trivial, h⟩

theorem owes_cancelledRun {reason : String} (hAbort : s.abort = true) {a : α}
    {Q : Except LoopError α → Episode → Prop} (hQ : ∀ t : Episode, t.Over → Q (.ok a) t) :
    Owes (do cancelledRun reason; pure a) s Q := by
  intro hs
  refine ⟨hAbort, hQ _ ?_⟩
  rcases hs.cancelledRun_cases reason with ⟨-, hSame⟩ | hEnds
  · exact (congrArg Over hSame).mpr (.inr hAbort)
  · exact hEnds.over

theorem completeRun_owes (summary : Option String) :
    Owes (Loop.completeRun summary) s fun r t => r = .ok () → t.Over := by
  intro hs
  refine ⟨trivial, ?_⟩
  rcases hs.completeRun_cases summary with ⟨hNothing, hSame⟩ | ⟨-, hOk, hEnds⟩ | ⟨-, error, hError⟩
  · rw [exec, hSame]
    exact fun _ => .inl (hs.endsNothing ▸ hNothing)
  · rw [exec, hOk]
    exact fun _ => hEnds.over
  · rw [exec, hError]
    exact nofun

theorem goesOn_owes : Owes goesOn s fun r t => r = .ok false → t.Over := by
  refine owes_look ?_
  split
  · rename_i hAbort
    exact owes_cancelledRun hAbort fun t ht _ => ht
  · intro h
    have hTerminal : s.view.terminal = true := by simpa using h
    exact .inl hTerminal

theorem admitStep_owes : Owes (admitStep c) s fun r t => r = .ok false → t.Over := by
  refine owes_look ?_
  split
  · rename_i hAbort
    exact owes_cancelledRun hAbort fun t ht _ => ht
  · split
    · rename_i hTerminal
      exact fun _ => .inl hTerminal
    · split
      · refine .bind (Inner.owes handleBudgetExceeded_modest.mild.toolless.plain.holds.inner fun r t => ?_)
        cases r with
        | error e => exact nofun
        | ok switched =>
          dsimp only
          split
          · exact nofun
          · refine owes_look fun h => ?_
            have hOver : t.view.abort = true ∨ t.view.terminal = true := by
              rw [← Bool.or_eq_true, ← Bool.not_eq_false']
              exact Except.ok.inj h
            exact hOver.symm
      · exact nofun

theorem runSteps_owes : ∀ (left steps : Nat) (s : Episode),
    Owes (runSteps c left steps) s fun r t => r = .ok none → t.Over
  | 0, _, _ => nofun
  | left + 1, steps, s => by
    refine .bind (admitStep_owes.mono fun r t hAdmitted => ?_)
    cases r with
    | error e => exact nofun
    | ok admitted =>
      cases admitted with
      | false => exact fun _ => hAdmitted rfl
      | true =>
        refine .bind (Inner.owes (all_update trivial) fun r t => ?_)
        cases r with
        | error e => exact nofun
        | ok u =>
          refine .bind (Inner.owes (executeStep_inner _) fun r t => ?_)
          cases r with
          | error e => exact nofun
          | ok shouldContinue =>
            refine .bind (Inner.owes checkOptimizationTriggers_modest.mild.toolless.plain.holds.inner fun r t => ?_)
            cases r with
            | error e => exact nofun
            | ok u =>
              cases shouldContinue with
              | false => exact nofun
              | true =>
                refine .bind (goesOn_owes.mono fun r t hGoes => ?_)
                cases r with
                | error e => exact nofun
                | ok goes =>
                  cases goes with
                  | false => exact fun _ => hGoes rfl
                  | true => exact runSteps_owes left (steps + 1) t

theorem closeRun_owes (steps : Nat) : Owes (closeRun c steps) s fun r t => r = .ok () → t.Over := by
  refine owes_look ?_
  dsimp only
  split
  · rename_i hOver
    have hOver : s.view.terminal = true ∨ s.view.abort = true := by simpa using hOver
    exact fun _ => hOver
  · split
    · cases h : s.view.data.assistantMessages.getLast? with
      | none => exact nofun
      | some text => exact completeRun_owes _
    · exact completeRun_owes _

theorem executeRun_owes (entry : Entry) :
    Owes (executeRun c entry) s fun r t => r = .ok () → t.Over := by
  refine .bind (Inner.owes (setUp_inner entry) fun r t => ?_)
  cases r with
  | error e => exact nofun
  | ok u =>
    refine .bind (Inner.owes (all_update trivial) fun r t => ?_)
    cases r with
    | error e => exact nofun
    | ok u =>
      refine .bind ((runSteps_owes _ _ _).mono fun r t hSteps => ?_)
      cases r with
      | error e => exact nofun
      | ok steps =>
        cases steps with
        | none => exact fun _ => hSteps rfl
        | some steps => exact closeRun_owes steps

theorem episode_owes (entry : Entry) : Owes (episode c entry) s fun _ t => t.Over := by
  have hClose (s : Episode) (hOver : s.Over) :
      Owes (do wait .closing; Prog.op .settle Prog.done : Loop Unit) s fun _ t => t.Over :=
    fun _ t ht _ => ⟨trivial, ht hOver⟩
  refine .bind (.tryCatch ((executeRun_owes entry).mono fun r t hRun => ?_))
  cases r with
  | ok u => exact hClose t (hRun rfl)
  | error e =>
    intro _ t _ ht
    refine ⟨trivial, hClose _ ?_⟩
    rcases ht.failRun_cases e.toRunError with ⟨hNothing, hSame⟩ | ⟨-, hEnds⟩ | ⟨-, hEnds⟩
    · exact (congrArg Over hSame).mpr (.inl (ht.endsNothing ▸ hNothing))
    · exact hEnds.over
    · exact hEnds.over

end Loop

namespace Episode

/-- An abort is a cancellation that was asked for, and it is what the run ends as. -/
structure Honest (s : Episode) : Prop extends Sound s where
  asked : s.abort = true → s.seen.cancelAsked = true
  pending : s.cancelling ≠ [] → s.abort = true
  grace : s.abort = true → s.status.terminal = true ∨ s.cancelling ≠ []
  aborted : s.abort = true → s.status.terminal = true → s.status = .cancelled
  cancelled : s.status = .cancelled → s.seen.cancelAsked = true
  answered : true ∈ s.seen.cancelAnswers → s.status = .cancelled
  untimed : s.seen.timedOut = false

variable {s t : Episode}

theorem Honest.onward (hs : s.Honest) (h : Onward s t) : t.Honest where
  toSound := hs.toSound.onward h
  asked hAbort := h.asked ▸ hs.asked (h.abort ▸ hAbort)
  pending hPending := by
    rw [h.abort]
    exact hs.pending (h.cancelling ▸ hPending)
  grace hAbort := by
    rw [h.terminal, h.cancelling]
    exact hs.grace (h.abort ▸ hAbort)
  aborted hAbort hTerminal := by
    rcases h.moved with ⟨hStatus, -⟩ | ⟨-, hOpen, -⟩
    · rw [hStatus] at hTerminal ⊢
      exact hs.aborted (h.abort ▸ hAbort) hTerminal
    · rw [hOpen] at hTerminal
      cases hTerminal
  cancelled hCancelled := by
    rcases h.moved with ⟨hStatus, -⟩ | ⟨-, hOpen, -⟩
    · rw [h.asked]
      exact hs.cancelled (hStatus ▸ hCancelled)
    · rw [hCancelled] at hOpen
      cases hOpen
  answered hAnswered := by
    have hCancelled := hs.answered (h.answers ▸ hAnswered)
    rcases h.moved with ⟨hStatus, -⟩ | ⟨hOpen, -⟩
    · rw [hStatus, hCancelled]
    · rw [hCancelled] at hOpen
      cases hOpen
  untimed := by rw [h.timedOut, hs.untimed]

/-- An ending keeps the clauses if it is a cancellation if and only if the run was aborted. -/
theorem Honest.endsIn {ending : TaskStatus} (hs : s.Honest) (h : EndsIn s t ending)
    (hEnding : ending = .cancelled ↔ s.abort = true) : t.Honest where
  toSound := hs.toSound.endsIn h
  asked hAbort := h.asked ▸ hs.asked (h.abort ▸ hAbort)
  pending hPending := by
    rw [h.abort]
    exact hs.pending (h.cancelling ▸ hPending)
  grace _ := .inl (by rw [h.status, h.terminal])
  aborted hAbort _ := by
    rw [h.status]
    exact hEnding.mpr (h.abort ▸ hAbort)
  cancelled hCancelled := by
    rw [h.asked]
    exact hs.asked (hEnding.mp (h.status ▸ hCancelled))
  answered hAnswered := by
    have hCancelled := hs.answered (h.answers ▸ hAnswered)
    have hOpen := h.was
    rw [hCancelled] at hOpen
    cases hOpen
  untimed := by rw [h.timedOut, hs.untimed]

theorem Honest.of_cancelled (hs : s.Sound) (hStatus : s.status = .cancelled)
    (hAbort : s.abort = true) (hAsked : s.seen.cancelAsked = true)
    (hUntimed : s.seen.timedOut = false) : s.Honest where
  toSound := hs
  asked _ := hAsked
  pending _ := hAbort
  grace _ := .inl (by rw [hStatus]; rfl)
  aborted _ _ := hStatus
  cancelled _ := hAsked
  answered _ := hStatus
  untimed := hUntimed

theorem Honest.cancelRun (hs : s.Honest) (reason : String) : (s.cancelRun reason).Honest := by
  unfold Episode.cancelRun
  split
  · exact
      { hs with
        answered := fun h => hs.answered (by simpa [answer] using h) }
  · rename_i hLive
    have hOpen : s.status.terminal = false := by
      have : s.live = true ∧ s.status.terminal = false := by simpa using hLive
      exact this.2
    exact
      { hs.toSound with
        asked := fun _ => rfl
        pending := fun _ => rfl
        grace := fun _ => .inr (by simp)
        aborted := fun _ hTerminal => by
          rw [hOpen] at hTerminal
          cases hTerminal
        cancelled := fun _ => rfl
        answered := hs.answered
        untimed := hs.untimed }

/-- After the grace the run is cancelled, whether the grace has cancelled it or the loop. -/
theorem Honest.graceElapses (hs : s.Honest) (hPending : s.cancelling ≠ []) (left : List String)
    (reason : String) :
    ({ s with cancelling := left }.graceElapses reason).Honest ∧
      ({ s with cancelling := left }.graceElapses reason).status = .cancelled := by
  have hAbort := hs.pending hPending
  have hSound : ({ s with cancelling := left } : Episode).Sound := ⟨hs.machine, hs.live, hs.endings⟩
  rcases hSound.cancelledRun_cases reason with ⟨hNothing, hSame⟩ | hEnds
  · have hTerminal : s.status.terminal = true := hSound.endsNothing.symm.trans hNothing
    have hCancelled := hs.aborted hAbort hTerminal
    unfold Episode.graceElapses
    rw [hSame]
    exact ⟨.of_cancelled ⟨hs.machine, hs.live, hs.endings⟩ hCancelled hAbort (hs.asked hAbort)
      hs.untimed, hCancelled⟩
  · have hEnded := hSound.endsIn hEnds
    exact ⟨.of_cancelled ⟨hEnded.machine, hEnded.live, hEnded.endings⟩ hEnds.status
      (hEnds.abort.trans hAbort) (hEnds.asked.trans (hs.asked hAbort))
      (hEnds.timedOut.trans hs.untimed), hEnds.status⟩

end Episode

def Op.completes : Op → Bool
  | .completeRun _ => true
  | _ => false

namespace EpisodeSystem

/-- The deadline does not fire, and a completion that is due while the run is aborted finds the run
over or its machine elsewhere. -/
def Undisturbed (x : EpisodeSystem) : EpisodeLabel → Prop
  | .tick =>
    x.prog.due.any Op.completes = true → x.shared.abort = true →
      x.shared.endsNothing = true ∨ x.shared.mayComplete = false
  | .env .deadline => False
  | _ => True

instance (x : EpisodeSystem) : ∀ l, Decidable (x.Undisturbed l)
  | .tick => inferInstanceAs (Decidable (_ → _))
  | .env .deadline => inferInstanceAs (Decidable False)
  | .resume _ | .env (.graceElapses _) | .env (.cancelRun _) | .env .pauseRun | .env .resumeRun =>
    inferInstanceAs (Decidable True)

structure HonestOutcome (x : EpisodeSystem) : Prop where
  once : x.shared.endings ≤ 1
  /-- Once the loop and every `cancelRun` are through, the run has ended. -/
  ended : x.prog.stand = some none → x.shared.cancelling = [] → x.shared.endings = 1
  cancelled : x.shared.status = .cancelled → x.shared.seen.cancelAsked = true
  timedOut : x.shared.seen.timedOut = true → x.shared.status = .failed ∧
    ∃ error steps cost, .runFailed error "timeout" steps cost ∈ x.shared.log
  answered : true ∈ x.shared.seen.cancelAnswers → x.shared.status = .cancelled

variable {c : Settings} {entry : Loop.Entry} {x y : EpisodeSystem}

/-- The invariant: the state is honest, and the loop owes what it owes. -/
structure Owing (x : EpisodeSystem) : Prop where
  honest : x.shared.Honest
  owes : Loop.Owes x.prog x.shared fun _ t => t.Over

theorem Start.owing (h : Start c entry x) : x.Owing where
  honest :=
    { machine := by rw [h.machine, h.status]
      live := by rw [h.live, h.status]; rfl
      endings := by
        rw [endings, h.log, h.status]
        rfl
      asked := by simp [h.abort]
      pending := by simp [h.cancelling]
      grace := by simp [h.abort]
      aborted := by simp [h.abort]
      cancelled := fun hStatus => by
        have hOpen := h.status
        rw [hStatus] at hOpen
        cases hOpen
      answered := by simp [h.seen, Observed.nothing]
      untimed := by rw [h.seen]; rfl }
  owes := h.prog ▸ Loop.episode_owes entry

theorem honest_exec {o : Op} {s : Episode} (hs : s.Honest) (hSafe : o.honest s)
    (hComplete : ∀ summary, o = .completeRun summary → s.abort = true →
      s.endsNothing = true ∨ s.mayComplete = false) :
    (exec o s).2.Honest := by
  cases o with
  | holdForPause => exact hs.onward hs.onward_holdForPause
  | transition next => exact hs.onward (hs.onward_transition hSafe)
  | toObserving => exact hs.onward hs.onward_toObserving
  | completeRun summary =>
    rcases hs.completeRun_cases summary with ⟨-, hSame⟩ | ⟨hMay, -, hEnds⟩ | ⟨-, error, hError⟩
    · rw [exec, hSame]
      exact hs
    · refine hs.endsIn hEnds ⟨nofun, fun hAbort => ?_⟩
      rcases hComplete summary rfl hAbort with hNothing | hMayNot
      · have hOpen := hEnds.was
        rw [← hs.endsNothing, hNothing] at hOpen
        cases hOpen
      · rw [hMay] at hMayNot
        cases hMayNot
    · rw [exec, hError]
      exact hs.onward (onward_refuse s _)
  | cancelledRun reason =>
    rcases hs.cancelledRun_cases reason with ⟨-, hSame⟩ | hEnds
    · rw [exec, hSame]
      exact hs
    · exact hs.endsIn hEnds ⟨fun _ => hSafe, fun _ => rfl⟩
  | failRun error =>
    rcases hs.failRun_cases error with ⟨-, hSame⟩ | ⟨hAbort, hEnds⟩ | ⟨hAbort, hEnds⟩
    · rw [exec, hSame]
      exact hs
    · exact hs.endsIn hEnds ⟨fun _ => hAbort, fun _ => rfl⟩
    · exact hs.endsIn hEnds ⟨nofun, fun h => by rw [hAbort] at h; cases h⟩
  | settle => exact hs.onward ⟨rfl, rfl, rfl, rfl, rfl, rfl, rfl, .inl ⟨rfl, rfl⟩⟩
  | _ => exact hs.onward (onward_plain s trivial)

/-- What happens outside, the deadline apart, keeps the state honest and takes no ending back. -/
theorem honest_outside {i : Outside} {stands : Option Wait} {s t : Episode} (hs : s.Honest)
    (hDeadline : i ≠ .deadline) (h : outside i stands s = some t) :
    t.Honest ∧ (s.Over → t.Over) := by
  cases i with
  | deadline => exact absurd rfl hDeadline
  | graceElapses k =>
    simp only [outside] at h
    split at h
    · rename_i reason hReason
      split at h
      · obtain rfl := Option.some.inj h
        have hPending : s.cancelling ≠ [] := by
          intro hNil
          rw [hNil] at hReason
          cases hReason
        obtain ⟨hHonest, hCancelled⟩ := hs.graceElapses hPending (s.cancelling.eraseIdx k) reason
        exact ⟨hHonest, fun _ => .inl (by rw [hCancelled]; rfl)⟩
      · cases h
    · cases h
  | cancelRun reason =>
    obtain rfl := Option.some.inj h
    refine ⟨hs.cancelRun reason, fun hOver => ?_⟩
    unfold Episode.cancelRun
    split
    · exact hOver
    · exact .inr rfl
  | pauseRun =>
    obtain rfl := Option.some.inj h
    exact ⟨hs.onward hs.onward_pauseRun, hs.onward_pauseRun.over⟩
  | resumeRun =>
    obtain rfl := Option.some.inj h
    exact ⟨hs.onward hs.onward_resumeRun, hs.onward_resumeRun.over⟩

theorem owing_step {l : EpisodeLabel} (hx : x.Owing) (hl : x.Undisturbed l)
    (h : x.step l = some y) : y.Owing where
  honest := by
    rcases step_cases h with ⟨o, k, rfl, hProg, rfl⟩ | ⟨answers, t, k, rfl, hProg, -, rfl⟩ |
      ⟨i, stands, s, rfl, hStand, hEnv, rfl⟩
    · have hDue : x.prog.due = some o := by rw [hProg]; rfl
      refine honest_exec hx.honest (hx.owes.safe hDue hx.honest.toSound) fun summary hSummary => ?_
      subst hSummary
      exact hl (by rw [hDue]; rfl)
    · exact hx.honest
    · exact (honest_outside hx.honest (fun hDeadline => by subst hDeadline; exact hl) hEnv).1
  owes := by
    refine Meets.step hx.owes h (fun o _ _ => hx.honest.toSound) (fun _ _ _ _ _ hOver => hOver)
      fun i stands s hEnv hStand hOutside => ?_
    have hOver := (honest_outside hx.honest
      (fun hDeadline => by subst hDeadline; subst hEnv; exact hl) hOutside).2
    exact ⟨fun t _ a s' hRely hs => hRely (hOver hs), fun _ _ => hOver⟩

theorem Owing.outcome (hx : x.Owing) : x.HonestOutcome where
  once := by
    rw [hx.honest.endings]
    split <;> decide
  ended hEnd hGrace := by
    obtain ⟨r, hOver⟩ := hx.owes.ended hEnd
    have hTerminal : x.shared.status.terminal = true := by
      rcases hOver with hTerminal | hAbort
      · exact hTerminal
      · exact (hx.honest.grace hAbort).resolve_right (absurd hGrace)
    rw [hx.honest.endings, if_pos hTerminal]
  cancelled := hx.honest.cancelled
  timedOut hTimedOut := by
    rw [hx.honest.untimed] at hTimedOut
    cases hTimedOut
  answered := hx.honest.answered

/-- In a run that is not disturbed, every state keeps the promises of an episode about its end. -/
theorem honest_of_undisturbed
    (h : Reach EpisodeSystem.step Undisturbed (Start c entry) x) : x.HonestOutcome :=
  (h.invariant (I := Owing) (fun _ hStart => hStart.owing)
    fun _ _ _ hx hl hStep => owing_step hx hl hStep).outcome

/-- A cancellation while the provider is called: the run ends cancelled, and `cancelRun` says so. -/
def cancelledCall : List EpisodeLabel :=
  toProvider ++ [.env (.cancelRun "stop"), .env (.graceElapses 0), .resume (answers ""), .tick]

theorem undisturbed_cancelledCall :
    ∃ x, run EpisodeSystem.step retried cancelledCall = some x ∧ x.HonestOutcome ∧
      x.shared.seen.cancelAnswers = [true] := by
  have hRuns : (run EpisodeSystem.step retried cancelledCall).any
      (fun x => x.shared.seen.cancelAnswers = [true]) = true := by decide +kernel
  obtain ⟨x, hx, hAnswers⟩ := Option.any_eq_true _ _ |>.mp hRuns
  exact ⟨x, hx, honest_of_undisturbed ((Reach.start retried_start).run hx (by decide +kernel)),
    of_decide_eq_true hAnswers⟩

/-- The deadline during a call of the provider cancels a run that nobody has asked to cancel. -/
theorem deadline_cancels :
    ¬ ∀ x, Reach EpisodeSystem.step Anything (Start plainSettings ⟨true, 0⟩) x →
      x.HonestOutcome := by
  intro h
  have hRuns : (run EpisodeSystem.step retried (toProvider ++ [.env .deadline])).any
      (fun x => x.shared.status = .cancelled ∧ x.shared.seen.cancelAsked = false) = true := by
    decide +kernel
  obtain ⟨x, hx, hCancelled⟩ := Option.any_eq_true _ _ |>.mp hRuns
  obtain ⟨hStatus, hAsked⟩ := of_decide_eq_true hCancelled
  rw [(h x (reach_of_run retried_start hx)).cancelled hStatus] at hAsked
  cases hAsked

end EpisodeSystem

end OrchestraAI.Core
