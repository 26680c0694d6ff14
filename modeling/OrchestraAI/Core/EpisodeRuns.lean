import OrchestraAI.Core.AgentLoop
import OrchestraAI.Library.LabelledSystem

/-! # The runs of an episode

The loop with what happens outside of it: `cancelRun`, `pauseRun` and `resumeRun` may come
whenever the loop waits; the deadline and the end of the grace of a `cancelRun` are timers,
which do not fire while a microtask is pending. Nothing reopens the run.

What is neither the status of a run nor its log is left alone by the ends of a run and by its
transitions, whoever makes them.
-/

namespace OrchestraAI.Core

open AsyncProgram

inductive Outside
  | deadline
  | graceElapses (k : Nat)
  | cancelRun (reason : String)
  | pauseRun
  | resumeRun
  deriving DecidableEq

def idle : Option Wait → Bool
  | some t => t.io
  | none => true

def outside : Outside → Option Wait → Episode → Option Episode
  | .deadline, stands, s => if idle stands && s.deadlineTimer then some s.deadline else none
  | .graceElapses k, stands, s =>
    match s.cancelling[k]? with
    | some reason =>
      if idle stands then
        some ({ s with cancelling := s.cancelling.eraseIdx k }.graceElapses reason)
      else none
    | none => none
  | .cancelRun reason, _, s => some (s.cancelRun reason)
  | .pauseRun, _, s => some s.pauseRun
  | .resumeRun, _, s => some s.resumeRun

def ends : (t : Wait) → t.Ans → Episode → Bool
  | .held, HoldEnd.released, s => s.pause ≠ .paused
  | .held, HoldEnd.aborted, s => s.abort
  | _, _, _ => true

abbrev EpisodeSystem := System Episode Op Op.Res Wait Wait.Ans LoopError Unit

abbrev EpisodeLabel := Label Wait Wait.Ans Outside

namespace EpisodeSystem

def step (x : EpisodeSystem) (l : EpisodeLabel) : Option EpisodeSystem :=
  AsyncProgram.step exec ends outside x l

/-- An episode that begins: its run is live, not over, and marked as running. -/
structure Start (c : Settings) (entry : Loop.Entry) (x : EpisodeSystem) : Prop where
  prog : x.prog = Loop.episode c entry
  live : x.shared.live = true
  status : x.shared.status.terminal = false
  machine : x.shared.machine.terminal = false
  abort : x.shared.abort = false
  log : x.shared.log = []
  cancelling : x.shared.cancelling = []
  seen : x.shared.seen = .nothing

def plainSettings : Settings where
  maxSteps := 5
  maxToolCalls := 10
  maxRetries := 2
  live := false
  hasAdapter := true
  streams := false
  retention := false
  persists := false
  allowCompaction := true
  isModelAllowed _ := true
  budgetWarningThreshold := 4 / 5
  budgetCriticalThreshold := 9 / 10
  contextWarningThreshold := 4 / 5
  userMessage := "hello"
  providerId := "demo"
  heuristicToolCall := none

def smallModel : ModelDef := ⟨"small", "demo", none, .healthy, 1000, some 1⟩

def retriedEpisode : Episode where
  status := .retrying
  machine := .retrying
  abort := false
  running := true
  recoveryInProgress := false
  deadlineTimer := true
  timeoutMs := 1000
  budget := ⟨0, 1, 0, 100000⟩
  currentStep := 0
  lastToolEffect := none
  log := []
  live := true
  data :=
    { currentModel := some "small"
      modelHealth := .healthy
      providerModel := some smallModel
      modelCalls := []
      toolCalls := 0
      retries := 0
      triedModels := []
      heuristicToolUsed := false
      recentToolCalls := []
      assistantMessages := []
      history := [.user "hello"]
      currentTokens := 0
      maximumTokens := 8000
      totalSteps := 0 }
  pause := .running
  cancelling := []
  seen := .nothing

def retried : EpisodeSystem := ⟨retriedEpisode, Loop.episode plainSettings ⟨true, 0⟩⟩

theorem retried_start : Start plainSettings ⟨true, 0⟩ retried :=
  ⟨rfl, rfl, rfl, rfl, rfl, rfl, rfl, rfl⟩

/-- What each wait is answered: the provider says `text`, and the other waits bring little. -/
def answers (text : String) : (t : Wait) → t.Ans
  | .contextBuilt | .contextAdded | .cacheWritten | .memoryWritten | .durableWritten => .ok ()
  | .memorySearched => .ok []
  | .promptCompiled _ => .ok 10
  | .models => .ok [smallModel]
  | .model _ => .ok (some smallModel)
  | .routed _ => .ok ⟨"small", false, true, 0⟩
  | .compressed _ => .ok []
  | .prefixInvalidated => .ok false
  | .cacheRead => .ok none
  | .semanticLookedUp => none
  | .admitted _ => .cleared true
  | .streamOpened => (0, ⟨none, 10⟩)
  | .streamed .. => .ok ⟨false, none⟩
  | .completed .. =>
    .ok (⟨text, [], none, none,
      ⟨⟨.value (some 10), .value (some 5), .undefined, .undefined, .undefined⟩, .undefined, none⟩⟩,
      ⟨none, 10⟩)
  | .held => .released
  | .handled _ => .error ⟨false, none, "no result"⟩
  | .verified => []
  | .memoryRead | .semanticStored | .unavailableMarked | .rejected | .closing | .persisted
  | .backoff _ => ()

def toProvider : List EpisodeLabel :=
  List.replicate 11 .tick ++ .resume (answers "hello") :: List.replicate 5 .tick

end EpisodeSystem

def Op.free : Op → Prop
  | .addCost _ | .addLatency _ => False
  | _ => True

/-- Neither the status nor the log, nor what the end of a run clears, nor the step. -/
structure Kept {β : Type} (part : Run → β) : Prop where
  status : ∀ r machine status, part { r with machine := machine, status := status } = part r
  emit : ∀ r event, part (Run.emit r event) = part r
  retire : ∀ r, part (Run.retire r) = part r
  stopped : ∀ r : Run, part { r with running := false } = part r
  started : ∀ r : Run, part { r with currentStep := r.currentStep + 1 } = part r

namespace Kept

variable {β : Type} {part : Run → β}

theorem of_transition (h : Kept part) {r t : Run} {next : TaskStatus}
    (hMove : r.transition next = some t) : part t = part r := by
  rw [Run.transition_frame hMove]
  exact h.status r _ _

theorem forced (h : Kept part) (r : Run) (next : TaskStatus) :
    part ((r.transition next).getD (r.force next)) = part r := by
  cases hMove : r.transition next with
  | none => exact h.status r _ _
  | some t => exact h.of_transition hMove

theorem transition (h : Kept part) (s : Episode) (next : TaskStatus) :
    part (s.transition next).2.toRun = part s.toRun := by
  rw [Episode.transition]
  cases hMove : s.toRun.transition next with
  | none => rfl
  | some r => exact h.of_transition hMove

theorem toObserving (h : Kept part) (s : Episode) :
    part s.toObserving.2.toRun = part s.toRun := by
  rw [Episode.toObserving]
  split
  · split
    · rename_i routed hSame
      have hRouted := h.transition s .executing
      rw [hSame] at hRouted
      exact (h.transition routed _).trans hRouted
    · exact h.transition s _
  · exact h.transition s _

theorem moved (h : Kept part) (s : Episode) (next : TaskStatus) :
    part (s.moved next).toRun = part s.toRun := by
  rw [Episode.moved]
  cases hMove : s.toRun.transition next with
  | none => rfl
  | some r => exact h.of_transition hMove

theorem noteRefused (s : Episode) (next : TaskStatus) : (s.noteRefused next).toRun = s.toRun := by
  rw [Episode.noteRefused]
  split
  · rfl
  · rfl

theorem completeRun (h : Kept part) (s : Episode) (summary : Option String) :
    part (s.completeRun summary).2.toRun = part s.toRun := by
  rw [Episode.completeRun]
  split
  · rfl
  · cases hDone : s.toRun.complete summary with
    | none => rfl
    | some r =>
      obtain ⟨routed, hRouted, hRest⟩ := Option.bind_eq_some_iff.mp hDone
      obtain ⟨done, hEnded, rfl⟩ := Option.map_eq_some_iff.mp hRest
      have hBack : part routed = part s.toRun := by
        rw [Run.routeBack] at hRouted
        split at hRouted
        · exact h.of_transition hRouted
        · rw [Option.some.inj hRouted]
      calc part (done.reportCompleted summary).retire
          = part (done.reportCompleted summary) := h.retire _
        _ = part done := h.emit _ _
        _ = part routed := h.of_transition hEnded
        _ = part s.toRun := hBack

theorem cancelled (h : Kept part) (r : Run) (reason : String) : part (r.cancelled reason) = part r :=
  (h.emit _ _).trans (h.forced r .cancelled)

theorem cancelledRun (h : Kept part) (s : Episode) (reason : String) :
    part (s.cancelledRun reason).toRun = part s.toRun := by
  rw [Episode.cancelledRun]
  split
  · rfl
  · exact (h.retire _).trans (h.cancelled _ _)

theorem failRun (h : Kept part) (s : Episode) (error : RunError) :
    part (s.failRun error).toRun = part s.toRun := by
  rw [Episode.failRun]
  split
  · rfl
  · refine (h.retire _).trans ?_
    rw [Run.fail]
    split
    · exact h.cancelled _ _
    · dsimp only
      split
      · exact ((h.emit _ _).trans (h.forced (s.toRun.emit _) .failed)).trans (h.emit _ _)
      · exact (h.emit _ _).trans (h.forced s.toRun .failed)

theorem exec (h : Kept part) {o : Op} (hFree : o.free) (s : Episode) :
    part (exec o s).2.toRun = part s.toRun := by
  cases o with
  | addCost => exact hFree.elim
  | addLatency => exact hFree.elim
  | emit type => exact h.emit _ _
  | reportBudgetExceeded => exact h.emit _ _
  | startStep => exact h.started _
  | transition next => exact h.transition s next
  | toObserving => exact h.toObserving s
  | holdForPause =>
    change part s.holdForPause.toRun = _
    rw [Episode.holdForPause]
    dsimp only
    split
    · exact (h.emit _ _).trans (h.moved { s with pause := s.pause.settlePause } .paused)
    · rfl
  | completeRun summary => exact h.completeRun s summary
  | cancelledRun reason => exact h.cancelledRun s reason
  | failRun error => exact h.failRun s error
  | settle => exact h.retire _
  | _ => rfl

theorem leavePause (h : Kept part) (s : Episode) : part s.leavePause.toRun = part s.toRun := by
  rw [Episode.leavePause]
  split
  · exact h.moved s _
  · exact h.moved s _
  · rfl

theorem goOn (h : Kept part) (s : Episode) : part s.goOn.toRun = part s.toRun := by
  rw [Episode.goOn]
  split
  · exact h.moved s _
  · exact h.moved s _
  · rfl

def aborted (r : Run) : Run := { r with abort := true, deadlineTimer := false }

theorem outside (h : Kept part) {i : Outside} {stands : Option Wait} {s t : Episode}
    (hStep : Core.outside i stands s = some t) :
    part t.toRun = part s.toRun ∨ part t.toRun = part (aborted s.toRun) := by
  cases i with
  | deadline =>
    simp only [Core.outside] at hStep
    split at hStep
    · cases hStep
      exact .inr (h.failRun
        { s with
          abort := true
          deadlineTimer := false
          seen := { s.seen with timedOut := true } } _)
    · cases hStep
  | graceElapses k =>
    simp only [Core.outside] at hStep
    split at hStep
    · split at hStep
      · cases hStep
        refine .inl ?_
        let left : Episode := { s with cancelling := s.cancelling.eraseIdx k }
        exact (h.stopped _).trans (h.cancelledRun left _)
      · cases hStep
    · cases hStep
  | cancelRun reason =>
    cases hStep
    rw [Episode.cancelRun]
    split
    · exact .inl rfl
    · exact .inr rfl
  | pauseRun =>
    cases hStep
    refine .inl ?_
    rw [Episode.pauseRun]
    split
    · exact (h.emit _ _).trans (h.moved { s with pause := s.pause.requestPause } .pausing)
    · rfl
  | resumeRun =>
    cases hStep
    refine .inl ?_
    rw [Episode.resumeRun]
    split
    · exact (h.emit _ _).trans ((h.goOn _).trans (h.leavePause _))
    · rfl

end Kept

end OrchestraAI.Core
