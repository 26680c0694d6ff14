import Mathlib.Order.Interval.Set.Defs
import OrchestraAI.Core.HistoryRules

/-! # The limits of a run

How many steps an episode executes and how many tools it starts. The steps are counted where they
begin. The tool calls are counted one by one, but the limit is tested once for each answer of the
model, of which up to three calls are then executed, and not at all for the heuristic call.
-/

namespace OrchestraAI.Core

open AsyncProgram LabelledSystem

def Call.isTool : Call → Bool
  | .tool _ => true
  | .model .. => false

def Episode.toolsStarted (s : Episode) : Nat := s.seen.calls.countP Call.isTool

def Op.turnsToTools : Op → Bool
  | .transition .waitingForTool => true
  | _ => false

/-- The calls that a run turns to: those of the answer it has just noted, or else the heuristic
one. -/
def LoopData.selected (d : LoopData) : Nat :=
  match d.history.getLast? with
  | some (.assistant _ calls) => max 1 calls.length
  | _ => 1

theorem selected_say (d : LoopData) (text : String) (calls : List ToolRequest) :
    (d.say (.assistant text calls)).selected = max 1 calls.length := by
  unfold LoopData.selected LoopData.say
  rw [List.getLast?_concat]

theorem selected_pos (d : LoopData) : 1 ≤ d.selected := by
  unfold LoopData.selected
  split
  · exact le_max_left _ _
  · exact le_rfl

def Op.uncounted : Op → Prop
  | .update f => ∀ d, (f d).toolCalls = d.toolCalls
  | .call (.tool _) | .startStep => False
  | _ => True

structure Same (s t : Episode) : Prop where
  toolCalls : t.data.toolCalls = s.data.toolCalls
  started : t.toolsStarted = s.toolsStarted
  steps : t.currentStep = s.currentStep

theorem Same.refl (s : Episode) : Same s s := ⟨rfl, rfl, rfl⟩

theorem Same.trans {s t u : Episode} (h : Same s t) (h' : Same t u) : Same s u where
  toolCalls := h'.toolCalls.trans h.toolCalls
  started := h'.started.trans h.started
  steps := h'.steps.trans h.steps

theorem transition_currentStep {r t : Run} {next : TaskStatus} (h : r.transition next = some t) :
    t.currentStep = r.currentStep := by
  rw [Run.transition_frame h]

theorem same_transition (s : Episode) (next : TaskStatus) : Same s (s.transition next).2 := by
  unfold Episode.transition
  cases h : s.toRun.transition next with
  | none => exact ⟨rfl, rfl, rfl⟩
  | some r => exact ⟨rfl, rfl, transition_currentStep h⟩

theorem same_moved (s : Episode) (next : TaskStatus) : Same s (s.moved next) := by
  unfold Episode.moved
  cases h : s.toRun.transition next with
  | none => exact .refl s
  | some r => exact ⟨rfl, rfl, transition_currentStep h⟩

theorem getD_currentStep (r : Run) (next : TaskStatus) :
    ((r.transition next).getD (r.force next)).currentStep = r.currentStep := by
  cases h : r.transition next with
  | none => rfl
  | some t => exact transition_currentStep h

theorem fail_currentStep (r : Run) (error : RunError) :
    (r.fail error).currentStep = r.currentStep := by
  unfold Run.fail
  split
  · exact getD_currentStep r .cancelled
  · dsimp only
    split
    · exact getD_currentStep (r.emit _) .failed
    · exact getD_currentStep r .failed

theorem complete_currentStep {r t : Run} {summary : Option String}
    (h : r.complete summary = some t) : t.currentStep = r.currentStep := by
  obtain ⟨routed, hRouted, h⟩ := Option.bind_eq_some_iff.mp h
  obtain ⟨done, hDone, rfl⟩ := Option.map_eq_some_iff.mp h
  have hBack : routed.currentStep = r.currentStep := by
    unfold Run.routeBack at hRouted
    split at hRouted
    · exact transition_currentStep hRouted
    · rw [Option.some.inj hRouted]
  exact (transition_currentStep hDone).trans hBack

theorem same_ended (s : Episode) (next : TaskStatus) {r : Run}
    (h : r.currentStep = s.currentStep) : Same s ((s.noteRefused next).retired r) := by
  unfold Episode.noteRefused
  split
  · exact ⟨rfl, rfl, h⟩
  · exact ⟨rfl, rfl, h⟩

theorem same_cancelledRun (s : Episode) (reason : String) : Same s (s.cancelledRun reason) := by
  unfold Episode.cancelledRun
  split
  · exact .refl s
  · exact same_ended s _ (getD_currentStep s.toRun .cancelled)

theorem same_failRun (s : Episode) (error : RunError) : Same s (s.failRun error) := by
  unfold Episode.failRun
  split
  · exact .refl s
  · exact same_ended s _ (fail_currentStep s.toRun error)

theorem same_completeRun (s : Episode) (summary : Option String) :
    Same s (s.completeRun summary).2 := by
  unfold Episode.completeRun
  split
  · exact .refl s
  · cases h : s.toRun.complete summary with
    | none => exact ⟨rfl, rfl, rfl⟩
    | some r =>
      have hSteps : r.currentStep = s.currentStep := complete_currentStep h
      exact ⟨rfl, rfl, hSteps⟩

theorem same_toObserving (s : Episode) : Same s s.toObserving.2 := by
  unfold Episode.toObserving
  split
  · have hRouted := same_transition s .executing
    split
    · rename_i routed h
      rw [h] at hRouted
      exact hRouted.trans (same_transition routed .observing)
    · exact hRouted
  · exact same_transition s .observing

theorem same_holdForPause (s : Episode) : Same s s.holdForPause := by
  unfold Episode.holdForPause
  dsimp only
  split
  · have hMoved := same_moved { s with pause := s.pause.settlePause } .paused
    exact ⟨hMoved.toolCalls, hMoved.started, hMoved.steps⟩
  · exact ⟨rfl, rfl, rfl⟩

theorem same_exec {o : Op} (h : o.uncounted) (s : Episode) : Same s (exec o s).2 := by
  cases o with
  | update f => exact ⟨h s.data, rfl, rfl⟩
  | startStep => exact h.elim
  | call what =>
    cases what with
    | tool call => exact h.elim
    | model step model =>
      refine ⟨rfl, ?_, rfl⟩
      unfold exec Episode.started Episode.toolsStarted
      rw [List.countP_append]
      rfl
  | transition next => exact same_transition s next
  | toObserving => exact same_toObserving s
  | holdForPause => exact same_holdForPause s
  | completeRun summary => exact same_completeRun s summary
  | cancelledRun reason => exact same_cancelledRun s reason
  | failRun error => exact same_failRun s error
  | _ => exact ⟨rfl, rfl, rfl⟩

theorem same_leavePause (s : Episode) : Same s s.leavePause := by
  unfold Episode.leavePause
  split
  · exact same_moved s _
  · exact same_moved s _
  · exact .refl s

theorem same_goOn (s : Episode) : Same s s.goOn := by
  unfold Episode.goOn
  split
  · exact same_moved s _
  · exact same_moved s _
  · exact .refl s

theorem same_outside {i : Outside} {stands : Option Wait} {s t : Episode}
    (h : outside i stands s = some t) : Same s t := by
  cases i with
  | deadline =>
    simp only [outside] at h
    split at h
    · cases h
      have hFailed := same_failRun
        { s with
          abort := true
          deadlineTimer := false
          seen := { s.seen with timedOut := true } } (Registry.timeoutError s.timeoutMs)
      exact ⟨hFailed.toolCalls, hFailed.started, hFailed.steps⟩
    · cases h
  | graceElapses k =>
    simp only [outside] at h
    split at h
    · split at h
      · cases h
        have hEnded := same_cancelledRun { s with cancelling := s.cancelling.eraseIdx k }
        exact ⟨(hEnded _).toolCalls, (hEnded _).started, (hEnded _).steps⟩
      · cases h
    · cases h
  | cancelRun reason =>
    cases h
    unfold Episode.cancelRun
    split
    · exact ⟨rfl, rfl, rfl⟩
    · exact ⟨rfl, rfl, rfl⟩
  | pauseRun =>
    cases h
    unfold Episode.pauseRun
    dsimp only
    split
    · have hMoved := same_moved { s with pause := s.pause.requestPause } .pausing
      exact ⟨hMoved.toolCalls, hMoved.started, hMoved.steps⟩
    · exact ⟨rfl, rfl, rfl⟩
  | resumeRun =>
    cases h
    unfold Episode.resumeRun
    dsimp only
    split
    · have hLeft := same_leavePause { s with pause := s.pause.requestResume.settleResume }
      have hGone := hLeft.trans (same_goOn _)
      exact ⟨hGone.toolCalls, hGone.started, hGone.steps⟩
    · exact ⟨rfl, rfl, rfl⟩

/-- The contract for the limits, for a run that turns to no more tools than are left if `fits`. It
has counted `calls` tool calls before, and starts steps up to `steps`. -/
def limits (c : Settings) (fits : Prop) (calls steps : Nat) :
    Contract Episode Op Wait Wait.Ans where
  safe o s :=
    match o with
    | .update f => (f s.data).toolCalls = s.data.toolCalls ∨
        (fits → s.data.toolCalls < c.maxToolCalls) ∧
          (f s.data).toolCalls = s.data.toolCalls + 1
    | .call (.tool _) => calls + s.toolsStarted < s.data.toolCalls
    | .startStep => s.currentStep < steps
    | _ => True
  allowed o s :=
    fits → o.turnsToTools = true → s.data.toolCalls + s.data.selected ≤ c.maxToolCalls
  rely _ s _ s' := Same s s'

namespace Loop

variable {α β : Type} {c : Settings} {fits : Prop} {calls steps : Nat} {s : Episode}
  {Q : Except LoopError α → Episode → Prop}

abbrev Uncounted (p : Loop α) : Prop := p.All Op.uncounted fun _ => True

theorem Toolless.uncounted {p : Loop α} (h : Toolless p) : Uncounted p := by
  refine h.mono (fun o ho => ?_) fun _ _ => trivial
  cases o with
  | update f => exact ho
  | call what =>
    cases what with
    | tool call => exact ho
    | model step model => trivial
  | startStep => exact ho
  | _ => trivial

theorem Placid.uncounted {p : Loop α} (h : Placid p) : Uncounted p := by
  refine h.mono (fun o ho => ?_) fun _ _ => trivial
  cases o with
  | update f => exact fun d => (ho d).2
  | call what => exact ho.elim
  | startStep => exact ho
  | _ => trivial

theorem Uncounted.same {p : Loop α} (h : Uncounted p) :
    Meets (limits c fits calls steps) exec p s fun _ t => Same s t := by
  refine .of_all (I := Same s) h (.refl s) (fun o t ho ht _ => ⟨?_, ht.trans (same_exec ho t)⟩)
    (fun _ _ _ _ _ ht hRely => ht.trans hRely) fun _ _ ht => ht
  cases o with
  | update f => exact .inl (ho t.data)
  | call what =>
    cases what with
    | tool call => exact ho.elim
    | model step model => trivial
  | startStep => exact ho.elim
  | _ => trivial

theorem Uncounted.followed {p : Loop β} {f : β → Loop α} (hp : Uncounted p)
    (hf : ∀ b t, Same s t → Meets (limits c fits calls steps) exec (f b) t Q)
    (hThrown : ∀ e t, Same s t → Q (.error e) t) :
    Meets (limits c fits calls steps) exec (p >>= f) s Q := by
  refine .bind (hp.same.mono fun r t ht => ?_)
  cases r with
  | ok b => exact hf b t ht
  | error e => exact hThrown e t ht

theorem op_followed {o : Op} {f : o.Res → Loop α} (hSafe : (limits c fits calls steps).safe o s)
    (hf : Meets (limits c fits calls steps) exec (f (exec o s).1) (exec o s).2 Q) :
    Meets (limits c fits calls steps) exec (Prog.op o Prog.done >>= f) s Q :=
  fun _ => ⟨hSafe, hf⟩

def Counted (calls : Nat) (s : Episode) : Prop := calls + s.toolsStarted ≤ s.data.toolCalls

theorem Counted.same {t : Episode} (h : Counted calls s) (hSame : Same s t) : Counted calls t := by
  unfold Counted
  rw [hSame.started, hSame.toolCalls]
  exact h

def Counts (c : Settings) (fits : Prop) (calls steps : Nat) (p : Loop α) : Prop :=
  ∀ s, Counted calls s →
    Meets (limits c fits calls steps) exec p s fun _ t =>
      Counted calls t ∧ t.currentStep = s.currentStep

theorem Uncounted.counts {p : Loop α} (h : Uncounted p) : Counts c fits calls steps p :=
  fun _ hs => h.same.mono fun _ _ ht => ⟨hs.same ht, ht.steps⟩

theorem Counts.bind {p : Loop β} {f : β → Loop α} (hp : Counts c fits calls steps p)
    (hf : ∀ b, Counts c fits calls steps (f b)) : Counts c fits calls steps (p >>= f) := by
  intro s hs
  refine .bind ((hp s hs).mono fun r t ht => ?_)
  cases r with
  | ok b =>
    refine (hf b t ht.1).mono fun _ u hu => ?_
    exact ⟨hu.1, hu.2.trans ht.2⟩
  | error e => exact ht

theorem counts_ite {b : Prop} [Decidable b] {p q : Loop α} (hp : Counts c fits calls steps p)
    (hq : Counts c fits calls steps q) : Counts c fits calls steps (if b then p else q) := by
  split
  · exact hp
  · exact hq

theorem counts_pure (a : α) : Counts c fits calls steps (pure a : Loop α) := fun _ hs => ⟨hs, rfl⟩

theorem counts_throw (e : LoopError) : Counts c fits calls steps (.throw e : Loop α) :=
  fun _ hs => ⟨hs, rfl⟩

structure Executed (calls : Nat) (s t : Episode) : Prop where
  counted : Counted calls t
  toolCalls : t.data.toolCalls = s.data.toolCalls
  steps : t.currentStep = s.currentStep

theorem executed_of_same {t : Episode} (hs : calls + s.toolsStarted < s.data.toolCalls)
    (h : Same s t) : Executed calls s t :=
  ⟨Counted.same (Nat.le_of_lt hs) h, h.toolCalls, h.steps⟩

theorem Executed.same {t u : Episode} (h : Executed calls s t) (hSame : Same t u) :
    Executed calls s u :=
  ⟨h.counted.same hSame, hSame.toolCalls.trans h.toolCalls, hSame.steps.trans h.steps⟩

theorem executed_call {t : Episode} (hs : calls + s.toolsStarted < s.data.toolCalls)
    (hSame : Same s t) (call : ToolRequest) :
    Executed calls s (exec (.call (.tool call)) t).2 := by
  refine ⟨?_, hSame.toolCalls, hSame.steps⟩
  have hOne : (exec (.call (.tool call)) t).2.toolsStarted = t.toolsStarted + 1 := by
    unfold exec Episode.started Episode.toolsStarted
    rw [List.countP_append]
    rfl
  unfold Counted
  rw [hOne, hSame.started]
  have hCalls : (exec (.call (.tool call)) t).2.data.toolCalls = s.data.toolCalls :=
    hSame.toolCalls
  omega

theorem run_executed (call : ToolRequest) (hs : calls + s.toolsStarted < s.data.toolCalls) :
    Meets (limits c fits calls steps) exec (run call) s fun _ t => Executed calls s t := by
  refine Uncounted.followed (all_wait trivial) (fun admission t ht => ?_) fun _ _ ht =>
    executed_of_same hs ht
  have hPlain {p : Loop ToolResult} (hp : Uncounted p) :
      Meets (limits c fits calls steps) exec p t fun _ u => Executed calls s u :=
    hp.same.mono fun _ _ hu => executed_of_same hs (ht.trans hu)
  cases admission with
  | refused result => exact hPlain trivial
  | needsApproval result => exact hPlain (.bind (all_emitAll (fun _ => trivial) _) fun _ => trivial)
  | stored result => exact hPlain (.bind (all_emit trivial) fun _ => trivial)
  | cleared hasHandler =>
    refine Uncounted.followed (all_look trivial) (fun v u hu => ?_) fun _ _ hu =>
      executed_of_same hs (ht.trans hu)
    have hHere := executed_of_same hs (ht.trans hu)
    split
    · exact hHere
    · split
      · exact hHere
      · refine Uncounted.followed (all_emit trivial) (fun _ w hw => ?_) fun _ _ hw =>
          hHere.same hw
        have hSame : Same s w := (ht.trans hu).trans hw
        have hRoom : calls + w.toolsStarted < w.data.toolCalls := by
          rw [hSame.started, hSame.toolCalls]
          exact hs
        have hCalled := executed_call hs hSame call
        refine op_followed hRoom ?_
        refine Uncounted.followed (all_wait trivial) (fun answer x hx => ?_) fun _ _ hx =>
          hCalled.same hx
        have hRest {p : Loop ToolResult} (hp : Uncounted p) :
            Meets (limits c fits calls steps) exec p x fun _ y => Executed calls s y :=
          hp.same.mono fun _ _ hy => hCalled.same (hx.trans hy)
        cases answer with
        | ok given =>
          exact hRest (.bind (all_emit trivial) fun _ => .bind (all_update fun _ => rfl) fun _ =>
            .bind (all_addCost trivial) fun _ => trivial)
        | error result =>
          exact hRest (.bind (all_emit trivial) fun _ => .bind (all_update fun _ => rfl) fun _ =>
            trivial)

theorem execute_executed (call : ToolRequest) (hs : calls + s.toolsStarted < s.data.toolCalls) :
    Meets (limits c fits calls steps) exec (execute call) s fun _ t => Executed calls s t := by
  refine Uncounted.followed (p := .op _ _) ⟨trivial, fun _ => trivial⟩ (fun _ t ht => ?_)
    fun _ _ ht => executed_of_same hs ht
  refine Uncounted.followed (all_wait trivial) (fun _ u hu => ?_)
    fun _ _ hu => executed_of_same hs (ht.trans hu)
  have hSame : Same s u := ht.trans hu
  have hRoom : calls + u.toolsStarted < u.data.toolCalls := by
    rw [hSame.started, hSame.toolCalls]
    exact hs
  refine .bind ((run_executed call hRoom).mono fun r w hw => ?_)
  have hDone : Executed calls s w :=
    ⟨hw.counted, hw.toolCalls.trans hSame.toolCalls, hw.steps.trans hSame.steps⟩
  cases r with
  | error e => exact hDone
  | ok result =>
    have hVerified : Uncounted (wait .verified >>= fun types => emitAll types >>= fun _ =>
        pure result : Loop ToolResult) :=
      .bind (all_wait trivial) fun _ => .bind (all_emitAll (fun _ => trivial) _) fun _ => trivial
    exact hVerified.same.mono fun _ _ hx => hDone.same hx

theorem runCalls_counts (requests : List ToolRequest) (hs : Counted calls s)
    (hRoom : fits → s.data.toolCalls + requests.length ≤ c.maxToolCalls) :
    Meets (limits c fits calls steps) exec (runCalls c requests) s fun _ t =>
      Counted calls t ∧ t.currentStep = s.currentStep := by
  induction requests generalizing s with
  | nil => exact ⟨hs, rfl⟩
  | cons call requests ih =>
    rw [List.length_cons] at hRoom
    have hOne : fits → s.data.toolCalls < c.maxToolCalls := fun hFits => by
      have := hRoom hFits
      omega
    refine op_followed (.inr ⟨hOne, rfl⟩) ?_
    refine .bind ((execute_executed call (Nat.lt_succ_of_le hs)).mono fun r t ht => ?_)
    have hCalls : t.data.toolCalls = s.data.toolCalls + 1 := ht.toolCalls
    have hSteps : t.currentStep = s.currentStep := ht.steps
    cases r with
    | error e => exact ⟨ht.counted, hSteps⟩
    | ok res =>
      have hKeeps (u : Episode) (hu : Same t u) :
          Counted calls u ∧ u.currentStep = s.currentStep :=
        ⟨ht.counted.same hu, hu.steps.trans hSteps⟩
      refine Uncounted.followed (all_update fun _ => rfl) (fun _ u hu => ?_) fun _ u => hKeeps u
      refine Uncounted.followed (addContext_modest _).mild.toolless.uncounted (fun _ v hv => ?_)
        fun _ v hv => hKeeps v (hu.trans hv)
      refine Uncounted.followed
        (all_when (.bind (all_emit trivial) fun _ => all_asked trivial)) (fun _ w hw => ?_)
        fun _ w hw => hKeeps w ((hu.trans hv).trans hw)
      have hSame : Same t w := (hu.trans hv).trans hw
      refine (ih (hKeeps w hSame).1 fun hFits => ?_).mono fun _ x hx =>
        ⟨hx.1, hx.2.trans (hKeeps w hSame).2⟩
      have hLeft := hRoom hFits
      rw [hSame.toolCalls, hCalls]
      omega

theorem turn_followed {f : Unit → Loop α}
    (hf : ∀ t, (fits → s.data.toolCalls + s.data.selected ≤ c.maxToolCalls) → Same s t →
      Meets (limits c fits calls steps) exec (f ()) t Q)
    (hThrown : ∀ e t, Same s t → Q (.error e) t) :
    Meets (limits c fits calls steps) exec (Loop.transition .waitingForTool >>= f) s Q := by
  refine fun hAllowed => ⟨trivial, ?_⟩
  have hMoved := same_transition s .waitingForTool
  refine Uncounted.followed (all_ofExcept _) (fun _ t ht => ?_) fun e t ht => ?_
  · exact hf t (fun hFits => hAllowed hFits rfl) (hMoved.trans ht)
  · exact hThrown e t (hMoved.trans ht)

theorem callModel_counts (step : Nat) (continuation : Bool) :
    Counts c fits calls steps (callModel c step continuation) :=
  (callModel_toolless _ _).uncounted.counts

theorem toolLoop_counts (step guard : Nat) (result : ModelResult) :
    Counts c fits calls steps (toolLoop c step guard result) := by
  induction guard generalizing result with
  | zero => exact counts_pure _
  | succ guard ih =>
    refine counts_ite (counts_pure _) <| .bind (Uncounted.counts (all_look trivial)) fun v =>
      counts_ite (counts_pure _) <| counts_ite (counts_throw _) fun s hs => ?_
    have hSaid : Same s
        (exec (.update fun d => d.say (.assistant result.text (result.toolCalls.take 3))) s).2 :=
      ⟨rfl, rfl, rfl⟩
    refine op_followed (.inl rfl) ?_
    have hNoted : ∀ t, Same s t → Counted calls t ∧ t.currentStep = s.currentStep :=
      fun t ht => ⟨hs.same ht, ht.steps⟩
    refine turn_followed (fun t hFits ht => ?_) fun _ t ht => hNoted t (hSaid.trans ht)
    refine Uncounted.followed (all_emitAll (fun _ => trivial) _) (fun _ u hu => ?_)
      fun _ u hu => hNoted u (hSaid.trans (ht.trans hu))
    have hSame : Same s u := hSaid.trans (ht.trans hu)
    have hRest : Counts c fits calls steps (do
        toObserving
        emit .executionStepCompleted
        transition .executing
        toolLoop c step guard (← callModel c step true)) :=
      .bind (Uncounted.counts (all_toObserving trivial)) fun _ =>
        .bind (Uncounted.counts (all_emit trivial)) fun _ =>
          .bind (Uncounted.counts (all_transition trivial)) fun _ =>
            .bind (callModel_counts _ _) fun _ => ih _
    refine .bind ((runCalls_counts _ (hNoted u hSame).1 fun h => ?_).mono fun r w hw => ?_)
    · have hSelected := hFits h
      rw [hSame.toolCalls]
      refine le_trans ?_ hSelected
      change _ ≤ s.data.toolCalls + LoopData.selected (s.data.say _)
      rw [selected_say]
      omega
    · cases r with
      | error e => exact ⟨hw.1, hw.2.trans hSame.steps⟩
      | ok _ =>
        exact (hRest w hw.1).mono fun _ x hx => ⟨hx.1, hx.2.trans (hw.2.trans hSame.steps)⟩

theorem assist_counts (step : Nat) (result : ModelResult) :
    Counts c fits calls steps (assist c step result) := by
  refine .bind (Uncounted.counts (all_look trivial)) fun v => ?_
  cases c.heuristicToolCall with
  | none => exact counts_pure _
  | some call =>
    refine counts_ite (fun s hs => ?_) (counts_pure _)
    have hUsed : Same s (exec (.update fun d => { d with heuristicToolUsed := true }) s).2 :=
      ⟨rfl, rfl, rfl⟩
    have hNoted : ∀ t, Same s t → Counted calls t ∧ t.currentStep = s.currentStep :=
      fun t ht => ⟨hs.same ht, ht.steps⟩
    refine op_followed (.inl rfl) ?_
    refine turn_followed (fun t hFits ht => ?_) fun _ t ht => hNoted t (hUsed.trans ht)
    refine Uncounted.followed (all_emit trivial) (fun _ u hu => ?_)
      fun _ u hu => hNoted u (hUsed.trans (ht.trans hu))
    have hSame : Same s u := hUsed.trans (ht.trans hu)
    have hOne : fits → u.data.toolCalls < c.maxToolCalls := fun h => by
      have hSelected := hFits h
      have hPos := selected_pos (exec (.update fun d => { d with heuristicToolUsed := true }) s).2.data
      rw [hSame.toolCalls]
      exact Nat.lt_of_lt_of_le (Nat.lt_add_of_pos_right hPos) hSelected
    refine op_followed (.inr ⟨hOne, rfl⟩) (op_followed (.inl rfl) ?_)
    refine .bind ((execute_executed call (Nat.lt_succ_of_le (hNoted u hSame).1)).mono
      fun r w hw => ?_)
    have hSteps : w.currentStep = s.currentStep := hw.steps.trans hSame.steps
    have hRest (res : ToolResult) : Counts c fits calls steps (do
        update fun d => d.say (.tool call.id call.name res.evidence)
        addContext [estimateTokens res.evidence + 20]
        toObserving
        transition .executing
        callModel c step true) :=
      .bind (Uncounted.counts (all_update fun _ => rfl)) fun _ =>
        .bind (addContext_modest _).mild.toolless.uncounted.counts fun _ =>
          .bind (Uncounted.counts (all_toObserving trivial)) fun _ =>
            .bind (Uncounted.counts (all_transition trivial)) fun _ => callModel_counts _ _
    cases r with
    | error e => exact ⟨hw.counted, hSteps⟩
    | ok res => exact (hRest res w hw.counted).mono fun _ x hx => ⟨hx.1, hx.2.trans hSteps⟩

theorem finishStep_uncounted (result : ModelResult) : Uncounted (finishStep c result) := by
  refine .bind (all_toObserving trivial) fun _ => .bind (all_update fun _ => rfl) fun _ =>
    .bind (all_update fun _ => rfl) fun _ => .bind (all_emit trivial) fun _ =>
      .bind (all_look trivial) fun v => .bind (all_when (all_wait trivial)) fun _ =>
        .bind (all_when (.bind (all_emit trivial) fun _ => all_asked trivial)) fun _ => ?_
  cases evaluateCompletion v.data result with
  | some summary => exact .bind (all_completeRun trivial) fun _ => trivial
  | none => exact .bind (all_transition trivial) fun _ => trivial

theorem counts_attempt {p : Loop α} (hp : Counts c fits calls steps p) :
    Counts c fits calls steps (attempt p) := by
  intro s hs
  refine .tryCatch (.bind ((hp s hs).mono fun r t ht => ?_))
  cases r with
  | ok a => exact ht
  | error e => exact ht

theorem executeStep_counts (step : Nat) (hs : Counted calls s) (hLeft : s.currentStep < steps) :
    Meets (limits c fits calls steps) exec (executeStep c step) s fun _ t =>
      Counted calls t ∧ t.currentStep = s.currentStep + 1 := by
  refine op_followed hLeft ?_
  -- what follows the start of the step
  refine Counts.bind (Uncounted.counts (all_emit trivial)) (fun _ =>
    .bind (counts_attempt (callModel_counts _ _)) fun answer => ?_) _ hs
  cases answer with
  | error error => exact (recoverStep_mild error).toolless.uncounted.counts
  | ok result =>
    refine .bind (toolLoop_counts _ _ _) fun settled => ?_
    cases settled with
    | none => exact counts_pure _
    | some result =>
      exact .bind (Uncounted.counts (all_look trivial)) fun _ => counts_ite (counts_pure _) <|
        .bind (assist_counts _ _) fun _ => (finishStep_uncounted _).counts

theorem runSteps_counts (left step : Nat) (hs : Counted calls s)
    (hLeft : s.currentStep + left ≤ steps) :
    Meets (limits c fits calls steps) exec (runSteps c left step) s fun _ t => Counted calls t := by
  induction left generalizing step s with
  | zero => exact hs
  | succ left ih =>
    refine Uncounted.followed admitStep_placid.uncounted (fun admitted t ht => ?_)
      fun _ t ht => hs.same ht
    cases admitted with
    | false => exact hs.same ht
    | true =>
      refine Uncounted.followed (all_update fun _ => rfl) (fun _ u hu => ?_)
        fun _ u hu => (hs.same ht).same hu
      have hBefore : u.currentStep = s.currentStep := hu.steps.trans ht.steps
      refine .bind ((executeStep_counts _ ((hs.same ht).same hu) (by omega)).mono
        fun r v hv => ?_)
      cases r with
      | error e => exact hv.1
      | ok shouldContinue =>
        refine Uncounted.followed checkOptimizationTriggers_modest.mild.toolless.uncounted
          (fun _ w hw => ?_) fun _ w hw => hv.1.same hw
        cases shouldContinue with
        | false => exact hv.1.same hw
        | true =>
          refine Uncounted.followed goesOn_placid.uncounted (fun goes x hx => ?_)
            fun _ x hx => (hv.1.same hw).same hx
          cases goes with
          | false => exact (hv.1.same hw).same hx
          | true =>
            have hAfter : x.currentStep = s.currentStep + 1 := by
              rw [hx.steps, hw.steps, hv.2, hBefore]
            exact ih _ ((hv.1.same hw).same hx) (by omega)

theorem executeRun_counts (entry : Entry) (hs : Counted calls s)
    (hLeft : s.currentStep + (c.maxSteps - entry.startStep) ≤ steps) :
    Meets (limits c fits calls steps) exec (executeRun c entry) s fun _ t => Counted calls t := by
  refine Uncounted.followed (setUp_placid entry).uncounted (fun _ t ht => ?_)
    fun _ t ht => hs.same ht
  refine Uncounted.followed (all_update fun _ => rfl) (fun _ u hu => ?_)
    fun _ u hu => (hs.same ht).same hu
  have hBefore : u.currentStep = s.currentStep := hu.steps.trans ht.steps
  refine .bind ((runSteps_counts _ _ ((hs.same ht).same hu) (by omega)).mono fun r v hv => ?_)
  cases r with
  | error e => exact hv
  | ok settled =>
    cases settled with
    | none => exact hv
    | some last => exact (closeRun_placid last).uncounted.same.mono fun _ _ hw => hv.same hw

theorem episode_counts (entry : Entry) (hs : Counted calls s)
    (hLeft : s.currentStep + (c.maxSteps - entry.startStep) ≤ steps) :
    Meets (limits c fits calls steps) exec (episode c entry) s fun _ t => Counted calls t := by
  have hSettle : Uncounted (do wait .closing; Prog.op .settle Prog.done : Loop Unit) :=
    .bind (all_wait trivial) fun _ => ⟨trivial, fun _ => trivial⟩
  refine .bind (.tryCatch ((executeRun_counts entry hs hLeft).mono fun r t ht => ?_))
  cases r with
  | ok _ => exact hSettle.same.mono fun _ _ hu => ht.same hu
  | error error =>
    have hFail : Uncounted (do
        wait .rejected
        Prog.op (.failRun error.toRunError) Prog.done : Loop Unit) :=
      .bind (all_wait trivial) fun _ => ⟨trivial, fun _ => trivial⟩
    refine hFail.same.mono fun r u hu => ?_
    cases r with
    | ok _ => exact hSettle.same.mono fun _ _ hv => (ht.same hu).same hv
    | error e => exact ht.same hu

end Loop

namespace EpisodeSystem

variable {c : Settings} {entry : Loop.Entry} {fits : Prop} {calls steps : Nat} {x y : EpisodeSystem}

/-- When the run turns to its tools, there are as many calls left as it turns to. -/
def Fits (c : Settings) (x : EpisodeSystem) : EpisodeLabel → Prop
  | .tick =>
    x.prog.due.any Op.turnsToTools = true →
      x.shared.data.toolCalls + x.shared.data.selected ≤ c.maxToolCalls
  | _ => True

instance (x : EpisodeSystem) : ∀ l, Decidable (Fits c x l)
  | .tick => inferInstanceAs (Decidable (_ → _))
  | .resume _ | .env _ => inferInstanceAs (Decidable True)

structure Within (c : Settings) (fits : Prop) (calls steps : Nat) (s : Episode) : Prop where
  counted : Loop.Counted calls s
  bounded : fits → s.data.toolCalls ≤ max calls c.maxToolCalls
  steps : s.currentStep ≤ steps

theorem Within.same {s t : Episode} (h : Within c fits calls steps s) (hSame : Same s t) :
    Within c fits calls steps t where
  counted := h.counted.same hSame
  bounded hFits := hSame.toolCalls ▸ h.bounded hFits
  steps := hSame.steps ▸ h.steps

theorem Within.exec {s : Episode} {o : Op} (h : Within c fits calls steps s)
    (hSafe : (limits c fits calls steps).safe o s) : Within c fits calls steps (exec o s).2 := by
  cases o with
  | update f =>
    have hCounted : calls + s.toolsStarted ≤ s.data.toolCalls := h.counted
    obtain hSame | ⟨hLess, hOne⟩ := hSafe
    · exact h.same ⟨hSame, rfl, rfl⟩
    · refine ⟨?_, fun hFits => ?_, h.steps⟩
      · show calls + s.toolsStarted ≤ (f s.data).toolCalls
        omega
      · show (f s.data).toolCalls ≤ _
        have hBound := hLess hFits
        omega
  | call what =>
    cases what with
    | model step model => exact h.same (same_exec (o := .call (.model step model)) trivial s)
    | tool call =>
      exact ⟨(Loop.executed_call hSafe (.refl s) call).counted, h.bounded, h.steps⟩
  | startStep => exact ⟨h.counted, h.bounded, hSafe⟩
  | _ =>
    refine h.same (same_exec ?_ s)
    trivial

/-- The invariant: the counts are within the limits, and the loop keeps them there. -/
structure Limited (c : Settings) (fits : Prop) (calls steps : Nat) (x : EpisodeSystem) : Prop where
  within : Within c fits calls steps x.shared
  meets : Meets (limits c fits calls steps) exec x.prog x.shared fun _ t => Loop.Counted calls t

theorem Start.limited (h : Start c entry x) (fits : Prop) :
    Limited c fits x.shared.data.toolCalls (x.shared.currentStep + c.maxSteps) x := by
  have hNone : x.shared.toolsStarted = 0 := by
    unfold Episode.toolsStarted
    rw [h.seen]
    rfl
  have hCounted : Loop.Counted x.shared.data.toolCalls x.shared := by
    unfold Loop.Counted
    rw [hNone, Nat.add_zero]
  refine ⟨⟨hCounted, fun _ => le_max_left _ _, Nat.le_add_right _ _⟩, ?_⟩
  rw [h.prog]
  exact Loop.episode_counts entry hCounted (by omega)

theorem limited_step {l : EpisodeLabel} (hx : Limited c fits calls steps x)
    (hl : fits → Fits c x l) (h : x.step l = some y) : Limited c fits calls steps y := by
  have hAllowed (o : Op) (hTick : l = .tick) (hDue : x.prog.due = some o) :
      (limits c fits calls steps).allowed o x.shared := by
    subst hTick
    exact fun hFits hTurns => hl hFits (by rw [hDue]; exact hTurns)
  constructor
  · rcases step_cases h with ⟨o, k, hTick, hProg, rfl⟩ | ⟨answers, t, k, -, -, -, rfl⟩ |
      ⟨i, stands, s, -, -, hEnv, rfl⟩
    · have hDue : x.prog.due = some o := by rw [hProg]; rfl
      exact hx.within.exec (hx.meets.safe hDue (hAllowed o hTick hDue))
    · exact hx.within
    · exact hx.within.same (same_outside hEnv)
  · refine Meets.step hx.meets h hAllowed (fun _ _ _ _ _ => .refl _) fun i stands s _ _ hOutside => ?_
    have hSame := same_outside hOutside
    refine ⟨fun _ _ _ _ hRely => hSame.trans hRely, fun _ _ hCounted => ?_⟩
    exact Loop.Counted.same hCounted hSame

/-- An episode executes at most `maxSteps` steps, and at most `maxToolCalls` tools while it turns to
no more tools than are left. -/
theorem limits_kept (hx : Start c entry x) :
    (∀ y, Reach EpisodeSystem.step Anything (· = x) y →
      y.shared.currentStep - x.shared.currentStep ≤ c.maxSteps) ∧
    ∀ y, Reach EpisodeSystem.step (Fits c) (· = x) y →
      y.shared.toolsStarted ≤ y.shared.data.toolCalls - x.shared.data.toolCalls ∧
        y.shared.data.toolCalls - x.shared.data.toolCalls ≤ c.maxToolCalls := by
  constructor
  · intro y hy
    have hLimited := hy.invariant
      (I := Limited c False x.shared.data.toolCalls (x.shared.currentStep + c.maxSteps))
      (fun _ hSame => hSame ▸ hx.limited False)
      fun _ _ _ hLimited _ hStep => limited_step hLimited False.elim hStep
    have hSteps := hLimited.within.steps
    omega
  · intro y hy
    have hLimited := hy.invariant
      (I := Limited c True x.shared.data.toolCalls (x.shared.currentStep + c.maxSteps))
      (fun _ hSame => hSame ▸ hx.limited True)
      fun _ _ _ hLimited hl hStep => limited_step hLimited (fun _ => hl) hStep
    have hCounted : x.shared.data.toolCalls + y.shared.toolsStarted ≤ y.shared.data.toolCalls :=
      hLimited.within.counted
    have hBounded := hLimited.within.bounded trivial
    omega

def followed (answers : (t : Wait) → t.Ans) : Nat → EpisodeSystem → List EpisodeLabel
  | 0, _ => []
  | n + 1, x =>
    let l : EpisodeLabel :=
      match x.prog with
      | .await _ _ => .resume answers
      | _ => .tick
    l ::
      match EpisodeSystem.step x l with
      | some y => followed answers n y
      | none => []

def callsThree : (t : Wait) → t.Ans
  | .completed _ _ =>
    .ok (⟨"", [⟨"a", "read", .null⟩, ⟨"b", "read", .null⟩, ⟨"c", "read", .null⟩], none, none,
      ⟨⟨.value (some 10), .value (some 5), .undefined, .undefined, .undefined⟩, .undefined, none⟩⟩,
      ⟨none, 10⟩)
  | t => answers "" t

def limited (maxToolCalls : Nat) : Settings := { plainSettings with maxToolCalls := maxToolCalls }

def retriedWith (maxToolCalls : Nat) : EpisodeSystem :=
  ⟨retriedEpisode, Loop.episode (limited maxToolCalls) ⟨true, 0⟩⟩

theorem retriedWith_start (maxToolCalls : Nat) :
    Start (limited maxToolCalls) ⟨true, 0⟩ (retriedWith maxToolCalls) :=
  ⟨rfl, rfl, rfl, rfl, rfl, rfl, rfl, rfl⟩

/-- With ten calls allowed, the three calls of an answer are within the limit. -/
theorem limits_kept_three :
    ∃ y, run EpisodeSystem.step (retriedWith 10) (followed callsThree 80 (retriedWith 10)) = some y ∧
      y.shared.toolsStarted = 3 ∧
      y.shared.toolsStarted ≤
        y.shared.data.toolCalls - (retriedWith 10).shared.data.toolCalls ∧
      y.shared.data.toolCalls - (retriedWith 10).shared.data.toolCalls ≤ 10 := by
  have hRuns : (run EpisodeSystem.step (retriedWith 10)
      (followed callsThree 80 (retriedWith 10))).any (fun y => y.shared.toolsStarted = 3) = true := by
    decide +kernel
  have hStart : Reach EpisodeSystem.step (Fits (limited 10)) (· = retriedWith 10)
      (retriedWith 10) := .start rfl
  have hFits : Along EpisodeSystem.step (Fits (limited 10)) (retriedWith 10)
      (followed callsThree 80 (retriedWith 10)) := by decide +kernel
  obtain ⟨y, hy, hThree⟩ := Option.any_eq_true _ _ |>.mp hRuns
  obtain ⟨hStarted, hCalls⟩ := (limits_kept (retriedWith_start 10)).2 y
    (hStart.run hy hFits)
  exact ⟨y, hy, of_decide_eq_true hThree, hStarted, hCalls⟩

/-- With one call allowed, all three calls of an answer are executed. -/
theorem three_calls_executed :
    ¬ ∀ c entry x, c.maxToolCalls ∈ Set.Icc 1 100 → c.maxSteps ∈ Set.Icc 1 50 →
      Start c entry x → ∀ y, Reach EpisodeSystem.step Anything (· = x) y →
        y.shared.toolsStarted ≤ c.maxToolCalls ∧
          y.shared.currentStep - x.shared.currentStep ≤ c.maxSteps := by
  intro h
  have hRuns : (run EpisodeSystem.step (retriedWith 1)
      (followed callsThree 80 (retriedWith 1))).any (fun y => y.shared.toolsStarted = 3) = true := by
    decide +kernel
  obtain ⟨y, hy, hThree⟩ := Option.any_eq_true _ _ |>.mp hRuns
  have hBound := (h _ _ _ ⟨by decide, by decide⟩ ⟨by decide, by decide⟩ (retriedWith_start 1) y
    (reach_of_run rfl hy)).1
  rw [of_decide_eq_true hThree] at hBound
  exact absurd hBound (by decide)

end EpisodeSystem

end OrchestraAI.Core
