import OrchestraAI.Core.Conversation
import OrchestraAI.Core.EpisodeRuns
import OrchestraAI.Core.LoopShape

/-! # The loop and its conversation

Wherever the agent loop shows the conversation, it shows the last ten turns, and the
conversation is closed; an episode that ends leaves open at most its last answer.
-/

namespace OrchestraAI.Core

open AsyncProgram

def Episode.history (s : Episode) : List Turn := s.data.history

def Op.mute : Op → Prop
  | .update f => ∀ d, (f d).history = d.history
  | _ => True

theorem mute_of_still {o : Op} (h : o.still) : o.mute := by
  cases o with
  | update f => exact h
  | _ => trivial

def talk : Etiquette Episode Wait Wait.Ans where
  begun t s := t.turns = [] ∨ t.turns = s.history.rtake 10 ∧ Closed s.history
  rely _ s _ s' := s'.history = s.history

theorem data_transition (s : Episode) (next : TaskStatus) :
    (s.transition next).2.data = s.data := by
  unfold Episode.transition
  split <;> rfl

theorem data_cancelledRun (s : Episode) (reason : String) : (s.cancelledRun reason).data = s.data := by
  unfold Episode.cancelledRun Episode.noteRefused
  split
  · rfl
  · split <;> rfl

theorem data_failRun (s : Episode) (error : RunError) : (s.failRun error).data = s.data := by
  unfold Episode.failRun Episode.noteRefused
  split
  · rfl
  · split <;> split <;> rfl

theorem data_exec {o : Op} (s : Episode) (h : ∀ f, o ≠ .update f) : (exec o s).2.data = s.data := by
  cases o with
  | update f => exact absurd rfl (h f)
  | transition next => exact data_transition s next
  | toObserving =>
    unfold exec Episode.toObserving
    dsimp only
    split
    · split
      · rename_i routed hRouted
        exact (data_transition routed _).trans
          ((congrArg (fun x => x.2.data) hRouted).symm.trans (data_transition s _))
      · exact data_transition s _
    · exact data_transition s _
  | holdForPause =>
    unfold exec Episode.holdForPause
    dsimp only
    split <;> rfl
  | completeRun summary =>
    unfold exec Episode.completeRun
    dsimp only
    split
    · rfl
    · split <;> rfl
  | cancelledRun reason => exact data_cancelledRun s reason
  | failRun error => exact data_failRun s error
  | _ => rfl

theorem history_exec {o : Op} (s : Episode) (h : o.mute) : (exec o s).2.history = s.history := by
  cases o with
  | update f => exact h s.data
  | _ => exact congrArg LoopData.history (data_exec s nofun)

namespace Loop

variable {α β : Type} {c : Settings} {h : List Turn} {s : Episode}
  {Q : Except LoopError α → Episode → Prop}

abbrev Mute (p : Loop α) : Prop := p.All Op.mute fun t => t.turns = []

def Quiet (h : List Turn) (p : Loop α) : Prop :=
  ∀ s : Episode, s.history = h → Heeds exec talk p s fun _ t => t.history = h

theorem Calm.mute {p : Loop α} (hp : Calm p) : Mute p :=
  hp.mono
    (fun o ho => by
      rcases ho with ho | rfl
      · exact mute_of_still ho
      · trivial)
    fun _ ht => ht

theorem Placid.mute {p : Loop α} (hp : Placid p) : Mute p :=
  hp.mono
    (fun o ho => by
      cases o with
      | update f => exact fun d => (ho d).1
      | _ => trivial)
    fun _ ht => ht

theorem Mute.quiet {p : Loop α} (hp : Mute p) : Quiet h p := fun _ hs =>
  .of_all (I := fun s => s.history = h) hp hs (fun _ t ho ht => (history_exec t ho).trans ht)
    (fun _ _ ht _ => .inl ht) (fun _ _ _ _ ht hRely => hRely.trans ht) fun _ _ ht => ht

theorem quiet_pure (a : α) : Quiet h (pure a : Loop α) := fun _ hs => hs

theorem quiet_throw (e : LoopError) : Quiet h (.throw e : Loop α) := fun _ hs => hs

theorem quiet_ite {b : Prop} [Decidable b] {p q : Loop α} (hp : Quiet h p) (hq : Quiet h q) :
    Quiet h (if b then p else q) := by
  split
  · exact hp
  · exact hq

theorem Quiet.followed {p : Loop β} {f : β → Loop α} (hp : Quiet h p) (hs : s.history = h)
    (hf : ∀ b (t : Episode), t.history = h → Heeds exec talk (f b) t Q)
    (hThrown : ∀ e (t : Episode), t.history = h → Q (.error e) t) :
    Heeds exec talk (p >>= f) s Q := by
  refine .bind ((hp s hs).mono fun r t ht => ?_)
  cases r with
  | ok b => exact hf b t ht
  | error e => exact hThrown e t ht

theorem Quiet.bind {p : Loop β} {f : β → Loop α} (hp : Quiet h p) (hf : ∀ b, Quiet h (f b)) :
    Quiet h (p >>= f) := fun _ hs =>
  hp.followed hs (fun b t ht => hf b t ht) fun _ _ ht => ht

theorem quiet_look {k : View → Loop α} (hk : ∀ v : View, v.data.history = h → Quiet h (k v)) :
    Quiet h (Loop.look >>= k) := fun s hs => hk s.view hs s hs

theorem quiet_attempt {p : Loop α} (hp : Quiet h p) : Quiet h (attempt p) := fun s hs => by
  refine .tryCatch (hp.followed hs (fun a t ht => ht) fun e t ht => ?_)
  exact ht

theorem quiet_shown {t : Wait} (hh : Closed h) (ht : t.turns = h.rtake 10) : Quiet h (wait t) :=
  fun _ hs => ⟨.inr ⟨by rw [ht, hs], hs ▸ hh⟩, fun _ _ hRely => hRely.trans hs⟩

theorem buildPrompt_quiet (hh : Closed h) : Quiet h (buildPrompt c) :=
  .bind recallMemory_modest.mild.calm.mute.quiet fun _ => quiet_look fun v hv =>
    .bind (quiet_shown hh (by rw [Wait.turns, hv])) fun _ => Mute.quiet (all_ofExcept _)

theorem fitPrompt_quiet (hh : Closed h) (modelId : ModelId) (definition : ModelDef)
    (promptTokens : Nat) : Quiet h (fitPrompt c modelId definition promptTokens) :=
  quiet_look fun _ _ => quiet_ite
    (.bind (quiet_attempt (compressContext_modest _).mild.calm.mute.quiet) fun _ =>
      .bind (buildPrompt_quiet hh) fun _ => quiet_ite (quiet_throw _) <|
        .bind (Mute.quiet (all_when (all_emit trivial))) fun _ => quiet_pure _)
    (quiet_pure _)

theorem readStream_quiet (hh : Closed h) (model : Option ModelId) :
    ∀ n final, Quiet h (readStream model (h.rtake 10) n final)
  | 0, _ => quiet_pure _
  | n + 1, _ => .bind (quiet_shown hh rfl) fun _ => .bind (Mute.quiet (all_ofExcept _)) fun _ =>
      .bind (Mute.quiet (all_when (all_emit trivial))) fun _ => readStream_quiet hh model n _

theorem callProvider_quiet (hh : Closed h) (model : Option ModelId) :
    Quiet h (callProvider c model (h.rtake 10)) :=
  quiet_ite
    (.bind (Mute.quiet (all_wait rfl)) fun _ => .bind (readStream_quiet hh _ _ _) fun _ =>
      quiet_pure _)
    (.bind (quiet_shown hh rfl) fun _ => .bind (Mute.quiet (all_ofExcept _)) fun _ =>
      .bind (Mute.quiet (all_when (all_emit trivial))) fun _ => quiet_pure _)

theorem request_quiet (hh : Closed h) (step : Nat) (continuation : Bool) (modelId : Option ModelId)
    (definition : ModelDef) (promptTokens : Nat) :
    Quiet h (request c step continuation modelId definition promptTokens) :=
  quiet_look fun _ hv => .bind (Mute.quiet (all_call trivial)) fun _ =>
    .bind (hv ▸ callProvider_quiet hh _) fun _ =>
      .bind (account_modest _ _ _ _ _ _).mild.calm.mute.quiet fun _ =>
        Mute.quiet (.bind (all_when (all_asked rfl)) fun _ => .bind (all_when (all_wait rfl)) fun _ =>
          trivial)

theorem answerCall_quiet (hh : Closed h) (step : Nat) (continuation : Bool)
    (modelId : Option ModelId) (definition : ModelDef) (promptTokens : Nat) :
    Quiet h (answerCall c step continuation modelId definition promptTokens) := by
  refine .bind (cached_modest _ _ _).mild.calm.mute.quiet fun found => ?_
  cases found with
  | some result => exact quiet_pure _
  | none =>
    refine quiet_ite (quiet_throw _) (.bind (reuse_modest _ _ _ _).mild.calm.mute.quiet fun hit => ?_)
    cases hit with
    | some result => exact quiet_pure _
    | none => exact request_quiet hh _ _ _ _ _

theorem callModel_quiet (hh : Closed h) (step : Nat) (continuation : Bool) :
    Quiet h (callModel c step continuation) :=
  quiet_look fun _ _ => quiet_ite (quiet_throw _) <|
    .bind (resolveModel_modest _).mild.calm.mute.quiet fun _ => quiet_ite (quiet_throw _) <|
      .bind (buildPrompt_quiet hh) fun _ => .bind (fitPrompt_quiet hh _ _ _) fun _ =>
        .bind (guardBudget_modest _ _ _).mild.calm.mute.quiet fun _ =>
          .bind (Mute.quiet (all_update fun _ => rfl)) fun _ => answerCall_quiet hh _ _ _ _ _

def Ends (r : Except LoopError α) (s : Episode) : Prop :=
  match r with
  | .ok _ => Closed s.history
  | .error _ => Left s.history

def Tidy (p : Loop α) : Prop :=
  ∀ s : Episode, Closed s.history → Heeds exec talk p s Ends

theorem tidy_of_quiet {p : Loop α} (hp : ∀ h, Closed h → Quiet h p) : Tidy p := fun s hs =>
  (hp s.history hs s rfl).mono fun r t ht => by
    rw [← ht] at hs
    cases r with
    | ok a => exact hs
    | error e => exact .inl hs

theorem Mute.tidy {p : Loop α} (hp : Mute p) : Tidy p := tidy_of_quiet fun _ _ => hp.quiet

theorem Tidy.bind {p : Loop β} {f : β → Loop α} (hp : Tidy p) (hf : ∀ b, Tidy (f b)) :
    Tidy (p >>= f) := fun s hs => by
  refine .bind ((hp s hs).mono fun r t ht => ?_)
  cases r with
  | ok b => exact hf b t ht
  | error e => exact ht

theorem tidy_ite {b : Prop} [Decidable b] {p q : Loop α} (hp : Tidy p) (hq : Tidy q) :
    Tidy (if b then p else q) := by
  split
  · exact hp
  · exact hq

theorem tidy_pure (a : α) : Tidy (pure a : Loop α) := fun _ hs => hs

theorem tidy_throw (e : LoopError) : Tidy (.throw e : Loop α) := fun _ hs => .inl hs

theorem tidy_callModel (step : Nat) (continuation : Bool) : Tidy (callModel c step continuation) :=
  tidy_of_quiet fun _ hh => callModel_quiet hh _ _

/-- With the calls of an answer under way, the program comes to a closed conversation, unless an
error is thrown. -/
def Closes (done rest : List ToolRequest) (p : Loop α) : Prop :=
  ∀ s : Episode, Answering done rest s.history → Heeds exec talk p s Ends

section Answers

variable {done rest calls : List ToolRequest}

theorem closes_of_tidy {p : Loop α} (hp : Tidy p) : Closes calls [] p := fun s hs => hp s hs.closed

theorem Closes.bind {p : Loop β} {f : β → Loop α} (hp : Closes done rest p)
    (hf : ∀ b, Tidy (f b)) : Closes done rest (p >>= f) := fun s hs => by
  refine .bind ((hp s hs).mono fun r t ht => ?_)
  cases r with
  | ok b => exact hf b t ht
  | error e => exact ht

theorem closes_after {p : Loop β} {f : β → Loop α} (hp : Mute p)
    (hf : ∀ b, Closes done rest (f b)) : Closes done rest (p >>= f) := fun _ hs =>
  hp.quiet.followed rfl (fun b t ht => hf b t (ht ▸ hs)) fun _ _ ht => .inr ⟨done, rest, ht ▸ hs⟩

theorem closes_result {call : ToolRequest} {name content : String} {f : Unit → Loop α}
    (hf : Closes (done ++ [call]) rest (f ())) :
    Closes done (call :: rest) ((update fun d => d.say (.tool call.id name content)) >>= f) :=
  fun s hs => hf (exec (.update fun d => d.say (.tool call.id name content)) s).2
    (hs.result name content)

theorem tidy_asked {text : String} {f : Unit → Loop α} (hf : Closes [] calls (f ())) :
    Tidy ((update fun d => d.say (.assistant text calls)) >>= f) :=
  fun s hs => hf (exec (.update fun d => d.say (.assistant text calls)) s).2 (hs.asked text calls)

theorem tidy_said {text : String} {f : Unit → Loop α} (hf : Tidy (f ())) :
    Tidy ((update fun d => d.say (.assistant text [])) >>= f) :=
  fun s hs => hf (exec (.update fun d => d.say (.assistant text [])) s).2 (hs.said text)

end Answers

theorem remembered_mute {b : Bool} {type : EventType} {t : Wait}
    {f : t.Ans → Except LoopError Unit} (ht : t.turns = []) :
    Mute (when b (emit type >>= fun _ => wait t >>= fun a => ofExcept (f a))) :=
  all_when (.bind (all_emit trivial) fun _ => all_asked ht)

theorem runCalls_closes {rest : List ToolRequest} :
    ∀ done, Closes done rest (runCalls c rest) := by
  induction rest with
  | nil => exact fun _ => closes_of_tidy (tidy_pure ())
  | cons call rest ih =>
    exact fun done => closes_after (all_update fun _ => rfl) fun _ =>
      closes_after (execute_calm call).mute fun res => closes_result <|
        closes_after (addContext_modest _).mild.calm.mute fun _ => closes_after (remembered_mute rfl) fun _ =>
          ih (done ++ [call])

theorem transition_mute (next : TaskStatus) : Mute (Loop.transition next) := all_transition trivial

theorem toolLoop_tidy (step : Nat) : ∀ guard result, Tidy (toolLoop c step guard result)
  | 0, _ => tidy_pure _
  | guard + 1, _ => tidy_ite (tidy_pure _) <| .bind (Mute.tidy (all_look trivial)) fun _ =>
      tidy_ite (tidy_pure _) <| tidy_ite (tidy_throw _) <| tidy_asked <|
        closes_after (transition_mute _) fun _ =>
          closes_after (all_emitAll (fun _ => trivial) _) fun _ =>
            .bind (runCalls_closes []) fun _ => .bind (Mute.tidy (all_toObserving trivial)) fun _ =>
              .bind (Mute.tidy (all_emit trivial)) fun _ => .bind (transition_mute _).tidy fun _ =>
                .bind (tidy_callModel _ _) fun _ => toolLoop_tidy step guard _

theorem assist_tidy (step : Nat) (result : ModelResult) : Tidy (assist c step result) := by
  refine .bind (Mute.tidy (all_look trivial)) fun v => ?_
  cases c.heuristicToolCall with
  | none => exact tidy_pure _
  | some call =>
    refine tidy_ite ?_ (tidy_pure _)
    exact .bind (Mute.tidy (all_update fun _ => rfl)) fun _ => .bind (transition_mute _).tidy fun _ =>
      .bind (Mute.tidy (all_emit trivial)) fun _ => .bind (Mute.tidy (all_update fun _ => rfl)) fun _ =>
        tidy_asked <| closes_after (execute_calm call).mute fun res => closes_result <|
          closes_of_tidy <| .bind (addContext_modest _).mild.calm.mute.tidy fun _ =>
            .bind (Mute.tidy (all_toObserving trivial)) fun _ => .bind (transition_mute _).tidy fun _ =>
              tidy_callModel _ _

theorem finishStep_tidy (result : ModelResult) : Tidy (finishStep c result) := by
  refine .bind (Mute.tidy (all_toObserving trivial)) fun _ =>
    .bind (Mute.tidy (all_update fun _ => rfl)) fun _ => tidy_said <|
      .bind (Mute.tidy (all_emit trivial)) fun _ => .bind (Mute.tidy (all_look trivial)) fun v =>
        .bind (Mute.tidy (all_when (all_wait rfl))) fun _ => .bind (remembered_mute rfl).tidy fun _ => ?_
  cases evaluateCompletion v.data result with
  | some summary => exact .bind (Mute.tidy (all_completeRun trivial)) fun _ => tidy_pure _
  | none => exact .bind (transition_mute _).tidy fun _ => tidy_pure _

theorem executeStep_tidy (step : Nat) : Tidy (executeStep c step) := by
  have hCall : Tidy (attempt (callModel c step false)) :=
    tidy_of_quiet fun _ hh => quiet_attempt (callModel_quiet hh _ _)
  refine .bind (Mute.tidy ⟨trivial, fun _ => trivial⟩) fun _ =>
    .bind (Mute.tidy (all_emit trivial)) fun _ => .bind hCall fun answer => ?_
  cases answer with
  | error error => exact (recoverStep_mild error).calm.mute.tidy
  | ok result =>
    refine .bind (toolLoop_tidy _ _ _) fun settled => ?_
    cases settled with
    | none => exact tidy_pure _
    | some result =>
      exact .bind (Mute.tidy (all_look trivial)) fun _ => tidy_ite (tidy_pure _) <|
        .bind (assist_tidy _ _) fun _ => finishStep_tidy _

theorem runSteps_tidy : ∀ left steps, Tidy (runSteps c left steps)
  | 0, _ => tidy_pure _
  | left + 1, _ => .bind admitStep_placid.mute.tidy fun _ => tidy_ite
      (.bind (Mute.tidy (all_update fun _ => rfl)) fun _ => .bind (executeStep_tidy _) fun _ =>
        .bind checkOptimizationTriggers_modest.mild.calm.mute.tidy fun _ => tidy_ite (tidy_pure _) <|
          .bind goesOn_placid.mute.tidy fun _ => tidy_ite (runSteps_tidy left _) (tidy_pure _))
      (tidy_pure _)

theorem executeRun_tidy (entry : Entry) : Tidy (executeRun c entry) := by
  refine .bind (setUp_placid entry).mute.tidy fun _ => .bind (Mute.tidy (all_update fun _ => rfl)) fun _ =>
    .bind (runSteps_tidy _ _) fun settled => ?_
  cases settled with
  | none => exact tidy_pure _
  | some steps => exact (closeRun_placid steps).mute.tidy

/-- An episode that begins with a closed conversation shows closed conversations only, and leaves
open at most its last answer. -/
theorem episode_heeds (entry : Entry) (hs : Closed s.history) :
    Heeds exec talk (episode c entry) s fun _ t => Left t.history := by
  have hOver : ∀ t : Episode, Left t.history →
      Heeds exec talk (wait .closing >>= fun _ => Prog.op .settle Prog.done : Loop Unit) t
        fun _ u => Left u.history := fun t ht =>
    ⟨.inl rfl, fun _ u hRely => show Left u.history from hRely ▸ ht⟩
  refine .bind (.tryCatch ((executeRun_tidy entry s hs).mono fun r t ht => ?_))
  cases r with
  | ok _ => exact hOver t (.inl ht)
  | error error =>
    refine ⟨.inl rfl, fun _ u hRely => ?_⟩
    have hFailed : (exec (.failRun error.toRunError) u).2.history = u.history :=
      history_exec u trivial
    exact hOver _ (by rw [hFailed, hRely]; exact ht)

end Loop

theorem data_leavePause (s : Episode) : s.leavePause.data = s.data := by
  unfold Episode.leavePause
  split <;> rfl

theorem data_goOn (s : Episode) : s.goOn.data = s.data := by
  unfold Episode.goOn
  split <;> rfl

theorem data_outside {i : Outside} {stands : Option Wait} {s t : Episode}
    (h : outside i stands s = some t) : t.data = s.data := by
  cases i with
  | deadline =>
    simp only [outside] at h
    split at h
    · obtain rfl := Option.some.inj h
      exact data_failRun _ _
    · cases h
  | graceElapses k =>
    simp only [outside] at h
    split at h
    · rename_i reason hReason
      split at h
      · obtain rfl := Option.some.inj h
        exact data_cancelledRun _ reason
      · cases h
    · cases h
  | cancelRun reason =>
    obtain rfl := Option.some.inj h
    unfold Episode.cancelRun
    split <;> rfl
  | pauseRun =>
    obtain rfl := Option.some.inj h
    unfold Episode.pauseRun
    dsimp only
    split <;> rfl
  | resumeRun =>
    obtain rfl := Option.some.inj h
    unfold Episode.resumeRun
    dsimp only
    split
    · exact (data_goOn _).trans (data_leavePause _)
    · rfl

theorem history_outside {i : Outside} {stands : Option Wait} {s t : Episode}
    (h : outside i stands s = some t) : t.history = s.history :=
  congrArg LoopData.history (data_outside h)

end OrchestraAI.Core
