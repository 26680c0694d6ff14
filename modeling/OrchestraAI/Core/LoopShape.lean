import OrchestraAI.Core.AgentLoop

/-! # The shape of the agent loop

Which operations and which waits each part of the loop is made of.
-/

namespace OrchestraAI.Core

/-- The operations that leave the status, the machine and the pause of the run alone. -/
def Op.plain : Op → Prop
  | .holdForPause | .transition _ | .toObserving | .completeRun _ | .cancelledRun _ | .failRun _
  | .settle => False
  | _ => True

def TaskStatus.active (next : TaskStatus) : Bool := !next.terminal && next ≠ .retrying

/-- The operations of the loop other than the three that end the episode for good. -/
def Op.inner : Op → Prop
  | .cancelledRun _ | .failRun _ | .settle => False
  | .transition next => next.active = true
  | _ => True

/-- The turns that are shown at a wait, to the provider or for the compilation of a prompt. -/
def Wait.turns : Wait → List Turn
  | .promptCompiled history => history
  | .streamed _ history _ => history
  | .completed _ history => history
  | _ => []

def Op.still : Op → Prop
  | .update f => ∀ d, (f d).history = d.history
  | o => o.plain

def Op.modest : Op → Prop
  | .update f => ∀ d, (f d).history = d.history ∧ (f d).toolCalls = d.toolCalls
  | .call _ | .startStep => False
  | o => o.plain

/-- The plain operations that count neither a call nor a step, and call at most the provider. -/
def Op.toolless : Op → Prop
  | .update f => ∀ d, (f d).toolCalls = d.toolCalls
  | .call (.tool _) | .startStep => False
  | o => o.plain

/-- The operations that leave the conversation alone, call nothing and count neither a call nor
a step. -/
def Op.placid : Op → Prop
  | .update f => ∀ d, (f d).history = d.history ∧ (f d).toolCalls = d.toolCalls
  | .call _ | .startStep => False
  | _ => True

namespace Loop

open Prog

variable {α β : Type} {P : Op → Prop} {R : Wait → Prop} {c : Settings}

abbrev Toolless (p : Loop α) : Prop := p.All Op.toolless fun _ => True

abbrev Plain (p : Loop α) : Prop := p.All Op.plain fun _ => True

abbrev Holds (p : Loop α) : Prop := p.All (fun o => o.plain ∨ o = .holdForPause) fun _ => True

abbrev Inner (p : Loop α) : Prop := p.All Op.inner fun _ => True

abbrev Modest (p : Loop α) : Prop := p.All Op.modest fun t => t.io = false ∧ t.turns = []

abbrev Mild (p : Loop α) : Prop := p.All Op.modest fun t => t.turns = []

abbrev Placid (p : Loop α) : Prop := p.All Op.placid fun t => t.turns = []

abbrev Calm (p : Loop α) : Prop :=
  p.All (fun o => o.still ∨ o = .holdForPause) fun t => t.turns = []

theorem Plain.holds {p : Loop α} (h : Plain p) : Holds p :=
  h.mono (fun _ h => .inl h) fun _ _ => trivial

theorem inner_of_plain {o : Op} (h : o.plain) : o.inner := by
  cases o <;> trivial

theorem Holds.inner {p : Loop α} (h : Holds p) : Inner p := by
  refine h.mono (fun o ho => ?_) fun _ _ => trivial
  rcases ho with ho | rfl
  · exact inner_of_plain ho
  · trivial

theorem plain_of_still {o : Op} (h : o.still) : o.plain := by
  cases o with
  | update f => trivial
  | _ => exact h

theorem still_of_modest {o : Op} (h : o.modest) : o.still := by
  cases o with
  | update f => exact fun d => (h d).1
  | call what => exact h.elim
  | startStep => exact h.elim
  | _ => exact h

theorem toolless_of_modest {o : Op} (h : o.modest) : o.toolless := by
  cases o with
  | update f => exact fun d => (h d).2
  | call what => exact h.elim
  | _ => exact h

theorem placid_of_modest {o : Op} (h : o.modest) : o.placid := by
  cases o with
  | update f => exact h
  | call what => exact h
  | startStep => exact h
  | _ => trivial

theorem plain_of_toolless {o : Op} (h : o.toolless) : o.plain := by
  cases o with
  | update f => trivial
  | call what => trivial
  | startStep => trivial
  | _ => exact h

theorem Modest.mild {p : Loop α} (h : Modest p) : Mild p := h.mono (fun _ h => h) fun _ h => h.2

theorem Mild.placid {p : Loop α} (h : Mild p) : Placid p :=
  h.mono (fun _ => placid_of_modest) fun _ h => h

theorem Mild.toolless {p : Loop α} (h : Mild p) : Toolless p :=
  h.mono (fun _ => toolless_of_modest) fun _ _ => trivial

theorem Toolless.plain {p : Loop α} (h : Toolless p) : Plain p :=
  h.mono (fun _ => plain_of_toolless) fun _ _ => trivial

theorem Mild.calm {p : Loop α} (h : Mild p) : Calm p :=
  h.mono (fun _ h => .inl (still_of_modest h)) fun _ h => h

theorem Calm.holds {p : Loop α} (h : Calm p) : Holds p :=
  h.mono (fun _ h => h.imp_left plain_of_still) fun _ _ => trivial

theorem all_look (h : P .look) : Loop.look.All P R := ⟨h, fun _ => trivial⟩

theorem all_emit {type : EventType} (h : P (.emit type)) : (emit type).All P R :=
  ⟨h, fun _ => trivial⟩

theorem all_update {f : LoopData → LoopData} (h : P (.update f)) : (update f).All P R :=
  ⟨h, fun _ => trivial⟩

theorem all_ofExcept (x : Except LoopError α) : (ofExcept x : Loop α).All P R := by
  cases x <;> trivial

theorem all_wait {t : Wait} (h : R t) : (wait t).All P R := ⟨h, fun _ => trivial⟩

theorem all_attempt {p : Loop α} (h : p.All P R) : (attempt p).All P R :=
  .tryCatch (h.bind fun _ => trivial) fun _ => trivial

theorem all_emitAll (h : ∀ type, P (.emit type)) : ∀ types, (emitAll types).All P R
  | [] => trivial
  | type :: types => .bind (all_emit (h type)) fun _ => all_emitAll h types

theorem all_ite {b : Prop} [Decidable b] {p q : Loop α} (hp : p.All P R) (hq : q.All P R) :
    (if b then p else q).All P R := by
  split
  · exact hp
  · exact hq

theorem all_when {b : Bool} {p : Loop Unit} (h : p.All P R) : (when b p).All P R := by
  cases b
  · trivial
  · exact h

theorem all_addCost {amount : ℚ} (h : P (.addCost amount)) : (addCost amount).All P R :=
  ⟨h, fun _ => trivial⟩

theorem all_call {what : Call} (h : P (.call what)) : (Loop.call what).All P R :=
  ⟨h, fun _ => trivial⟩

theorem all_ask {t : Wait} {f : t.Ans → Except LoopError α} {k : α → Loop β} (h : R t)
    (hk : ∀ a, (k a).All P R) : (wait t >>= fun a => ofExcept (f a) >>= k : Loop β).All P R :=
  .bind (all_wait h) fun _ => .bind (all_ofExcept _) hk

theorem all_asked {t : Wait} {f : t.Ans → Except LoopError α} (h : R t) :
    (wait t >>= fun a => ofExcept (f a) : Loop α).All P R :=
  .bind (all_wait h) fun _ => all_ofExcept _

theorem addContext_modest (tokens : List Nat) : Modest (addContext tokens) :=
  .bind (all_update fun _ => ⟨rfl, rfl⟩) fun _ => .bind (all_emitAll (fun _ => trivial) _) fun _ =>
    .bind (all_look trivial) fun _ => .bind (all_when (all_emit trivial)) fun _ =>
      all_asked ⟨rfl, rfl⟩

theorem searchMemory_modest : Modest searchMemory :=
  .bind (all_emit trivial) fun _ => .bind (all_wait ⟨rfl, rfl⟩) fun _ =>
    .bind (all_emit trivial) fun _ =>
    all_asked ⟨rfl, rfl⟩

theorem compressContext_modest (target : Nat) : Modest (compressContext target) :=
  all_ask ⟨rfl, rfl⟩ fun _ => .bind (all_update fun _ => ⟨rfl, rfl⟩) fun _ =>
    .bind (all_emitAll (fun _ => trivial) _) fun _ => trivial

theorem buildContext_modest : Modest (buildContext c) :=
  .bind (all_emit trivial) fun _ => all_ask ⟨rfl, rfl⟩ fun _ => .bind (addContext_modest _) fun _ =>
    .bind (all_when (.bind searchMemory_modest fun _ => all_when (addContext_modest _))) fun _ =>
      all_emit trivial

theorem recallMemory_modest : Modest (recallMemory c) :=
  all_when (.bind (all_attempt searchMemory_modest) fun _ => trivial)

theorem selectModel_modest : Modest (selectModel c) :=
  all_ask ⟨rfl, rfl⟩ fun _ => all_ite trivial <|
    .bind (all_attempt (.bind recallMemory_modest fun _ => all_asked ⟨rfl, rfl⟩)) fun _ =>
      .bind (all_update fun _ => ⟨rfl, rfl⟩) fun _ => all_ask ⟨rfl, rfl⟩ fun _ =>
        .bind (all_update fun _ => ⟨rfl, rfl⟩) fun _ =>
        .bind (all_emit trivial) fun _ => all_emit trivial

theorem definitionOf_modest (id : ModelId) (candidates : List ModelDef) :
    Modest (definitionOf id candidates) := by
  unfold definitionOf
  split
  · trivial
  · exact all_asked ⟨rfl, rfl⟩

theorem applyModelSwitch_modest (toModel : ModelId) (candidates : List ModelDef) (routing : Routing)
    (force : Bool) : Modest (applyModelSwitch toModel candidates routing force) :=
  .bind (definitionOf_modest _ _) fun _ => all_ite (.bind (all_emit trivial) fun _ => trivial) <|
    all_ask ⟨rfl, rfl⟩ fun _ => .bind (all_when (all_emit trivial)) fun _ =>
      .bind (all_addCost trivial) fun _ => .bind (all_update fun _ => ⟨rfl, rfl⟩) fun _ =>
        .bind (all_emit trivial) fun _ => .bind (all_emit trivial) fun _ => trivial

theorem failover_modest (exclude : List ModelId) : Modest (failover c exclude) :=
  .bind (all_look trivial) fun _ => all_ask ⟨rfl, rfl⟩ fun _ => all_ite trivial <|
    all_ask ⟨rfl, rfl⟩ fun _ => .bind (applyModelSwitch_modest _ _ _ _) fun _ => trivial

theorem failoverLargerContext_modest : Modest (failoverLargerContext c) :=
  .bind (all_look trivial) fun _ => all_ask ⟨rfl, rfl⟩ fun _ => all_ask ⟨rfl, rfl⟩ fun _ =>
    .bind (all_look trivial) fun _ => all_ite trivial <|
      all_ask ⟨rfl, rfl⟩ fun _ => applyModelSwitch_modest _ _ _ _

theorem handleBudgetExceeded_modest : Modest (handleBudgetExceeded c) :=
  .bind (p := .op _ _) ⟨trivial, fun _ => trivial⟩ fun _ => all_ask ⟨rfl, rfl⟩ fun _ =>
    .bind (all_look trivial) fun _ => all_ask ⟨rfl, rfl⟩ fun _ => .bind (all_look trivial) fun _ =>
      all_ite trivial <| all_ask ⟨rfl, rfl⟩ fun _ => applyModelSwitch_modest _ _ _ _

theorem buildPrompt_toolless : Toolless (buildPrompt c) :=
  .bind recallMemory_modest.mild.toolless fun _ => .bind (all_look trivial) fun _ => all_asked trivial

theorem fitPrompt_toolless (modelId : ModelId) (definition : ModelDef) (promptTokens : Nat) :
    Toolless (fitPrompt c modelId definition promptTokens) :=
  .bind (all_look trivial) fun _ => all_ite
    (.bind (all_attempt (compressContext_modest _).mild.toolless) fun _ =>
      .bind buildPrompt_toolless fun _ =>
      all_ite trivial (.bind (all_when (all_emit trivial)) fun _ => trivial))
    trivial

theorem resolveModel_modest (modelId : Option ModelId) : Modest (resolveModel modelId) := by
  refine .bind (all_look trivial) fun v => ?_
  cases v.data.providerModel with
  | some m => trivial
  | none =>
    refine all_ask ⟨rfl, rfl⟩ fun found => ?_
    cases found <;> trivial

theorem guardBudget_modest (modelId : Option ModelId) (definition : ModelDef) (promptTokens : Nat) :
    Modest (guardBudget c modelId definition promptTokens) :=
  .bind (all_look trivial) fun _ => all_ite
    (.bind handleBudgetExceeded_modest fun _ => all_ite trivial <|
      .bind (all_look trivial) fun _ => .bind (resolveModel_modest _) fun _ =>
        all_ite trivial trivial)
    trivial

theorem replay_modest (step : Nat) (modelId : Option ModelId) (definition : ModelDef)
    (cacheType : String) (answer : ModelResult) :
    Modest (replay step modelId definition cacheType answer) :=
  .bind (all_update fun _ => ⟨rfl, rfl⟩) fun _ => .bind (all_emit trivial) fun _ => trivial

theorem chargeAll_modest : ∀ amounts, Modest (chargeAll amounts)
  | [] => trivial
  | _ :: amounts => .bind (all_addCost trivial) fun _ => chargeAll_modest amounts

theorem account_modest (step : Nat) (modelId : Option ModelId) (definition : ModelDef)
    (promptTokens : Nat) (answer : Completion) (quote : Quote) :
    Modest (account step modelId definition promptTokens answer quote) :=
  .bind (all_update fun _ => ⟨rfl, rfl⟩) fun _ => .bind (chargeAll_modest _) fun _ =>
    .bind (p := .op _ _) ⟨trivial, fun _ => trivial⟩ fun _ => .bind (all_emit trivial) fun _ =>
      .bind (all_emit trivial) fun _ => all_emit trivial

theorem cached_modest (step : Nat) (modelId : Option ModelId) (definition : ModelDef) :
    Modest (cached c step modelId definition) := by
  refine all_ite (all_ask ⟨rfl, rfl⟩ fun found => ?_) trivial
  cases found with
  | none => trivial
  | some answer =>
    exact all_ite trivial <| .bind (replay_modest _ _ _ _ _) fun _ =>
      .bind (all_addCost trivial) fun _ => .bind (all_emit trivial) fun _ => trivial

theorem reuse_modest (step : Nat) (continuation : Bool) (modelId : Option ModelId)
    (definition : ModelDef) : Modest (reuse c step continuation modelId definition) := by
  refine all_ite (.bind (all_wait ⟨rfl, rfl⟩) fun found => ?_) trivial
  cases found with
  | none => trivial
  | some hit =>
    exact all_ite (.bind (replay_modest _ _ _ _ _) fun _ => trivial)
      (.bind (all_emit trivial) fun _ => trivial)

theorem readStream_toolless (model : Option ModelId) (history : List Turn) :
    ∀ n final, Toolless (readStream model history n final)
  | 0, _ => trivial
  | n + 1, _ => all_ask trivial fun _ => .bind (all_when (all_emit trivial)) fun _ =>
      readStream_toolless model history n _

theorem callProvider_toolless (model : Option ModelId) (history : List Turn) :
    Toolless (callProvider c model history) :=
  all_ite (.bind (all_wait trivial) fun _ => .bind (readStream_toolless _ _ _ _) fun _ => trivial)
    (all_ask trivial fun _ => .bind (all_when (all_emit trivial)) fun _ => trivial)

theorem request_toolless (step : Nat) (continuation : Bool) (modelId : Option ModelId)
    (definition : ModelDef) (promptTokens : Nat) :
    Toolless (request c step continuation modelId definition promptTokens) :=
  .bind (all_look trivial) fun _ => .bind (all_call trivial) fun _ =>
    .bind (callProvider_toolless _ _) fun _ =>
      .bind (account_modest _ _ _ _ _ _).mild.toolless fun _ =>
      .bind (all_when (all_asked trivial)) fun _ => .bind (all_when (all_wait trivial)) fun _ =>
        trivial

theorem answerCall_toolless (step : Nat) (continuation : Bool) (modelId : Option ModelId)
    (definition : ModelDef) (promptTokens : Nat) :
    Toolless (answerCall c step continuation modelId definition promptTokens) := by
  refine .bind (cached_modest _ _ _).mild.toolless fun found => ?_
  cases found with
  | some result => trivial
  | none =>
    refine all_ite trivial (.bind (reuse_modest _ _ _ _).mild.toolless fun hit => ?_)
    cases hit with
    | some result => trivial
    | none => exact request_toolless _ _ _ _ _

theorem callModel_toolless (step : Nat) (continuation : Bool) :
    Toolless (callModel c step continuation) :=
  .bind (all_look trivial) fun _ =>
    all_ite trivial <| .bind (resolveModel_modest _).mild.toolless fun _ =>
    all_ite trivial <| .bind buildPrompt_toolless fun _ =>
      .bind (fitPrompt_toolless _ _ _) fun _ =>
      .bind (guardBudget_modest _ _ _).mild.toolless fun _ => .bind (all_update fun _ => rfl) fun _ =>
        answerCall_toolless _ _ _ _ _

theorem run_calm (call : ToolRequest) : Calm (run call) := by
  refine .bind (all_wait rfl) fun admission => ?_
  cases admission with
  | refused result => trivial
  | needsApproval result => exact .bind (all_emitAll (fun _ => .inl trivial) _) fun _ => trivial
  | stored result => exact .bind (all_emit (.inl trivial)) fun _ => trivial
  | cleared hasHandler =>
    refine .bind (all_look (.inl trivial)) fun v => all_ite trivial <| all_ite trivial <|
      .bind (all_emit (.inl trivial)) fun _ => .bind (all_call (.inl trivial)) fun _ =>
        .bind (all_wait rfl) fun answer => ?_
    cases answer with
    | ok given =>
      exact .bind (all_emit (.inl trivial)) fun _ => .bind (all_update (.inl fun _ => rfl)) fun _ =>
        .bind (all_addCost (.inl trivial)) fun _ => trivial
    | error result =>
      exact .bind (all_emit (.inl trivial)) fun _ => .bind (all_update (.inl fun _ =>
        rfl)) fun _ => trivial

theorem execute_calm (call : ToolRequest) : Calm (execute call) :=
  .bind (p := .op _ _) ⟨.inr rfl, fun _ => trivial⟩ fun _ => .bind (all_wait rfl) fun _ =>
    .bind (run_calm _) fun _ => .bind (all_wait rfl) fun _ =>
      .bind (all_emitAll (fun _ => .inl trivial) _) fun _ => trivial

theorem runCalls_holds : ∀ calls, Holds (runCalls c calls)
  | [] => trivial
  | _ :: calls => .bind (all_update (.inl trivial)) fun _ => .bind (execute_calm _).holds fun _ =>
      .bind (all_update (.inl trivial)) fun _ =>
        .bind (addContext_modest _).mild.toolless.plain.holds fun _ =>
        .bind (all_when (.bind (all_emit (.inl trivial)) fun _ => all_asked trivial)) fun _ =>
          runCalls_holds calls

theorem all_transition {next : TaskStatus} (h : P (.transition next)) :
    (Loop.transition next).All P R :=
  ⟨h, all_ofExcept⟩

theorem all_toObserving (h : P .toObserving) : Loop.toObserving.All P R := ⟨h, all_ofExcept⟩

theorem all_completeRun {summary : Option String} (h : P (.completeRun summary)) :
    (Loop.completeRun summary).All P R :=
  ⟨h, all_ofExcept⟩

theorem toolLoop_inner (step : Nat) : ∀ guard result, Inner (toolLoop c step guard result)
  | 0, _ => trivial
  | guard + 1, _ => all_ite trivial <| .bind (all_look trivial) fun _ => all_ite trivial <|
      all_ite trivial <| .bind (all_update trivial) fun _ =>
        .bind (all_transition rfl) fun _ =>
          .bind (all_emitAll (fun _ => trivial) _) fun _ => .bind (runCalls_holds _).inner fun _ =>
            .bind (all_toObserving trivial) fun _ => .bind (all_emit trivial) fun _ =>
              .bind (all_transition rfl) fun _ =>
                .bind (callModel_toolless _ _).plain.holds.inner fun _ => toolLoop_inner step guard _

theorem assist_inner (step : Nat) (result : ModelResult) : Inner (assist c step result) := by
  refine .bind (all_look trivial) fun v => ?_
  cases c.heuristicToolCall with
  | none => trivial
  | some call =>
    exact all_ite
      (.bind (all_update trivial) fun _ =>
        .bind (all_transition rfl) fun _ =>
          .bind (all_emit trivial) fun _ => .bind (all_update trivial) fun _ =>
            .bind (all_update trivial) fun _ => .bind (execute_calm _).holds.inner fun _ =>
              .bind (all_update trivial) fun _ =>
                .bind (addContext_modest _).mild.toolless.plain.holds.inner fun _ =>
                .bind (all_toObserving trivial) fun _ =>
                  .bind (all_transition rfl) fun _ =>
                    (callModel_toolless _ _).plain.holds.inner)
      trivial

theorem finishStep_inner (result : ModelResult) : Inner (finishStep c result) := by
  refine .bind (all_toObserving trivial) fun _ => .bind (all_update trivial) fun _ =>
    .bind (all_update trivial) fun _ => .bind (all_emit trivial) fun _ =>
      .bind (all_look trivial) fun v => .bind (all_when (all_wait trivial)) fun _ =>
        .bind (all_when (.bind (all_emit trivial) fun _ => all_asked trivial)) fun _ => ?_
  cases evaluateCompletion v.data result with
  | some summary => exact .bind (all_completeRun trivial) fun _ => trivial
  | none =>
    exact .bind (all_transition rfl) fun _ => trivial

theorem recoverStep_mild (error : LoopError) : Mild (recoverStep c error) :=
  .bind (all_look trivial) fun _ => all_ite trivial <| all_ite
    (.bind failoverLargerContext_modest.mild fun _ => all_ite
      (.bind (all_emit trivial) fun _ => trivial) trivial)
    (all_ite
      (.bind (all_update fun _ => ⟨rfl, rfl⟩) fun _ => .bind (all_emit trivial) fun _ =>
        .bind (all_when (all_wait rfl)) fun _ => .bind (all_look trivial) fun _ =>
          .bind (failover_modest _).mild fun _ => all_ite
            (.bind (all_emit trivial) fun _ => trivial)
            (all_ite (.bind (all_look trivial) fun _ => trivial)
              (.bind (all_look trivial) fun _ => all_ite
                (.bind (all_update fun _ => ⟨rfl, rfl⟩) fun _ =>
                  .bind (all_emit trivial) fun _ =>
                  .bind (all_wait rfl) fun _ => .bind (all_look trivial) fun _ => trivial)
                trivial)))
      trivial)

theorem executeStep_inner (step : Nat) : Inner (executeStep c step) := by
  refine .bind (p := .op _ _) ⟨trivial, fun _ => trivial⟩ fun _ => .bind (all_emit trivial) fun _ =>
    .bind (all_attempt (callModel_toolless _ _).plain.holds.inner) fun answer => ?_
  cases answer with
  | error error => exact (recoverStep_mild _).toolless.plain.holds.inner
  | ok result =>
    refine .bind (toolLoop_inner _ _ _) fun settled => ?_
    cases settled with
    | none => trivial
    | some result =>
      exact .bind (all_look trivial) fun _ => all_ite trivial <|
        .bind (assist_inner _ _) fun _ => finishStep_inner _

theorem handleOptimization_modest : ∀ trigger, Modest (handleOptimization c trigger)
  | .modelUnavailable => .bind (failover_modest _) fun _ => trivial
  | .contextCritical => .bind (all_look trivial) fun _ => .bind (compressContext_modest _) fun _ =>
      .bind (all_look trivial) fun _ => all_ite trivial trivial
  | .budgetCritical => .bind handleBudgetExceeded_modest fun _ => trivial

theorem handleTriggers_modest : ∀ triggers, Modest (handleTriggers c triggers)
  | [] => trivial
  | trigger :: triggers => .bind (all_emit trivial) fun _ =>
      .bind (handleOptimization_modest trigger) fun _ => .bind (all_emit trivial) fun _ =>
        handleTriggers_modest triggers

theorem checkOptimizationTriggers_modest : Modest (checkOptimizationTriggers c) :=
  .bind (p := .op _ _) ⟨trivial, fun _ => trivial⟩ fun _ => .bind (handleTriggers_modest _) fun _ =>
    .bind (all_when (all_emit trivial)) fun _ => all_when <| .bind (all_emit trivial) fun _ =>
      all_ite
      (.bind (all_look trivial) fun _ => .bind (compressContext_modest _) fun _ => trivial)
      (all_emit trivial)

theorem cancelledRun_placid (reason : String) : Placid (Loop.cancelledRun reason) :=
  ⟨trivial, fun _ => trivial⟩

theorem admitStep_placid : Placid (admitStep c) :=
  .bind (all_look trivial) fun _ => all_ite (.bind (cancelledRun_placid _) fun _ => trivial) <|
    all_ite trivial <| all_ite
      (.bind handleBudgetExceeded_modest.mild.placid fun _ => all_ite trivial <|
        .bind (all_look trivial) fun _ => trivial)
      trivial

theorem goesOn_placid : Placid goesOn :=
  .bind (all_look trivial) fun _ => all_ite (.bind (cancelledRun_placid _) fun _ => trivial) trivial

theorem closeRun_placid (steps : Nat) : Placid (closeRun c steps) := by
  refine .bind (all_look trivial) fun v => all_ite trivial <| all_ite ?_ (all_completeRun trivial)
  cases v.data.assistantMessages.getLast? with
  | some text => exact all_completeRun trivial
  | none => trivial

theorem enter_placid (entry : Entry) : Placid (enter entry) :=
  all_ite (.bind (all_emit trivial) fun _ => all_transition trivial)
    (.bind (all_transition trivial) fun _ => .bind (all_emit trivial) fun _ => all_emit trivial)

theorem setUp_placid (entry : Entry) : Placid (setUp c entry) :=
  .bind (enter_placid entry) fun _ => .bind (all_look trivial) fun _ => all_ite trivial <|
    all_ite trivial <| .bind (all_transition trivial) fun _ => .bind buildContext_modest.mild.placid fun _ =>
      .bind (all_transition trivial) fun _ => .bind selectModel_modest.mild.placid fun _ => all_transition trivial

theorem enter_inner (entry : Entry) : Inner (enter entry) :=
  all_ite (.bind (all_emit trivial) fun _ => all_transition rfl)
    (.bind (all_transition rfl) fun _ => .bind (all_emit trivial) fun _ => all_emit trivial)

theorem setUp_inner (entry : Entry) : Inner (setUp c entry) :=
  .bind (enter_inner entry) fun _ => .bind (all_look trivial) fun _ => all_ite trivial <|
    all_ite trivial <| .bind (all_transition rfl) fun _ =>
      .bind buildContext_modest.mild.toolless.plain.holds.inner fun _ => .bind (all_transition rfl) fun _ =>
        .bind selectModel_modest.mild.toolless.plain.holds.inner fun _ => all_transition rfl

end Loop

end OrchestraAI.Core
