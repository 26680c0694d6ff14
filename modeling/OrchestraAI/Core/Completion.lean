import OrchestraAI.Core.EpisodeLog
import OrchestraAI.Core.HistoryRules
import OrchestraAI.Core.RunLimits
import OrchestraAI.Library.NotedProgram

/-! # What completes a run

A run that completes within a step completes with an answer that the model has given in the same
episode and that meets the completion contract. At the step limit it completes with its last
message, whatever that is and from whatever episode.
-/

namespace OrchestraAI.Core

open AsyncProgram LabelledSystem

def Wait.said : (t : Wait) → t.Ans → List ModelResult
  | .completed _ _, .ok (answer, _) => [⟨answer.text, answer.toolCalls⟩]
  | .streamed _ _ _, .ok ⟨_, some answer⟩ => [⟨answer.text, answer.toolCalls⟩]
  | .cacheRead, .ok (some answer) => [answer]
  | .semanticLookedUp, some hit => [hit.toModelResult]
  | _, _ => []

structure Progress where
  /-- What the model has answered in the episode. -/
  answers : List ModelResult
  /-- A step has begun, and its optimization check has not. -/
  inStep : Bool
  /-- The data of the run when it was completed. -/
  completedOn : Option LoopData

def progress : Notes Episode Op Wait Wait.Ans Progress where
  applied o s g :=
    match o with
    | .startStep => { g with inStep := true }
    | .evaluate => { g with inStep := false }
    | .completeRun _ => if s.endsNothing then g else { g with completedOn := some s.data }
    | _ => g
  heard t a g := { g with answers := g.answers ++ t.said a }

abbrev NotedEpisode := System (Episode × Progress) Op Op.Res Wait Wait.Ans LoopError Unit

def Op.answers : Op → Bool
  | .completeRun (some _) => true
  | _ => false

namespace NotedEpisode

def step (x : NotedEpisode) (l : EpisodeLabel) : Option NotedEpisode :=
  progress.step exec ends outside x l

structure Start (c : Settings) (entry : Loop.Entry) (x : NotedEpisode) : Prop where
  plain : EpisodeSystem.Start c entry x.plain
  noted : x.shared.2 = ⟨[], false, none⟩

def Final (d : LoopData) (result : ModelResult) : Prop :=
  Loop.evaluateCompletion d result = some result.text

structure Earned (x : NotedEpisode) : Prop where
  event : ∀ summary steps cost latency,
    .runCompleted summary steps cost latency ∈ x.shared.1.log →
      ∃ d, x.shared.2.completedOn = some d ∧
        ∃ result ∈ x.shared.2.answers, Final d result ∧
          summary = (CodeUnits.ofText result.text.toList).take 500
  status : x.shared.1.status = .completed →
    ∃ summary steps cost latency, .runCompleted summary steps cost latency ∈ x.shared.1.log
  ended : x.prog.stand = some none →
    x.shared.1.status = .completed ∨ x.shared.1.status = .failed ∨ x.shared.1.abort = true

/-- No run is completed with a text between two steps, as it is at the step limit. -/
def WithinSteps (x : NotedEpisode) : EpisodeLabel → Prop
  | .tick => x.prog.due.any Op.answers = true → x.shared.2.inStep = true
  | _ => True

instance (x : NotedEpisode) : ∀ l, Decidable (x.WithinSteps l)
  | .tick => inferInstanceAs (Decidable (_ → _))
  | .resume _ | .env _ => inferInstanceAs (Decidable True)

end NotedEpisode

/-- A completion with a text comes in a step, with an answer that is final; there is none without a
text. -/
def completions : Contract (Episode × Progress) Op Wait Wait.Ans where
  safe o x :=
    match o with
    | .completeRun (some text) => ∃ result ∈ x.2.answers, NotedEpisode.Final x.1.data result ∧
        text = result.text
    | .completeRun none => False
    | _ => True
  allowed o x := x.1.Sound ∧ match o with
    | .completeRun (some _) => x.2.inStep = true
    | _ => True
  rely t x a x' := x'.1.data = x.1.data ∧ (x.1.Over → x'.1.Over) ∧ x'.2 = progress.heard t a x.2

namespace Loop

variable {α β : Type} {c : Settings} {x : Episode × Progress}

/-- `p` meets the contract and comes to `Q`. -/
abbrev Comes (p : Loop α) (x : Episode × Progress)
    (Q : Except LoopError α → Episode × Progress → Prop) : Prop :=
  Meets completions (progress.apply exec) p x Q

def Heard (result : ModelResult) (x : Episode × Progress) : Prop :=
  result ∈ x.2.answers ∨ Text.trim result.text.toList = []

theorem heard_apply {result : ModelResult} (o : Op) (h : Heard result x) :
    Heard result (progress.apply exec o x).2 := by
  refine h.imp_left fun hMem => ?_
  cases o with
  | completeRun summary =>
    change result ∈ (if x.1.endsNothing then x.2 else _).answers
    split
    · exact hMem
    · exact hMem
  | _ => exact hMem

theorem heard_rely {result : ModelResult} {t : Wait} {a : t.Ans} {x' : Episode × Progress}
    (h : completions.rely t x a x') (hHeard : Heard result x) : Heard result x' := by
  obtain ⟨-, -, hNotes⟩ := h
  rw [Heard, hNotes]
  exact hHeard.imp_left (List.mem_append_left _)

abbrev Open (p : Loop α) : Prop := p.All (fun o => o.completes = false) fun _ => True

abbrev Between (p : Loop α) : Prop :=
  p.All (fun o => o.completes = false ∧ o ≠ .startStep) fun _ => True

theorem completes_of_plain {o : Op} (h : o.plain) : o.completes = false := by
  cases o with
  | completeRun summary => exact h.elim
  | _ => rfl

theorem Holds.opens {p : Loop α} (h : Holds p) : Open p := by
  refine h.mono (fun o ho => ?_) fun _ _ => trivial
  obtain hPlain | rfl := ho
  · exact completes_of_plain hPlain
  · rfl

theorem Toolless.opens {p : Loop α} (h : Toolless p) : Open p := h.plain.holds.opens

theorem Modest.between {p : Loop α} (h : Modest p) : Between p := by
  refine h.mono (fun o ho => ⟨completes_of_plain (plain_of_still (still_of_modest ho)), ?_⟩)
    fun _ _ => trivial
  rintro rfl
  exact ho.elim

theorem Between.opens {p : Loop α} (h : Between p) : Open p :=
  h.mono (fun _ ho => ho.1) fun _ _ => trivial

theorem safe_of_open {o : Op} (h : o.completes = false) (x : Episode × Progress) :
    completions.safe o x := by
  cases o with
  | completeRun summary => cases h
  | _ => trivial

theorem Open.comes {p : Loop α} (h : Open p) {I : Episode × Progress → Prop} (hI : I x)
    (hOp : ∀ o y, o.completes = false → I y → I (progress.apply exec o y).2)
    (hAwait : ∀ t y (a : t.Ans) y', I y → completions.rely t y a y' → I y')
    {Q : Except LoopError α → Episode × Progress → Prop} (hQ : ∀ r y, I y → Q r y) :
    Comes p x Q :=
  .of_all h hI (fun o y ho hy _ => ⟨safe_of_open ho y, hOp o y ho hy⟩)
    (fun t y a y' _ hy hRely => hAwait t y a y' hy hRely) hQ

theorem Open.comes_any {p : Loop α} (h : Open p)
    {Q : Except LoopError α → Episode × Progress → Prop} (hQ : ∀ r y, Q r y) : Comes p x Q :=
  h.comes (I := fun _ => True) trivial (fun _ _ _ _ => trivial) (fun _ _ _ _ _ _ => trivial)
    fun r y _ => hQ r y

theorem Open.comes_heard {p : Loop α} (h : Open p) {result : ModelResult} (hHeard : Heard result x)
    {Q : Except LoopError α → Episode × Progress → Prop} (hQ : ∀ r y, Heard result y → Q r y) :
    Comes p x Q :=
  h.comes hHeard (fun o _ _ => heard_apply o) (fun _ _ _ _ hy hRely => heard_rely hRely hy) hQ

def Idle (x : Episode × Progress) : Prop := x.2.inStep = false

theorem Between.comes {p : Loop α} (h : Between p) (hIdle : Idle x)
    {Q : Except LoopError α → Episode × Progress → Prop} (hQ : ∀ r y, Idle y → Q r y) :
    Comes p x Q := by
  refine .of_all h hIdle (fun o y ho hy _ => ⟨safe_of_open ho.1 y, ?_⟩)
    (fun t y a y' _ hy hRely => ?_) hQ
  · cases o with
    | startStep => exact absurd rfl ho.2
    | completeRun summary => cases ho.1
    | evaluate => rfl
    | _ => exact hy
  · rw [Idle, hRely.2.2]
    exact hy

theorem comes_look {f : View → Loop β} {Q : Except LoopError β → Episode × Progress → Prop}
    (h : Comes (f x.1.view) x Q) : Comes (look >>= f) x Q :=
  fun _ => ⟨trivial, h⟩

/-- A result that the part comes to, unless it throws, meets `P`. -/
abbrev Brings (p : Loop α) (x : Episode × Progress) (P : α → Episode × Progress → Prop) : Prop :=
  Comes p x fun r y => ∀ a, r = .ok a → P a y

variable {P : α → Episode × Progress → Prop} {P' : β → Episode × Progress → Prop}

theorem brings_pure {a : α} (h : P a x) : Brings (pure a) x P :=
  fun _ hSame => Except.ok.inj hSame ▸ h

theorem brings_nothing {P : α → Prop} (e : LoopError) (a : α)
    (h : (.error e : Except LoopError α) = .ok a) : P a := by
  cases h

theorem Brings.bind {p : Loop α} {f : α → Loop β} (h : Brings p x P)
    (hf : ∀ a y, P a y → Brings (f a) y P') : Brings (p >>= f) x P' := by
  refine Meets.bind (Meets.mono h fun r y hr => ?_)
  cases r with
  | error e => exact brings_nothing e
  | ok a => exact hf a y (hr a rfl)

theorem brings_then {p : Loop α} {f : α → Loop β} (hp : Open p) (h : ∀ a y, Brings (f a) y P') :
    Brings (p >>= f) x P' :=
  Brings.bind (P := fun _ _ => True) (hp.comes_any fun _ _ _ _ => trivial) fun a y _ => h a y

theorem brings_after {p : Loop α} {f : α → Loop β} {result : ModelResult} (hp : Open p)
    (hHeard : Heard result x) (h : ∀ a y, Heard result y → Brings (f a) y P') :
    Brings (p >>= f) x P' :=
  Brings.bind (P := fun _ => Heard result) (hp.comes_heard hHeard fun _ _ hy _ _ => hy) h

theorem brings_ask {t : Wait} {f : t.Ans → Except LoopError α} {k : α → Loop β}
    (h : ∀ a y, completions.rely t x a y → ∀ b, f a = .ok b → Brings (k b) y P') :
    Brings (wait t >>= fun a => ofExcept (f a) >>= k) x P' := by
  intro a y hRely
  change Brings (ofExcept (f a) >>= k) y P'
  cases hAnswer : f a with
  | error e => exact brings_nothing e
  | ok b => exact h a y hRely b hAnswer

theorem brings_wait {t : Wait} {k : t.Ans → Loop β}
    (h : ∀ a y, completions.rely t x a y → Brings (k a) y P') : Brings (wait t >>= k) x P' := h

abbrev Hears (p : Loop ModelResult) (x : Episode × Progress) : Prop := Brings p x Heard

theorem heard_said {t : Wait} {a : t.Ans} {result : ModelResult} {y : Episode × Progress}
    (hRely : completions.rely t x a y) (h : result ∈ t.said a) : Heard result y := by
  rw [Heard, hRely.2.2]
  exact .inl (List.mem_append_right _ h)

theorem replay_hears {step : Nat} {modelId : Option ModelId} {definition : ModelDef}
    {cacheType : String} {answer : ModelResult} (h : Heard answer x) :
    Hears (replay step modelId definition cacheType answer) x :=
  brings_after (all_update rfl) h fun _ _ h => brings_after (all_emit rfl) h fun _ _ h =>
    brings_pure h

theorem readStream_hears (model : Option ModelId) (history : List Turn) (n : Nat)
    (final : Option Completion) (h : ∀ answer ∈ final, Heard ⟨answer.text, answer.toolCalls⟩ x) :
    Brings (readStream model history n final) x fun answer =>
      Heard ⟨answer.text, answer.toolCalls⟩ := by
  induction n generalizing final x with
  | zero =>
    refine brings_pure ?_
    cases final with
    | none => exact .inr rfl
    | some answer => exact h answer rfl
  | succ n ih =>
    refine brings_ask fun a y hRely part hPart => ?_
    have hFinal (answer : Completion) (hMem : answer ∈ part.final.or final) :
        Heard ⟨answer.text, answer.toolCalls⟩ y := by
      obtain hNew | ⟨-, hOld⟩ := Option.or_eq_some_iff.mp hMem
      · subst hPart
        obtain ⟨delta, found⟩ := part
        cases hNew
        exact heard_said hRely (List.mem_singleton_self _)
      · exact heard_rely hRely (h answer hOld)
    cases hLast : part.final.or final with
    | none =>
      refine brings_then (all_when (all_emit rfl)) fun _ z => ih _ ?_
      intro answer hMem
      cases hMem
    | some answer =>
      refine brings_after (all_when (all_emit rfl)) (hFinal answer hLast) fun _ z hz => ih _ ?_
      intro answer' hMem
      cases hMem
      exact hz

theorem callProvider_hears (model : Option ModelId) (history : List Turn) :
    Brings (callProvider c model history) x fun given =>
      Heard ⟨given.1.text, given.1.toolCalls⟩ := by
  rw [callProvider]
  split
  · refine brings_wait fun opened y _ => ?_
    refine Brings.bind (readStream_hears model history opened.1 none fun answer h => by cases h) ?_
    exact fun answer z hz => brings_pure hz
  · refine brings_ask fun a y hRely given hGiven => ?_
    have hHeard : Heard ⟨given.1.text, given.1.toolCalls⟩ y := by
      subst hGiven
      exact heard_said hRely (List.mem_singleton_self _)
    exact brings_after (all_when (all_emit rfl)) hHeard fun _ z hz => brings_pure hz

theorem request_hears (step : Nat) (continuation : Bool) (modelId : Option ModelId)
    (definition : ModelDef) (promptTokens : Nat) :
    Hears (request c step continuation modelId definition promptTokens) x := by
  refine comes_look (brings_then (all_call rfl) fun _ y => ?_)
  refine Brings.bind (callProvider_hears _ _) fun given z hz => ?_
  exact brings_after (account_modest _ _ _ _ _ _).between.opens hz fun _ _ h =>
    brings_after (all_when (all_asked trivial)) h fun _ _ h =>
      brings_after (all_when (all_wait trivial)) h fun _ _ h => brings_pure h

theorem cached_hears (step : Nat) (modelId : Option ModelId) (definition : ModelDef) :
    Brings (cached c step modelId definition) x fun found y => ∀ result ∈ found, Heard result y := by
  have hNone (y : Episode × Progress) : Brings (pure none : Loop (Option ModelResult)) y
      fun found y => ∀ result ∈ found, Heard result y := by
    refine brings_pure ?_
    intro result hMem
    cases hMem
  rw [cached]
  split
  · refine brings_ask fun a y hRely stored hStored => ?_
    cases stored with
    | none => exact hNone y
    | some answer =>
      have hHeard : Heard answer y := by
        subst hStored
        exact heard_said hRely (List.mem_singleton_self _)
      dsimp only
      split
      · exact hNone y
      · refine Brings.bind (replay_hears hHeard) fun result z hz => ?_
        refine brings_after (all_addCost rfl) hz fun _ z hz => ?_
        refine brings_after (all_emit rfl) hz fun _ z hz => brings_pure ?_
        intro result' hMem
        cases hMem
        exact hz
  · exact hNone x

theorem reuse_hears (step : Nat) (continuation : Bool) (modelId : Option ModelId)
    (definition : ModelDef) :
    Brings (reuse c step continuation modelId definition) x fun found y =>
      ∀ result ∈ found, Heard result y := by
  have hNone (y : Episode × Progress) : Brings (pure none : Loop (Option ModelResult)) y
      fun found y => ∀ result ∈ found, Heard result y := by
    refine brings_pure ?_
    intro result hMem
    cases hMem
  rw [reuse]
  split
  · refine brings_wait fun found y hRely => ?_
    cases found with
    | none => exact hNone y
    | some hit =>
      dsimp only
      split
      · have hHeard : Heard hit.toModelResult y := heard_said hRely (List.mem_singleton_self _)
        refine Brings.bind (replay_hears hHeard) fun result z hz => brings_pure ?_
        intro result' hMem
        cases hMem
        exact hz
      · exact brings_then (all_emit rfl) fun _ z => hNone z
  · exact hNone x

theorem answerCall_hears (step : Nat) (continuation : Bool) (modelId : Option ModelId)
    (definition : ModelDef) (promptTokens : Nat) :
    Hears (answerCall c step continuation modelId definition promptTokens) x := by
  refine Brings.bind (cached_hears _ _ _) fun found y hFound => ?_
  cases found with
  | some result => exact brings_pure (hFound result rfl)
  | none =>
    dsimp only
    split
    · exact brings_nothing _
    · refine Brings.bind (reuse_hears _ _ _ _) fun hit z hHit => ?_
      cases hit with
      | some result => exact brings_pure (hHit result rfl)
      | none => exact request_hears _ _ _ _ _

theorem callModel_hears (step : Nat) (continuation : Bool) :
    Hears (callModel c step continuation) x := by
  refine comes_look ?_
  split
  · exact brings_nothing _
  · refine brings_then (resolveModel_modest _).between.opens fun definition y => ?_
    split
    · exact brings_nothing _
    · refine brings_then buildPrompt_toolless.opens fun estimate y => ?_
      refine brings_then (fitPrompt_toolless _ _ _).opens fun promptTokens y => ?_
      refine brings_then (guardBudget_modest _ _ _).between.opens fun guarded y => ?_
      exact brings_then (all_update rfl) fun _ y => answerCall_hears _ _ _ _ _

/-- What a part that may stop a step leaves: an answer that was heard, or a run that is over. -/
def Settles (settled : Option ModelResult) (x : Episode × Progress) : Prop :=
  match settled with
  | some result => Heard result x
  | none => x.1.Over

theorem toolLoop_settles (step : Nat) (guard : Nat) (result : ModelResult)
    (h : Heard result x) : Brings (toolLoop c step guard result) x Settles := by
  induction guard generalizing result x with
  | zero => exact brings_pure h
  | succ guard ih =>
    rw [toolLoop]
    split
    · exact brings_pure h
    · refine comes_look ?_
      split
      · rename_i hAbort
        exact brings_pure (show x.1.Over from .inr hAbort)
      · split
        · exact brings_nothing _
        · refine brings_then (all_update rfl) fun _ y => ?_
          refine brings_then (all_transition rfl) fun _ y => ?_
          refine brings_then (all_emitAll (fun _ => rfl) _) fun _ y => ?_
          refine brings_then (runCalls_holds _).opens fun _ y => ?_
          refine brings_then (all_toObserving rfl) fun _ y => ?_
          refine brings_then (all_emit rfl) fun _ y => ?_
          refine brings_then (all_transition rfl) fun _ y => ?_
          exact Brings.bind (callModel_hears _ _) fun next z hz => ih next hz

theorem assist_hears (step : Nat) (result : ModelResult) (h : Heard result x) :
    Hears (assist c step result) x := by
  refine comes_look ?_
  cases c.heuristicToolCall with
  | none => exact brings_pure h
  | some call =>
    dsimp only
    split
    · refine brings_then (all_update rfl) fun _ y => ?_
      refine brings_then (all_transition rfl) fun _ y => ?_
      refine brings_then (all_emit rfl) fun _ y => ?_
      refine brings_then (all_update rfl) fun _ y => ?_
      refine brings_then (all_update rfl) fun _ y => ?_
      refine brings_then (execute_calm _).holds.opens fun _ y => ?_
      refine brings_then (all_update rfl) fun _ y => ?_
      refine brings_then (addContext_modest _).between.opens fun _ y => ?_
      refine brings_then (all_toObserving rfl) fun _ y => ?_
      exact brings_then (all_transition rfl) fun _ y => callModel_hears _ _
    · exact brings_pure h

theorem evaluateCompletion_some {d : LoopData} {result : ModelResult} {summary : String}
    (h : evaluateCompletion d result = some summary) :
    summary = result.text ∧ Text.trim result.text.toList ≠ [] := by
  rw [evaluateCompletion] at h
  split at h
  · cases h
  · split at h
    · cases h
    · split at h
      · cases h
      · rename_i hText
        exact ⟨(Option.some.inj h).symm, hText⟩

theorem completeRun_final {result : ModelResult} {summary : String} (hHeard : Heard result x)
    (hFinal : evaluateCompletion x.1.data result = some summary) :
    Brings (do Loop.completeRun (some summary); pure false) x fun more y =>
      more = false → y.1.Over := by
  obtain ⟨rfl, hText⟩ := evaluateCompletion_some hFinal
  have hMem : result ∈ x.2.answers := hHeard.resolve_right hText
  intro hAllowed
  refine ⟨⟨result, hMem, hFinal, rfl⟩, ?_⟩
  change Brings (ofExcept (exec (.completeRun (some result.text)) x.1).1 >>= fun _ => pure false)
    ((exec (.completeRun (some result.text)) x.1).2, _) _
  rcases hAllowed.1.completeRun_cases (some result.text) with
    ⟨hNothing, hSame⟩ | ⟨-, hOk, hEnds⟩ | ⟨-, error, hError⟩
  · rw [exec, hSame]
    exact brings_pure fun _ => .inl (hAllowed.1.endsNothing ▸ hNothing)
  · rw [exec, hOk]
    exact brings_pure fun _ => hEnds.over
  · rw [exec, hError]
    exact brings_nothing _

theorem brings_kept {p : Loop α} {f : α → Loop β} {result : ModelResult}
    (hp : p.All (fun o => ∃ type, o = .emit type) fun _ => True) (hHeard : Heard result x)
    (h : ∀ a y, Heard result y → y.1.data = x.1.data → Brings (f a) y P') :
    Brings (p >>= f) x P' := by
  refine Brings.bind (P := fun _ y => Heard result y ∧ y.1.data = x.1.data) ?_ fun a y hy =>
    h a y hy.1 hy.2
  refine .of_all (I := fun y => Heard result y ∧ y.1.data = x.1.data) hp ⟨hHeard, rfl⟩ ?_ ?_
    fun r y hy a _ => hy
  · rintro o y ⟨type, rfl⟩ hy -
    exact ⟨trivial, heard_apply _ hy.1, hy.2⟩
  · exact fun t y a y' _ hy hRely => ⟨heard_rely hRely hy.1, hRely.1.trans hy.2⟩

theorem finishStep_over (result : ModelResult) (h : Heard result x) :
    Brings (finishStep c result) x fun more y => more = false → y.1.Over := by
  refine brings_after (all_toObserving rfl) h fun _ y h => ?_
  refine brings_after (all_update rfl) h fun _ y h => ?_
  refine brings_after (all_update rfl) h fun _ y h => ?_
  refine brings_after (all_emit rfl) h fun _ y h => comes_look ?_
  refine brings_kept (all_when (all_wait trivial)) h fun _ z h hData => ?_
  refine brings_kept (all_when (.bind (all_emit ⟨_, rfl⟩) fun _ => all_asked trivial)) h
    fun _ w h hSame => ?_
  cases hFinal : evaluateCompletion y.1.view.data result with
  | some summary =>
    refine completeRun_final h ?_
    rw [hSame, hData]
    exact hFinal
  | none => exact brings_then (all_transition rfl) fun _ z => brings_pure nofun

theorem recoverStep_over (error : LoopError) :
    Brings (recoverStep c error) x fun more y => more = false → y.1.Over := by
  refine comes_look ?_
  split
  · rename_i hAbort
    exact brings_pure fun _ => .inr hAbort
  · split
    · refine brings_then failoverLargerContext_modest.between.opens fun found y => ?_
      split
      · exact brings_then (all_emit rfl) fun _ y => brings_pure nofun
      · exact brings_nothing _
    · split
      · refine brings_then (all_update rfl) fun _ y => ?_
        refine brings_then (all_emit rfl) fun _ y => ?_
        refine brings_then (all_when (all_wait trivial)) fun _ y => comes_look ?_
        refine brings_then (failover_modest _).between.opens fun found y => ?_
        split
        · exact brings_then (all_emit rfl) fun _ y => brings_pure nofun
        · split
          · exact comes_look (brings_nothing _)
          · refine comes_look ?_
            split
            · refine brings_then (all_update rfl) fun _ y => ?_
              refine brings_then (all_emit rfl) fun _ y => ?_
              refine brings_then (all_wait trivial) fun _ y => comes_look (brings_pure fun h => ?_)
              have hAbort : y.1.view.abort = true := by simpa using h
              exact .inr hAbort
            · exact brings_nothing _
      · exact brings_nothing _

theorem attempt_brings {p : Loop α} (h : Brings p x P) :
    Brings (attempt p) x fun answer y => ∀ a, answer = .ok a → P a y := by
  refine Meets.tryCatch (Meets.bind (Meets.mono h fun r y hr => ?_))
  cases r with
  | error e =>
    intro answer hSame a hOk
    cases Except.ok.inj hSame
    cases hOk
  | ok a =>
    intro answer hSame b hOk
    cases Except.ok.inj hSame
    cases hOk
    exact hr a rfl

theorem executeStep_over (step : Nat) :
    Brings (executeStep c step) x fun more y => more = false → y.1.Over := by
  have hStart : Open (Prog.op .startStep Prog.done : Loop Unit) := ⟨rfl, fun _ => trivial⟩
  refine brings_then hStart fun _ y => ?_
  refine brings_then (all_emit rfl) fun _ y => ?_
  refine Brings.bind (attempt_brings (callModel_hears _ _)) fun answer y hAnswer => ?_
  cases answer with
  | error error => exact recoverStep_over error
  | ok result =>
    refine Brings.bind (toolLoop_settles _ _ _ (hAnswer result rfl)) fun settled y hSettled => ?_
    cases settled with
    | none => exact brings_pure fun _ => hSettled
    | some result =>
      refine comes_look ?_
      split
      · rename_i hAbort
        exact brings_pure fun _ => .inr hAbort
      · exact Brings.bind (assist_hears _ _ hSettled) fun result y h => finishStep_over _ h

theorem checkOptimizationTriggers_idle {O : Prop} (h : O → x.1.Over) :
    Brings (checkOptimizationTriggers c) x fun _ y => Idle y ∧ (O → y.1.Over) := by
  intro hAllowed
  refine ⟨trivial, ?_⟩
  have hRest (v : View) : Modest (do
      handleTriggers c (criticalTriggers c v)
      when (budgetWarns c v) (emit .budgetWarning)
      when (nearLimit c v) do
        emit .contextLimitWarning
        if c.allowCompaction then do
          let now ← look
          let _ ← compressContext (now.data.maximumTokens * 3 / 5)
        else emit .optimizationTriggered : Loop Unit) :=
    checkOptimizationTriggers_modest.2 v
  refine .of_all (I := fun y => Idle y ∧ (O → y.1.Over)) (hRest _) ⟨rfl, h⟩ ?_ ?_
    fun r y hy _ _ => hy
  · intro o y ho hy _
    have hPlain := plain_of_still (still_of_modest ho)
    refine ⟨safe_of_open (completes_of_plain hPlain) y, ?_, fun hO => ?_⟩
    · cases o with
      | startStep => exact ho.elim
      | completeRun summary => exact ho.elim
      | evaluate => rfl
      | _ => exact hy.1
    · exact (Episode.onward_plain y.1 hPlain).over (hy.2 hO)
  · intro t y a y' _ hy hRely
    refine ⟨?_, fun hO => hRely.2.1 (hy.2 hO)⟩
    rw [Idle, hRely.2.2]
    exact hy.1

theorem between_cancelledRun (reason : String) : Between (Loop.cancelledRun reason) :=
  ⟨⟨rfl, nofun⟩, fun _ => trivial⟩

theorem between_look : Between look := ⟨⟨rfl, nofun⟩, fun _ => trivial⟩

theorem admitStep_between : Between (admitStep c) :=
  .bind between_look fun _ => all_ite (.bind (between_cancelledRun _) fun _ => trivial) <|
    all_ite trivial <| all_ite
      (.bind handleBudgetExceeded_modest.between fun _ => all_ite trivial <|
        .bind between_look fun _ => trivial)
      trivial

theorem goesOn_between : Between goesOn :=
  .bind between_look fun _ => all_ite (.bind (between_cancelledRun _) fun _ => trivial) trivial

theorem setUp_between (entry : Entry) : Between (setUp c entry) := by
  have hTransition (next : TaskStatus) : Between (Loop.transition next) :=
    all_transition ⟨rfl, nofun⟩
  have hEmit (type : EventType) : Between (emit type) := all_emit ⟨rfl, nofun⟩
  have hEnter : Between (enter entry) :=
    all_ite (.bind (hEmit _) fun _ => hTransition _)
      (.bind (hTransition _) fun _ => .bind (hEmit _) fun _ => hEmit _)
  exact .bind hEnter fun _ => .bind between_look fun _ => all_ite trivial <| all_ite trivial <|
    .bind (hTransition _) fun _ => .bind buildContext_modest.between fun _ =>
      .bind (hTransition _) fun _ => .bind selectModel_modest.between fun _ => hTransition _

/-- The loop is left between two steps: at the limit, or with a run that is over. -/
def LeftBetween (c : Settings) (settled : Option Nat) (x : Episode × Progress) : Prop :=
  ∀ steps ∈ settled, Idle x ∧ (c.maxSteps ≤ steps ∨ x.1.Over)

theorem runSteps_left (left steps : Nat) (hIdle : Idle x) (hLimit : c.maxSteps ≤ steps + left) :
    Brings (runSteps c left steps) x (LeftBetween c) := by
  have hNone (y : Episode × Progress) : Brings (pure none : Loop (Option Nat)) y (LeftBetween c) :=
    brings_pure nofun
  induction left generalizing steps x with
  | zero =>
    refine brings_pure ?_
    rintro steps ⟨⟩
    exact ⟨hIdle, .inl hLimit⟩
  | succ left ih =>
    refine Brings.bind (P := fun _ => Idle)
      (admitStep_between.comes hIdle fun r y hy _ _ => hy) fun admitted y hy => ?_
    split
    · refine brings_then (all_update rfl) fun _ y => ?_
      refine Brings.bind (executeStep_over _) fun more y hMore => ?_
      refine Brings.bind (checkOptimizationTriggers_idle hMore) fun _ y hChecked => ?_
      obtain ⟨hIdle, hOver⟩ := hChecked
      split
      · rename_i hStops
        refine brings_pure ?_
        rintro steps ⟨⟩
        exact ⟨hIdle, .inr (hOver (by simpa using hStops))⟩
      · refine Brings.bind (P := fun _ => Idle)
          (goesOn_between.comes hIdle fun r y hy _ _ => hy) fun goes y hy => ?_
        split
        · exact ih (steps + 1) hy (by omega)
        · exact hNone y
    · exact hNone y

theorem closeRun_comes {steps : Nat} (hIdle : Idle x) (h : c.maxSteps ≤ steps ∨ x.1.Over) :
    Comes (closeRun c steps) x fun _ _ => True := by
  refine comes_look ?_
  split
  · trivial
  · rename_i hOpen
    have hLimit : c.maxSteps ≤ steps := by
      refine h.resolve_right fun hOver => hOpen ?_
      rw [Bool.or_eq_true]
      exact hOver
    rw [if_pos hLimit]
    cases hLast : x.1.view.data.assistantMessages.getLast? with
    | none => trivial
    | some text =>
      -- A completion between two steps is not allowed.
      intro hAllowed
      have hInStep : x.2.inStep = true := hAllowed.2
      rw [hIdle] at hInStep
      cases hInStep

theorem executeRun_comes (entry : Entry) (hIdle : Idle x) :
    Comes (executeRun c entry) x fun _ _ => True := by
  refine .bind ((setUp_between entry).comes hIdle fun r y hy => ?_)
  cases r with
  | error e => trivial
  | ok u =>
    refine .bind (Between.comes (p := update _) (all_update ⟨rfl, nofun⟩) hy fun r y hy => ?_)
    cases r with
    | error e => trivial
    | ok u =>
      refine .bind ((runSteps_left (c := c) _ _ hy (by omega)).mono fun r y hLeft => ?_)
      cases r with
      | error e => trivial
      | ok settled =>
        cases settled with
        | none => trivial
        | some steps =>
          obtain ⟨hIdle, hWhy⟩ := hLeft _ rfl steps rfl
          exact closeRun_comes hIdle hWhy

theorem episode_comes (entry : Entry) (hIdle : Idle x) :
    Comes (episode c entry) x fun _ _ => True := by
  have hClose : Open (do wait .closing; Prog.op .settle Prog.done : Loop Unit) :=
    .bind (all_wait trivial) fun _ => ⟨rfl, fun _ => trivial⟩
  have hFail (error : LoopError) :
      Open (do wait .rejected; Prog.op (.failRun error.toRunError) Prog.done : Loop Unit) :=
    .bind (all_wait trivial) fun _ => ⟨rfl, fun _ => trivial⟩
  refine .bind (.tryCatch ((executeRun_comes entry hIdle).mono fun r y _ => ?_))
  cases r with
  | ok u => exact hClose.comes_any fun _ _ => trivial
  | error error =>
    refine (hFail error).comes_any fun r y => ?_
    cases r with
    | error e => trivial
    | ok u => exact hClose.comes_any fun _ _ => trivial

end Loop

def Event.completes : Event → Bool
  | .runCompleted .. => true
  | _ => false

open Episode

namespace NotedEpisode

open EpisodeSystem (retriedEpisode plainSettings)

variable {c : Settings} {entry : Loop.Entry} {x y : NotedEpisode} {l : EpisodeLabel}

/-- A completion that is logged is one by an answer that was final when the run was completed. -/
def Accounts (s : Episode) (g : Progress) : Prop :=
  ∀ summary steps cost latency, .runCompleted summary steps cost latency ∈ s.log →
    ∃ d, g.completedOn = some d ∧
      ∃ result ∈ g.answers, Final d result ∧
          summary = (CodeUnits.ofText result.text.toList).take 500

def Announced (s : Episode) : Prop :=
  s.status = .completed → ∃ summary steps cost latency,
    .runCompleted summary steps cost latency ∈ s.log

def Idles (e : Event) : Prop := e.completes = false

theorem usual_idles : Usual Idles := ⟨rfl, rfl, fun _ => rfl⟩

theorem idles_events (s : Episode) {o : Op} (h : o.completes = false) :
    ∀ e ∈ s.events o, Idles e := by
  intro e he
  cases o with
  | emit type => exact List.mem_singleton.mp he ▸ rfl
  | completeRun summary => cases h
  | reportBudgetExceeded => exact List.mem_singleton.mp he ▸ rfl
  | failRun error =>
    rw [events] at he
    split at he
    · cases he
    · obtain hWarned | hFailed := List.mem_append.mp he
      · split at hWarned
        · exact List.mem_singleton.mp hWarned ▸ rfl
        · cases hWarned
      · exact List.mem_singleton.mp hFailed ▸ rfl
  | _ => cases he

theorem Accounts.uncompleted {s t : Episode} {g g' : Progress} (h : Accounts s g)
    (hLogged : Logged Idles s t) (hOn : g'.completedOn = g.completedOn) (hAnswers : g.answers ⊆ g'.answers) :
    Accounts t g' := by
  intro summary steps cost latency hMem
  obtain ⟨events, hLog, hNone⟩ := hLogged
  rw [hLog] at hMem
  obtain hOld | hNew := List.mem_append.mp hMem
  · obtain ⟨d, hd, result, hResult, hFinal⟩ := h summary steps cost latency hOld
    exact ⟨d, hOn.trans hd, result, hAnswers hResult, hFinal⟩
  · cases hNone _ hNew

theorem Announced.uncompleted {s t : Episode} (h : Announced s) (ht : Uncompleted Idles s t) :
    Announced t := by
  intro hCompleted
  obtain ⟨summary, steps, cost, latency, hMem⟩ := h (ht.status hCompleted)
  obtain ⟨events, hLog, -⟩ := ht.logged
  exact ⟨summary, steps, cost, latency, hLog ▸ List.mem_append_left _ hMem⟩

/-- The invariant: completions are accounted for, and the loop keeps to its contracts. -/
structure Accounted (x : NotedEpisode) : Prop where
  settled : x.shared.1.Settled
  accounts : Accounts x.shared.1 x.shared.2
  announced : Announced x.shared.1
  owes : Loop.Owes x.prog x.shared.1 fun _ t => t.Over
  comes : Loop.Comes x.prog x.shared fun _ _ => True

theorem Start.accounted (h : Start c entry x) : x.Accounted := by
  have hOpen : x.shared.1.status.terminal = false := h.plain.status
  have hLive : x.shared.1.live = true := h.plain.live
  have hMachine : x.shared.1.machine.terminal = false := h.plain.machine
  have hLog : x.shared.1.log = [] := h.plain.log
  have hCancelling : x.shared.1.cancelling = [] := h.plain.cancelling
  have hNot {status : TaskStatus} (hStatus : x.shared.1.status = status)
      (hTerminal : status.terminal = true) : False := by
    rw [hStatus, hTerminal] at hOpen
    cases hOpen
  have hSound : x.shared.1.Sound := by
    refine ⟨hMachine.trans hOpen.symm, ?_, ?_⟩
    · rw [hLive, hOpen]
      rfl
    · rw [endings, hLog, hOpen]
      rfl
  have hIdle : Loop.Idle x.shared := by rw [Loop.Idle, h.noted]
  have hProg : x.prog = Loop.episode c entry := h.plain.prog
  refine ⟨⟨hSound, fun hPending => absurd hCancelling hPending,
    fun hCancelled => (hNot hCancelled rfl).elim⟩, ?_, fun hDone => (hNot hDone rfl).elim,
    hProg ▸ Loop.episode_owes entry, hProg ▸ Loop.episode_comes entry hIdle⟩
  intro summary steps cost latency hMem
  rw [hLog] at hMem
  cases hMem

theorem not_completed {s : Episode} (hs : s.Sound) (hOpen : s.status.terminal = false)
    {summary : CodeUnits.Units} {steps : Nat} {cost latency : ℚ} :
    .runCompleted summary steps cost latency ∉ s.log := by
  intro hMem
  have hEndings := hs.endings
  rw [hOpen] at hEndings
  have hPos : 0 < s.endings := List.countP_pos_iff.mpr ⟨_, hMem, rfl⟩
  rw [hEndings] at hPos
  cases hPos

theorem accounts_completeRun {s : Episode} (hs : s.Settled) {g : Progress} {result : ModelResult}
    (hAccounts : Accounts s g) (hAnnounced : Announced s) (hMem : result ∈ g.answers)
    (hFinal : Final s.data result) :
    let t := (exec (.completeRun (some result.text)) s).2
    t.Settled ∧ Accounts t (progress.applied (.completeRun (some result.text)) s g) ∧
      Announced t := by
  cases hNothing : s.endsNothing with
  | true =>
    have hSame : s.completeRun (some result.text) = (.ok (), s) := by
      rw [hs.toSound.completeRun, if_pos hNothing]
    have hNotes : progress.applied (.completeRun (some result.text)) s g = g := if_pos hNothing
    rw [exec, hSame, hNotes]
    exact ⟨hs, hAccounts, hAnnounced⟩
  | false =>
    have hOpen : s.status.terminal = false := nonterminal_of_endsNothing hNothing
    have hNotes : progress.applied (.completeRun (some result.text)) s g =
        { g with completedOn := some s.data } := if_neg (Bool.eq_false_iff.mp hNothing)
    rw [hNotes, exec]
    rcases hs.toSound.completeRun_cases (some result.text) with
      ⟨hEnded, -⟩ | ⟨hMay, -, hEnds⟩ | ⟨-, error, hError⟩
    · rw [hNothing] at hEnded
      cases hEnded
    · have hLog : (s.completeRun (some result.text)).2.log = s.log ++
          [.runCompleted ((CodeUnits.ofText result.text.toList).take 500) s.currentStep
            s.budget.currentSpend s.budget.elapsedLatency] := by
        rw [hs.toSound.completeRun, hNothing, hMay]
        rfl
      have hSettled : (s.completeRun (some result.text)).2.Settled := by
        apply hs.endsIn hEnds
        rintro ⟨⟩
      refine ⟨hSettled, ?_, fun _ => ⟨_, _, _, _, hLog ▸ List.mem_concat_self⟩⟩
      intro summary steps cost latency hCompleted
      rw [hLog] at hCompleted
      obtain hOld | hNew := List.mem_append.mp hCompleted
      · exact absurd hOld (not_completed hs.toSound hOpen)
      · cases List.mem_singleton.mp hNew
        exact ⟨s.data, rfl, result, hMem, hFinal, rfl⟩
    · rw [hError]
      refine ⟨hs.onward (onward_refuse s _), ?_, hAnnounced⟩
      exact fun summary steps cost latency hMem =>
        absurd hMem (not_completed hs.toSound hOpen)

theorem accounted_step (hx : x.Accounted) (hl : x.WithinSteps l) (h : x.step l = some y) :
    y.Accounted := by
  have hAllowed (o : Op) (hTick : l = .tick) (hDue : x.prog.due = some o) :
      completions.allowed o x.shared := by
    subst hTick
    refine ⟨hx.settled.toSound, ?_⟩
    cases o with
    | completeRun summary =>
      cases summary with
      | none => trivial
      | some text => exact hl (by rw [hDue]; rfl)
    | _ => trivial
  have hPlain : EpisodeSystem.step x.plain l = some y.plain := Notes.step_plain h
  have hOwes : Loop.Owes y.prog y.shared.1 fun _ t => t.Over :=
    Meets.step (x := x.plain) (y := y.plain) hx.owes hPlain (fun _ _ _ => hx.settled.toSound)
      (fun _ _ _ _ _ hOver => hOver) fun i stands s _ _ hOutside =>
        ⟨fun t _ a s' hRely hs => hRely (hx.settled.over_outside hOutside hs),
          fun _ _ => hx.settled.over_outside hOutside⟩
  have hComes : Loop.Comes y.prog y.shared fun _ _ => True := by
    refine Notes.meets_step hx.comes h hAllowed (fun _ _ _ _ _ => ⟨rfl, id, rfl⟩)
      fun i stands s _ _ hOutside => ⟨fun t _ a s' hRely => ?_, fun _ _ => id⟩
    obtain ⟨hData, hOver, hNotes⟩ := hRely
    exact ⟨hData.trans (data_outside hOutside),
      fun hs => hOver (hx.settled.over_outside hOutside hs), hNotes⟩
  rcases Notes.step_cases h with ⟨o, k, hTick, hProg, rfl⟩ | ⟨answers, t, k, -, hProg, -, rfl⟩ |
    ⟨i, stands, s, -, hStand, hEnv, rfl⟩
  · have hDue : x.prog.due = some o := by rw [hProg]; rfl
    have hSafe : completions.safe o x.shared := hx.comes.safe hDue (hAllowed o hTick hDue)
    have hHonest : o.honest x.shared.1 := Meets.safe (x := x.plain) hx.owes hDue hx.settled.toSound
    cases hCompletes : o.completes with
    | false =>
      have hUncompleted := hx.settled.uncompleted_exec usual_idles hHonest hCompletes
        (idles_events _ hCompletes)
      refine ⟨hUncompleted.settled, ?_, hx.announced.uncompleted hUncompleted, hOwes, hComes⟩
      refine hx.accounts.uncompleted hUncompleted.logged ?_ ?_
      · cases o with
        | completeRun summary => cases hCompletes
        | _ => rfl
      · cases o with
        | completeRun summary => cases hCompletes
        | _ => exact List.Subset.refl _
    | true =>
      cases o with
      | completeRun summary =>
        cases summary with
        | none => exact hSafe.elim
        | some text =>
          obtain ⟨result, hMem, hFinal, rfl⟩ := hSafe
          obtain ⟨hSettled, hAccounts, hAnnounced⟩ :=
            accounts_completeRun hx.settled hx.accounts hx.announced hMem hFinal
          exact ⟨hSettled, hAccounts, hAnnounced, hOwes, hComes⟩
      | _ => cases hCompletes
  · refine ⟨hx.settled, ?_, hx.announced, hOwes, hComes⟩
    exact hx.accounts.uncompleted (logged_same rfl) rfl (List.subset_append_left _ _)
  · have hUncompleted := hx.settled.uncompleted_outside usual_idles hEnv
    exact ⟨hUncompleted.settled, hx.accounts.uncompleted hUncompleted.logged rfl (List.Subset.refl _),
      hx.announced.uncompleted hUncompleted, hOwes, hComes⟩

theorem Accounted.earned (hx : x.Accounted) : x.Earned where
  event := hx.accounts
  status := hx.announced
  ended hEnd := by
    obtain ⟨r, hOver⟩ := Meets.ended (x := x.plain) hx.owes hEnd
    have hTerminal : x.shared.1.status.terminal = true ∨ x.shared.1.abort = true := hOver
    obtain hTerminal | hAbort := hTerminal
    · cases hStatus : x.shared.1.status with
      | completed => exact .inl rfl
      | failed => exact .inr (.inl rfl)
      | cancelled => exact .inr (.inr (hx.settled.cancelled hStatus))
      | _ =>
        rw [hStatus] at hTerminal
        cases hTerminal
    · exact .inr (.inr hAbort)

/-- In a run that is not completed between two steps, a completion is earned by a final answer of
the same episode. -/
theorem completion_earned (h : Reach step WithinSteps (Start c entry) x) : x.Earned :=
  (h.invariant (I := Accounted) (fun _ hStart => hStart.accounted)
    fun _ _ _ hx hl hStep => accounted_step hx hl hStep).earned

/-- A retried run whose model has answered in an earlier episode, with at most so many steps. -/
def answered (maxSteps : Nat) : NotedEpisode :=
  ⟨({ retriedEpisode with
      data := { retriedEpisode.data with assistantMessages := ["an older answer"] } },
    ⟨[], false, none⟩),
    Loop.episode { plainSettings with maxSteps := maxSteps } ⟨true, 0⟩⟩

theorem answered_start (maxSteps : Nat) :
    Start { plainSettings with maxSteps := maxSteps } ⟨true, 0⟩ (answered maxSteps) :=
  ⟨⟨rfl, rfl, rfl, rfl, rfl, rfl, rfl, rfl⟩, rfl⟩

def undisturbed (maxSteps : Nat) (answers : (t : Wait) → t.Ans) (n : Nat) : List EpisodeLabel :=
  EpisodeSystem.followed answers n (answered maxSteps).plain

/-- The model answers, and the run completes. -/
theorem completion_earned_answer :
    ∃ x, run step (answered 5) (undisturbed 5 (EpisodeSystem.answers "hello") 38) = some x ∧
      x.shared.1.status = .completed ∧ x.Earned := by
  have hRuns : (run step (answered 5) (undisturbed 5 (EpisodeSystem.answers "hello") 38)).any
      (fun x => x.shared.1.status = .completed) = true := by decide +kernel
  have hWithin : Along step WithinSteps (answered 5)
      (undisturbed 5 (EpisodeSystem.answers "hello") 38) := by decide +kernel
  obtain ⟨x, hx, hDone⟩ := Option.any_eq_true _ _ |>.mp hRuns
  exact ⟨x, hx, of_decide_eq_true hDone,
    completion_earned ((Reach.start (answered_start 5)).run hx hWithin)⟩

def overloaded : (t : Wait) → t.Ans
  | .completed _ _ => .error ⟨⟨some "server_error", "overloaded", true⟩, true⟩
  | t => EpisodeSystem.answers "" t

/-- At the limit of one step the run completes with an older answer, though the model has given
none. -/
theorem older_answer_completes :
    ¬ ∀ c entry x, Reach step Anything (Start c entry) x → x.Earned := by
  intro h
  have hRuns : (run step (answered 1) (undisturbed 1 overloaded 35)).any
      (fun x => x.shared.1.status = .completed ∧ x.shared.2.answers.isEmpty) = true := by
    decide +kernel
  obtain ⟨x, hx, hState⟩ := Option.any_eq_true _ _ |>.mp hRuns
  obtain ⟨hStatus, hNone⟩ := of_decide_eq_true hState
  have hEarned := h _ _ x (reach_of_run (answered_start 1) hx)
  obtain ⟨summary, steps, cost, latency, hMem⟩ := hEarned.status hStatus
  obtain ⟨d, -, result, hResult, -⟩ := hEarned.event summary steps cost latency hMem
  rw [List.isEmpty_iff.mp hNone] at hResult
  cases hResult

end NotedEpisode

end OrchestraAI.Core
