import OrchestraAI.Core.HistoryRules
import OrchestraAI.Prompt.ToolConversation

/-! # The requests of a run

The episodes of a run and the conversation that they share: `startRun` of `core/orchestrator.js` goes
on with the history that the episode before has left, and a retry with that or with the one of a
checkpoint.
-/

namespace OrchestraAI.Prompt

open OrchestraAI.Core AsyncProgram LabelledSystem LedBlocks

/-- What `captureControlSnapshot` keeps of the conversation. -/
structure ControlSnapshot where
  messages : List Turn
  lastUserMessage : String

structure Talk where
  objective : String
  /-- `ctrl.lastUserMessage`. -/
  lastUserMessage : String
  current : EpisodeSystem
  checkpoints : List ControlSnapshot

inductive TalkLabel
  | within (l : EpisodeLabel)
  | captured
  | startRun (userMessage : String) (c : Settings) (opened : Episode)
  /-- A retry, with the checkpoint that its recovery restores. -/
  | retryRun (c : Settings) (entry : Loop.Entry) (opened : Episode) (restored : Option Nat)

namespace Talk

def history (x : Talk) : List Turn := x.current.shared.history

/-- `a || b`. -/
def orElse (a b : String) : String := if a = "" then b else a

def userMessage (x : Talk) : String := orElse x.lastUserMessage x.objective

def opens (c : Settings) (entry : Loop.Entry) (opened : Episode) (history : List Turn) :
    EpisodeSystem :=
  ⟨{ opened with data := { opened.data with history := history } }, Loop.episode c entry⟩

def captureControlSnapshot (x : Talk) : ControlSnapshot :=
  ⟨x.history.rtake 300, String.ofList (Text.sliceUnits 4000 x.lastUserMessage.toList)⟩

def resumed (x : Talk) : Option Nat → Option ControlSnapshot
  | none => some ⟨x.history, x.lastUserMessage⟩
  | some k => x.checkpoints[k]?

def step (x : Talk) : TalkLabel → Option Talk
  | .within l => (EpisodeSystem.step x.current l).map fun y => { x with current := y }
  | .captured => some { x with checkpoints := x.captureControlSnapshot :: x.checkpoints }
  | .startRun userMessage c opened =>
    match x.current.prog.stand with
    | some none =>
      let text := orElse userMessage x.userMessage
      some { x with
        lastUserMessage := text
        current := opens { c with userMessage := text } ⟨false, 0⟩ opened
          (x.history ++ [.user text]) }
    | _ => none
  | .retryRun c entry opened restored =>
    match x.current.prog.stand with
    | some none =>
      (x.resumed restored).map fun control =>
        { x with
          lastUserMessage := control.lastUserMessage
          current := opens { c with userMessage := orElse control.lastUserMessage x.objective } entry
            opened control.messages }
    | _ => none

structure Start (x : Talk) : Prop where
  prog : x.current.prog = .done ()
  history : x.history = []

/-- An episode begins with a conversation in which every call has its result, and in that of a
checkpoint every result follows its call. -/
def Resumable (x : Talk) : TalkLabel → Prop
  | .within _ | .captured => True
  | .startRun .. | .retryRun _ _ _ none => unanswered x.history = []
  | .retryRun _ _ _ (some k) => ∀ control ∈ x.checkpoints[k]?, Closed control.messages

def Heeded (x : Talk) : Prop :=
  Heeds exec talk x.current.prog x.current.shared fun _ s => Left s.history

variable {x y : Talk} {l : TalkLabel}

theorem Heeded.closed (h : x.Heeded) (hOver : x.current.prog.stand = some none)
    (hNothing : unanswered x.history = []) : Closed x.history := by
  obtain ⟨-, hLeft⟩ := Heeds.ended h hOver
  exact hLeft.closed hNothing

theorem Heeded.within {l : EpisodeLabel} {e : EpisodeSystem} (h : x.Heeded)
    (hStep : EpisodeSystem.step x.current l = some e) : Heeded { x with current := e } := by
  refine Heeds.step h hStep (fun _ _ _ _ _ => rfl) fun i stands s _ _ hOutside => ?_
  have hSame : s.history = x.current.shared.history := history_outside hOutside
  refine ⟨fun t _ => ⟨fun hBegun => ?_, fun _ s' hRely => hRely.trans hSame⟩, fun _ _ hLeft => ?_⟩
  · show t.turns = [] ∨ t.turns = s.history.rtake 10 ∧ Closed s.history
    rw [hSame]
    exact hBegun
  · rw [hSame]
    exact hLeft

theorem heeded_step (h : x.Heeded) (hl : Resumable x l) (hStep : step x l = some y) :
    y.Heeded := by
  cases l with
  | within l =>
    obtain ⟨e, hE, rfl⟩ := Option.map_eq_some_iff.mp hStep
    exact h.within hE
  | captured =>
    obtain rfl := Option.some.inj hStep
    exact h
  | startRun userMessage c opened =>
    simp only [step] at hStep
    split at hStep
    · rename_i hOver
      obtain rfl := Option.some.inj hStep
      exact Loop.episode_heeds _ ((h.closed hOver hl).user _)
    · cases hStep
  | retryRun c entry opened restored =>
    simp only [step] at hStep
    split at hStep
    · rename_i hOver
      obtain ⟨control, hControl, rfl⟩ := Option.map_eq_some_iff.mp hStep
      apply Loop.episode_heeds
      cases restored with
      | none =>
        obtain rfl := Option.some.inj hControl
        exact h.closed hOver hl
      | some k => exact hl control hControl
    · cases hStep

theorem Start.heeded (h : Start x) : x.Heeded := by
  rw [Heeded, h.prog]
  exact .inl (show Closed x.history from h.history ▸ closed_nil)

theorem shown_of_reach (h : Reach step Resumable Start x) {t : Wait}
    (hStand : x.current.prog.stand = some (some t)) :
    Answered t.turns ∧ t.turns.rtake 10 = t.turns := by
  have hHeeded : x.Heeded := h.invariant (fun _ hx => hx.heeded) fun _ _ _ => heeded_step
  rcases Heeds.begun hHeeded hStand with hNone | ⟨hShown, hClosed⟩
  · rw [hNone]
    exact ⟨nofun, rfl⟩
  · rw [hShown]
    refine ⟨Answered.suffix hClosed.answered (List.drop_suffix _ _), ?_⟩
    simp only [List.rtake_eq_reverse_take_reverse, List.reverse_reverse, List.take_take,
      Nat.min_self]

def standing (x : Talk) : Option (List Turn) :=
  match x.current.prog.stand with
  | some (some t) => some t.turns
  | _ => none

/-- Whatever a run shows to the provider, or for the compilation of a prompt, makes a well-formed
conversation exactly when it is presentable. -/
theorem requests_wellFormed (h : Reach step Resumable Start x) {t : Wait}
    (hStand : x.current.prog.stand = some (some t)) (o : Options) :
    (WellFormed (taskText x.objective x.userMessage)
        (compilePrompt o x.objective x.userMessage t.turns) ∧
      ResultsFollow (compilePrompt o x.objective x.userMessage t.turns)) ↔
      Presentable (taskText x.objective x.userMessage) t.turns := by
  obtain ⟨hAnswered, hTen⟩ := shown_of_reach h hStand
  constructor
  · rintro ⟨hWellFormed, -⟩
    rw [← hTen]
    exact (wellFormed_iff hAnswered).mp hWellFormed
  · intro hPresentable
    refine ⟨(wellFormed_iff hAnswered).mpr ?_, resultsFollow o _ _⟩
    rw [hTen]
    exact hPresentable

def threeCalls : (t : Wait) → t.Ans
  | .completed _ _ =>
    .ok (⟨"", [⟨"a", "read", .null⟩, ⟨"b", "read", .null⟩, ⟨"c", "read", .null⟩], none, none,
      ⟨⟨.value (some 10), .value (some 5), .undefined, .undefined, .undefined⟩, .undefined, none⟩⟩,
      ⟨none, 10⟩)
  | t => EpisodeSystem.answers "" t

def undisturbed : Nat → EpisodeSystem → List TalkLabel
  | 0, _ => []
  | n + 1, x =>
    let l : EpisodeLabel :=
      match x.prog with
      | .await _ _ => .resume threeCalls
      | _ => .tick
    .within l ::
      match EpisodeSystem.step x l with
      | some y => undisturbed n y
      | none => []

def created : Talk :=
  ⟨"go", "", ⟨{ EpisodeSystem.retriedEpisode with
    data := { EpisodeSystem.retriedEpisode.data with history := [] } }, .done ()⟩, []⟩

def openedEpisode : Episode :=
  { EpisodeSystem.retriedEpisode with status := .created, machine := .created }

def longStep (n : Nat) : List TalkLabel :=
  .startRun "hello" EpisodeSystem.plainSettings openedEpisode ::
    undisturbed n (opens { EpisodeSystem.plainSettings with userMessage := "hello" } ⟨false, 0⟩
      openedEpisode [.user "hello"])

theorem created_start : Start created := ⟨rfl, rfl⟩

theorem within_of_mem_undisturbed {n : Nat} {x : EpisodeSystem} {l : TalkLabel}
    (h : l ∈ undisturbed n x) : ∃ k, l = .within k := by
  induction n generalizing x with
  | zero => cases h
  | succ n ih =>
    rcases List.mem_cons.mp h with rfl | h
    · exact ⟨_, rfl⟩
    · split at h
      · exact ih h
      · cases h

theorem resumable_longStep (n : Nat) : Along step Resumable created (longStep n) := by
  refine ⟨rfl, along_of_forall (fun l hl s => ?_) _⟩
  obtain ⟨k, rfl⟩ := within_of_mem_undisturbed hl
  trivial

theorem stand_of_standing {x : Talk} {turns : List Turn} (h : x.standing = some turns) :
    ∃ t, x.current.prog.stand = some (some t) ∧ t.turns = turns := by
  unfold standing at h
  split at h
  · rename_i t hStand
    exact ⟨t, hStand, Option.some.inj h⟩
  · cases h

/-- The call of the model after six tool results. -/
theorem requests_wellFormed_sixResults :
    ∃ x t, run step created (longStep 177) = some x ∧ x.current.prog.stand = some (some t) ∧
      t.turns.length = 9 ∧
      WellFormed (taskText x.objective x.userMessage)
        (compilePrompt ⟨1, [], [], [], ""⟩ x.objective x.userMessage t.turns) := by
  have hRuns : (run step created (longStep 177)).any (fun x => x.standing.any fun turns =>
      decide (turns.length = 9 ∧ Presentable (taskText x.objective x.userMessage) turns)) =
        true := by decide +kernel
  obtain ⟨x, hRun, hShows⟩ := (Option.any_eq_true _ _).mp hRuns
  obtain ⟨turns, hStanding, hMeets⟩ := (Option.any_eq_true _ _).mp hShows
  obtain ⟨t, hStand, rfl⟩ := stand_of_standing hStanding
  obtain ⟨hLength, hPresentable⟩ := of_decide_eq_true hMeets
  have hReach : Reach step Resumable Start x :=
    (Reach.start created_start).run hRun (resumable_longStep 177)
  exact ⟨x, t, hRun, hStand, hLength,
    ((requests_wellFormed hReach hStand _).mpr hPresentable).1⟩

/-- After nine tool results the cut to ten turns begins with the second of them. -/
theorem cut_inside_results :
    ¬ ∀ x, Reach step Anything Start x → ∀ t, x.current.prog.stand = some (some t) → ∀ o : Options,
      WellFormed (taskText x.objective x.userMessage)
          (compilePrompt o x.objective x.userMessage t.turns) ∧
        ResultsFollow (compilePrompt o x.objective x.userMessage t.turns) := by
  intro h
  have hRuns : (run step created (longStep 251)).any (fun x => x.standing.any fun turns =>
      turns.head?.any Turn.isTool) = true := by decide +kernel
  obtain ⟨x, hRun, hShows⟩ := (Option.any_eq_true _ _).mp hRuns
  obtain ⟨turns, hStanding, hHead⟩ := (Option.any_eq_true _ _).mp hShows
  obtain ⟨t, hStand, rfl⟩ := stand_of_standing hStanding
  have hReach : Reach step Resumable Start x :=
    (Reach.start created_start).run hRun (resumable_longStep 251)
  obtain ⟨hAnswered, hTen⟩ := shown_of_reach hReach hStand
  obtain ⟨hWellFormed, -⟩ := h x (reach_of_run created_start hRun) t hStand ⟨1, [], [], [], ""⟩
  have hLed : Led Turn.isTool t.turns := hTen ▸ ((wellFormed_iff hAnswered).mp hWellFormed).led
  obtain ⟨a, hA, hTool⟩ := (Option.any_eq_true _ _).mp hHead
  rw [hLed a hA] at hTool
  cases hTool

end Talk

end OrchestraAI.Prompt
