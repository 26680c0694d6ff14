import OrchestraAI.Core.Conversation
import OrchestraAI.Prompt.Messages

/-! # Well-formed tool conversations

When the messages that `compilePrompt` makes of a history whose calls are all answered are
a well-formed conversation: exactly when the cut to ten turns does not begin inside the
results of an answer, the calls of an answer have ids of their own, and no turn of the
user but the one that the task text replaces mentions the task.
-/

namespace OrchestraAI.Prompt

open OrchestraAI.Core (Turn ToolRequest Closed)
open LedBlocks

namespace Message

def isTool : Message → Bool
  | .turn t => t.isTool
  | .system _ => false

def answers (id : String) : Message → Bool
  | .turn (.tool toolCallId _ _) => toolCallId = id
  | _ => false

def mentions (text : String) : Message → Bool
  | .turn (.user content) => decide (text.toList <:+: content.toList)
  | _ => false

def toolResult : Message → Option Block
  | .turn (.tool id _ content) => some (Prompt.toolResult id content)
  | _ => none

end Message

/-- Each tool message is preceded, with only tool messages between, by the answer that calls it. -/
def Preceded (messages : List Message) : Prop :=
  ∀ before id name content after,
    messages = before ++ .turn (.tool id name content) :: after →
    ∃ earlier text calls results,
      before = earlier ++ .turn (.assistant text calls) :: results ∧
      (∀ m ∈ results, m.isTool = true) ∧ ∃ call ∈ calls, call.id = id

def EachAnswered (messages : List Message) : Prop :=
  ∀ before text calls after,
    messages = before ++ .turn (.assistant text calls) :: after →
    ∀ call ∈ calls, (after.takeWhile Message.isTool).countP (Message.answers call.id) = 1

structure WellFormed (task : String) (messages : List Message) : Prop where
  preceded : Preceded messages
  answered : EachAnswered messages
  task : messages.countP (Message.mentions task) = 1

def ResultsFollow (messages : List Message) : Prop :=
  ∀ before text calls results after,
    messages = before ++ .turn (.assistant text calls) :: (results ++ after) →
    results ≠ [] → (∀ m ∈ results, m.isTool = true) → Led Message.isTool after →
    normalizeAnthropicMessages messages =
      normalizeAnthropicMessages before ++ assistantMessage text calls ::
        ⟨.user, .blocks (results.filterMap Message.toolResult)⟩ :: normalizeAnthropicMessages after

def others (task : String) (window : List Turn) : List Turn := window.eraseP (isTask task)

structure Presentable (task : String) (window : List Turn) : Prop where
  led : Led Turn.isTool window
  distinct : ∀ text calls, .assistant text calls ∈ window → (calls.map ToolRequest.id).Nodup
  task : ∀ content, .user content ∈ others task window → ¬ task.toList <:+: content.toList

variable {o : Options} {task text : String} {window history : List Turn}

theorem presentable_iff :
    Presentable task window ↔ window.head?.any Turn.isTool = false ∧
      (∀ t ∈ window, t.callIds.Nodup) ∧
      ∀ t ∈ others task window, Message.mentions task (.turn t) = false := by
  constructor
  · intro h
    refine ⟨?_, ?_, ?_⟩
    · cases window with
      | nil => rfl
      | cons t window => exact h.led.head
    · rintro t ht
      cases t with
      | assistant text calls => exact h.distinct text calls ht
      | _ => exact List.nodup_nil
    · rintro t ht
      cases t with
      | user content => exact decide_eq_false (h.task content ht)
      | _ => rfl
  · rintro ⟨hHead, hDistinct, hTask⟩
    refine ⟨?_, fun text calls hMem => hDistinct _ hMem, fun content hMem hIn => ?_⟩
    · cases window with
      | nil => exact led_nil
      | cons t window => exact led_cons hHead
    · exact Bool.false_ne_true ((hTask _ hMem).symm.trans (decide_eq_true hIn))

instance (task : String) (window : List Turn) : Decidable (Presentable task window) :=
  decidable_of_iff _ presentable_iff.symm

theorem taskTurn {t : Turn} (h : isTask task t = true) : t = .user task := by
  cases t with
  | user content =>
    have hContent : content = task := of_decide_eq_true h
    rw [hContent]
  | _ => cases h

theorem placeTask_cases (task : String) (hText : text ≠ "") (window : List Turn) :
    (∃ before after, window = before ++ .user task :: after ∧
      placeTask task text window = before ++ .user text :: after ∧
      others task window = before ++ after) ∨
    (placeTask task text window = window ++ [.user text] ∧ others task window = window) := by
  unfold placeTask
  cases h : window.findIdx? (isTask task) with
  | none =>
    refine .inr ⟨if_neg hText, List.eraseP_of_forall_not fun t ht => ?_⟩
    rw [List.findIdx?_eq_none_iff.mp h t ht]
    exact Bool.false_ne_true
  | some i =>
    left
    obtain ⟨hLt, hTask, hBefore⟩ := List.findIdx?_eq_some_iff_getElem.mp h
    have hSplit : window = window.take i ++ .user task :: window.drop (i + 1) := by
      rw [← taskTurn hTask, List.getElem_cons_drop, List.take_append_drop]
    refine ⟨window.take i, window.drop (i + 1), hSplit, ?_, ?_⟩
    · exact List.set_eq_take_append_cons_drop.trans (if_pos hLt)
    · rw [others, List.eraseP_eq_eraseIdx, h]
      exact List.eraseIdx_eq_take_drop_succ window i

theorem paragraphs_cons {part : String} (h : part ≠ "") (parts : List String) :
    ∃ rest, paragraphs (part :: parts) = part ++ rest := by
  rw [paragraphs, List.filter_cons, if_pos (decide_eq_true h)]
  cases parts.filter fun part => part ≠ "" with
  | nil => exact ⟨"", by rw [String.intercalate_singleton, String.append_empty]⟩
  | cons next parts =>
    exact ⟨_, by rw [String.intercalate_cons_cons, String.append_assoc]⟩

theorem untrusted_eq (o : Options) (task : String) :
    ∃ rest, (untrusted o task).toList =
      "Task content (untrusted):\n".toList ++ task.toList ++ rest := by
  have hTitle : "Task content (untrusted):\n" ++ task ≠ "" := by
    intro h
    have hList := congrArg String.toList h
    rw [String.toList_append] at hList
    cases hList
  obtain ⟨rest, hRest⟩ := paragraphs_cons hTitle
    [titled "Selected context (untrusted)" (o.selected.map contextLine),
      titled "Retrieved memory (untrusted)" (o.memoryItems.map memoryLine)]
  exact ⟨rest.toList, by rw [untrusted, hRest, String.toList_append, String.toList_append]⟩

theorem untrusted_ne_empty (o : Options) (task : String) : untrusted o task ≠ "" := by
  intro h
  obtain ⟨rest, hRest⟩ := untrusted_eq o task
  rw [h] at hRest
  cases hRest

theorem untrusted_mentions (o : Options) (task : String) :
    Message.mentions task (.turn (.user (untrusted o task))) = true := by
  obtain ⟨rest, hRest⟩ := untrusted_eq o task
  exact decide_eq_true ⟨_, rest, hRest.symm⟩

def shown (o : Options) (task : String) (window : List Turn) : List Turn :=
  placeTask task (untrusted o task) window

theorem led_shown : Led Turn.isTool (shown o task window) ↔ Led Turn.isTool window := by
  rcases placeTask_cases task (untrusted_ne_empty o task) window with
    ⟨before, after, hWindow, hShown, -⟩ | ⟨hShown, -⟩
  · rw [shown, hShown, hWindow, led_append_iff, led_append_iff]
    cases before with
    | nil => exact ⟨fun _ => led_cons rfl, fun _ => led_cons rfl⟩
    | cons t before => exact Iff.rfl
  · rw [shown, hShown]
    cases window with
    | nil => exact ⟨fun _ => led_nil, fun _ => led_cons rfl⟩
    | cons t window => exact Iff.rfl

theorem assistant_mem_shown {calls : List ToolRequest} :
    .assistant text calls ∈ shown o task window ↔ .assistant text calls ∈ window := by
  rcases placeTask_cases task (untrusted_ne_empty o task) window with
    ⟨before, after, hWindow, hShown, -⟩ | ⟨hShown, -⟩
  · rw [shown, hShown, hWindow]
    simp
  · rw [shown, hShown]
    simp

def Answered (turns : List Turn) : Prop :=
  ∀ b ∈ blocks Turn.isTool turns, b.2.map Turn.resultId = b.1.callIds

theorem Answered.shown (h : Answered window) : Answered (shown o task window) := by
  rcases placeTask_cases task (untrusted_ne_empty o task) window with
    ⟨before, after, rfl, hShown, -⟩ | ⟨hShown, -⟩
  · rw [Prompt.shown, hShown]
    have hBlocks (content : String) : blocks Turn.isTool (before ++ .user content :: after) =
        blocks Turn.isTool before ++
          (.user content, after.takeWhile Turn.isTool) :: blocks Turn.isTool after := by
      rw [blocks_append (led_cons rfl), blocks_cons rfl]
    rw [Answered, hBlocks] at h
    rintro b hb
    rw [hBlocks] at hb
    rcases List.mem_append.mp hb with hb | hb
    · exact h b (List.mem_append_left _ hb)
    · rcases List.mem_cons.mp hb with rfl | hb
      · exact h (.user task, _) (List.mem_append_right _ List.mem_cons_self)
      · exact h b (List.mem_append_right _ (List.mem_cons_of_mem _ hb))
  · rw [Prompt.shown, hShown]
    rintro b hb
    rw [blocks_block rfl nofun] at hb
    rcases List.mem_append.mp hb with hb | hb
    · exact h b hb
    · rw [List.mem_singleton.mp hb]
      rfl

section Shown

variable {system : String} {turns : List Turn}

theorem split_shown {before after : List Message} {t : Turn}
    (h : Message.system system :: turns.map .turn = before ++ .turn t :: after) :
    ∃ earlier later, turns = earlier ++ t :: later ∧
      before = .system system :: earlier.map .turn ∧ after = later.map .turn := by
  cases before with
  | nil => cases (List.cons.inj h).1
  | cons m before =>
    obtain ⟨rfl, hTurns⟩ := List.cons.inj h
    obtain ⟨earlier, rest, rfl, rfl, hRest⟩ := List.map_eq_append_iff.mp hTurns
    obtain ⟨t', later, rfl, hT, rfl⟩ := List.map_eq_cons_iff.mp hRest
    obtain rfl := Message.turn.inj hT
    exact ⟨earlier, later, rfl, rfl, rfl⟩

theorem Answered.leader {earlier later : List Turn} {t : Turn}
    (h : Answered (earlier ++ t :: later)) (hT : t.isTool = false) :
    (later.takeWhile Turn.isTool).map Turn.resultId = t.callIds :=
  h _ (mem_blocks.mpr ⟨earlier, later, rfl, hT, rfl⟩)

theorem asks_of_mem_callIds {t : Turn} {id : String} (h : id ∈ t.callIds) :
    ∃ text calls, t = .assistant text calls ∧ ∃ call ∈ calls, call.id = id := by
  cases t with
  | assistant text calls => exact ⟨text, calls, rfl, List.mem_map.mp h⟩
  | _ => cases h

theorem preceded_iff (hAnswered : Answered turns) :
    Preceded (.system system :: turns.map .turn) ↔ Led Turn.isTool turns := by
  constructor
  · intro h
    cases turns with
    | nil => exact led_nil
    | cons t turns =>
      cases t with
      | tool id name content =>
        obtain ⟨earlier, text, calls, results, hBefore, -⟩ :=
          h [.system system] id name content (turns.map .turn) rfl
        cases earlier with
        | nil => cases (List.cons.inj hBefore).1
        | cons m earlier => cases earlier <;> cases (List.cons.inj hBefore).2
      | _ => exact led_cons rfl
  · rintro h before id name content after hSplit
    obtain ⟨earlier, later, rfl, rfl, rfl⟩ := split_shown hSplit
    obtain ⟨first, leader, results, rfl, hLeader, hResults⟩ := h.leader rfl
    rw [List.append_assoc, List.cons_append] at hAnswered
    have hIds := hAnswered.leader hLeader
    rw [List.takeWhile_append_of_pos hResults] at hIds
    have hMem : id ∈ leader.callIds := by
      rw [← hIds]
      exact List.mem_map.mpr
        ⟨.tool id name content, List.mem_append_right _ List.mem_cons_self, rfl⟩
    obtain ⟨text, calls, rfl, hCall⟩ := asks_of_mem_callIds hMem
    refine ⟨.system system :: first.map .turn, text, calls, results.map .turn, ?_, ?_, hCall⟩
    · rw [List.map_append, List.map_cons, List.cons_append]
    · rintro m hm
      obtain ⟨r, hr, rfl⟩ := List.mem_map.mp hm
      exact hResults r hr

theorem countP_answers {results : List Turn} (h : ∀ r ∈ results, r.isTool = true) (id : String) :
    (results.map Message.turn).countP (Message.answers id) =
      (results.map Turn.resultId).count id := by
  rw [List.countP_map, List.count, List.countP_map]
  refine List.countP_congr fun r hr => ?_
  cases r with
  | tool toolCallId name content => simp [Message.answers, Turn.resultId]
  | _ => cases h _ hr

theorem answered_iff (hAnswered : Answered turns) :
    EachAnswered (.system system :: turns.map .turn) ↔
      ∀ text calls, .assistant text calls ∈ turns → (calls.map ToolRequest.id).Nodup := by
  have hCount {earlier later : List Turn} {text : String} {calls : List ToolRequest}
      (hTurns : turns = earlier ++ .assistant text calls :: later) (id : String) :
      ((later.map Message.turn).takeWhile Message.isTool).countP (Message.answers id) =
        (calls.map ToolRequest.id).count id := by
    have hTool (t : Turn) : (Message.turn t).isTool = t.isTool := rfl
    have hHere : Answered (earlier ++ .assistant text calls :: later) := hTurns ▸ hAnswered
    rw [takeWhile_map hTool, countP_answers (fun r hr => List.mem_takeWhile_imp hr),
      hHere.leader rfl]
    rfl
  constructor
  · rintro h text calls hMem
    obtain ⟨earlier, later, hTurns⟩ := List.mem_iff_append.mp hMem
    refine List.nodup_iff_count_eq_one.mpr fun id hId => ?_
    obtain ⟨call, hCall, rfl⟩ := List.mem_map.mp hId
    rw [← hCount hTurns]
    refine h (.system system :: earlier.map .turn) text calls (later.map .turn) ?_ call hCall
    rw [hTurns, List.map_append, List.map_cons, List.cons_append]
  · rintro h before text calls after hSplit call hCall
    obtain ⟨earlier, later, hTurns, rfl, rfl⟩ := split_shown hSplit
    have hMem : .assistant text calls ∈ turns := hTurns ▸ List.mem_append_right _ List.mem_cons_self
    rw [hCount hTurns]
    exact List.nodup_iff_count_eq_one.mp (h text calls hMem) _ (List.mem_map_of_mem hCall)

end Shown

theorem task_iff (system : String) :
    (Message.system system :: (shown o task window).map .turn).countP (Message.mentions task) = 1 ↔
      ∀ content, .user content ∈ others task window → ¬ task.toList <:+: content.toList := by
  have hCount :
      (Message.system system :: (shown o task window).map .turn).countP (Message.mentions task) =
        ((others task window).map .turn).countP (Message.mentions task) + 1 := by
    rw [List.countP_cons_of_neg (by simp [Message.mentions])]
    rcases placeTask_cases task (untrusted_ne_empty o task) window with
      ⟨before, after, -, hShown, hOthers⟩ | ⟨hShown, hOthers⟩
    · rw [shown, hShown, hOthers, List.map_append, List.map_append, List.map_cons,
        List.countP_append, List.countP_append, List.countP_cons_of_pos (untrusted_mentions o task),
        Nat.add_assoc]
    · rw [shown, hShown, hOthers, List.map_append, List.countP_append, List.map_singleton,
        List.countP_singleton, if_pos (untrusted_mentions o task)]
  rw [hCount, Nat.add_eq_right, List.countP_eq_zero, List.forall_mem_map]
  constructor
  · rintro h content hMem hIn
    exact h _ hMem (decide_eq_true hIn)
  · rintro h t hMem
    cases t with
    | user content => exact fun hIn => h content hMem (of_decide_eq_true hIn)
    | _ => exact Bool.false_ne_true

theorem Answered.suffix {s : List Turn} (h : Answered window) (hs : s <:+ window) : Answered s :=
  fun b hb => h b (blocks_suffix hs hb)

/-- The messages of answered turns are well formed exactly when the last ten are presentable. -/
theorem wellFormed_iff (hAnswered : Answered history) :
    WellFormed task (messagesFor o task history) ↔ Presentable task (history.rtake 10) := by
  have hShown : Answered (shown o task (history.rtake 10)) :=
    (hAnswered.suffix (List.drop_suffix _ _)).shown
  constructor
  · intro h
    refine ⟨led_shown.mp ((preceded_iff hShown).mp h.preceded), fun text calls hMem => ?_,
      (task_iff _).mp h.task⟩
    exact (answered_iff hShown).mp h.answered text calls (assistant_mem_shown.mpr hMem)
  · intro h
    refine ⟨(preceded_iff hShown).mpr (led_shown.mpr h.led), ?_, (task_iff _).mpr h.task⟩
    exact (answered_iff hShown).mpr fun text calls hMem =>
      h.distinct text calls (assistant_mem_shown.mp hMem)

theorem appendToolResult_user (normalized : List AnthropicMessage) (blocks : List Block)
    (block : Block) :
    appendToolResult (normalized ++ [⟨.user, .blocks blocks⟩]) block =
      normalized ++ [⟨.user, .blocks (blocks ++ [block])⟩] := by
  rw [appendToolResult, List.getLast?_concat, List.dropLast_concat]

theorem appendToolResult_assistant (normalized : List AnthropicMessage) (content : Content)
    (block : Block) :
    appendToolResult (normalized ++ [⟨.assistant, content⟩]) block =
      normalized ++ [⟨.assistant, content⟩] ++ [⟨.user, .blocks [block]⟩] := by
  rw [appendToolResult, List.getLast?_concat]

theorem appendToolResult_append (first : List AnthropicMessage) {normalized : List AnthropicMessage}
    (h : normalized ≠ []) (block : Block) :
    appendToolResult (first ++ normalized) block = first ++ appendToolResult normalized block := by
  rcases List.eq_nil_or_concat' normalized with hNil | ⟨init, ⟨role, content⟩, rfl⟩
  · exact absurd hNil h
  · cases role <;> cases content <;> simp [appendToolResult, ← List.append_assoc]

theorem foldl_turns {turns : List Turn} {first normalized : List AnthropicMessage}
    (h : normalized ≠ [] ∨ Led Turn.isTool turns) :
    (turns.map Message.turn).foldl normalizeMessage (first ++ normalized) =
      first ++ (turns.map Message.turn).foldl normalizeMessage normalized := by
  induction turns generalizing normalized with
  | nil => rfl
  | cons t turns ih =>
    rw [List.map_cons, List.foldl_cons, List.foldl_cons]
    cases t with
    | user content =>
      rw [normalizeMessage, List.append_assoc]
      exact ih (.inl (List.append_ne_nil_of_right_ne_nil _ nofun))
    | assistant text calls =>
      rw [normalizeMessage, List.append_assoc]
      exact ih (.inl (List.append_ne_nil_of_right_ne_nil _ nofun))
    | tool id name content =>
      have hSome : normalized ≠ [] := h.resolve_right fun hLed => nomatch hLed.head
      rw [normalizeMessage, normalizeMessage, appendToolResult_append first hSome]
      refine ih (.inl ?_)
      unfold appendToolResult
      split <;> exact List.append_ne_nil_of_right_ne_nil _ nofun

theorem foldl_led {turns : List Turn} (h : Led Turn.isTool turns) (first : List AnthropicMessage) :
    (turns.map Message.turn).foldl normalizeMessage first =
      first ++ normalizeAnthropicMessages (turns.map .turn) := by
  rw [normalizeAnthropicMessages, ← foldl_turns (.inr h), List.append_nil]

theorem foldl_results {results : List Message} (h : ∀ m ∈ results, m.isTool = true)
    (normalized : List AnthropicMessage) (blocks : List Block) :
    results.foldl normalizeMessage (normalized ++ [⟨.user, .blocks blocks⟩]) =
      normalized ++ [⟨.user, .blocks (blocks ++ results.filterMap Message.toolResult)⟩] := by
  induction results generalizing blocks with
  | nil => rw [List.foldl_nil, List.filterMap_nil, List.append_nil]
  | cons m results ih =>
    have hM : m.isTool = true := h m List.mem_cons_self
    cases m with
    | system content => cases hM
    | turn t =>
      cases t with
      | tool id name content =>
        rw [List.foldl_cons, normalizeMessage, appendToolResult_user,
          ih fun m hm => h m (List.mem_cons_of_mem _ hm), List.append_assoc]
        rfl
      | _ => cases hM

theorem resultsFollow (o : Options) (task : String) (history : List Turn) :
    ResultsFollow (messagesFor o task history) := by
  rintro before text calls results after hSplit hSome hResults hAfter
  obtain ⟨earlier, later, -, rfl, hLater⟩ := split_shown hSplit
  obtain ⟨given, next, rfl, rfl, rfl⟩ := List.map_eq_append_iff.mp hLater.symm
  have hTool (t : Turn) : (Message.turn t).isTool = t.isTool := rfl
  have hNext : Led Turn.isTool next := (led_map hTool).mp hAfter
  rw [hSplit, normalizeAnthropicMessages, List.foldl_append, List.foldl_cons, List.foldl_append,
    ← normalizeAnthropicMessages]
  generalize normalizeAnthropicMessages (.system (systemText o) :: earlier.map .turn) = first
  cases given with
  | nil => exact absurd rfl hSome
  | cons t given =>
    cases t with
    | tool id name content =>
      rw [List.map_cons, List.foldl_cons, normalizeMessage, normalizeMessage, assistantMessage,
        ofBlocks, appendToolResult_assistant,
        foldl_results fun m hm => hResults m (List.mem_cons_of_mem _ hm), foldl_led hNext,
        List.append_assoc, List.append_assoc]
      rfl
    | _ => cases hResults _ List.mem_cons_self

end OrchestraAI.Prompt
