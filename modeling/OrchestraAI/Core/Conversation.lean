import OrchestraAI.Core.Episode
import OrchestraAI.Library.LedBlocks

/-! # The conversation of a run

The turns of `ctrl.history` in blocks: a turn of the user or of the model, and the tool
results right after it. A history is closed when every call of the model has its result, in
the order of the calls.
-/

namespace OrchestraAI.Core

open LedBlocks

namespace Turn

def isTool : Turn → Bool
  | .tool .. => true
  | _ => false

def callIds : Turn → List String
  | .assistant _ calls => calls.map ToolRequest.id
  | _ => []

/-- `tool_call_id`. -/
def resultId : Turn → String
  | .tool id .. => id
  | _ => ""

end Turn

def unanswered (history : List Turn) : List String :=
  match (blocks Turn.isTool history).getLast? with
  | some (turn, results) => turn.callIds.drop results.length
  | none => []

structure Closed (history : List Turn) : Prop where
  led : Led Turn.isTool history
  answered : ∀ b ∈ blocks Turn.isTool history, b.2.map Turn.resultId = b.1.callIds

/-- The calls of the last answer are being run: these have their results, and these have not. -/
structure Answering (done rest : List ToolRequest) (history : List Turn) : Prop where
  split : ∃ base text results, history = base ++ .assistant text (done ++ rest) :: results ∧
    Closed base ∧ (∀ r ∈ results, r.isTool = true) ∧
    results.map Turn.resultId = done.map ToolRequest.id

/-- What an episode may leave: an error in the midst of the calls of an answer leaves it open. -/
def Left (history : List Turn) : Prop := Closed history ∨ ∃ done rest, Answering done rest history

variable {history : List Turn} {done rest calls : List ToolRequest} {text : String}

theorem closed_nil : Closed [] := ⟨led_nil, nofun⟩

theorem Closed.block {turn : Turn} {results : List Turn} (h : Closed history)
    (hTurn : turn.isTool = false) (hResults : ∀ r ∈ results, r.isTool = true)
    (hAnswered : results.map Turn.resultId = turn.callIds) :
    Closed (history ++ turn :: results) where
  led := h.led.append (led_cons hTurn)
  answered := by
    rw [blocks_block hTurn hResults]
    rintro b hb
    rcases List.mem_append.mp hb with hOld | hNew
    · exact h.answered b hOld
    · rw [List.mem_singleton.mp hNew]
      exact hAnswered

theorem Closed.user (h : Closed history) (content : String) :
    Closed (history ++ [.user content]) :=
  h.block rfl nofun rfl

theorem Closed.said (h : Closed history) (text : String) :
    Closed (history ++ [.assistant text []]) :=
  h.block rfl nofun rfl

theorem Closed.asked (h : Closed history) (text : String) (calls : List ToolRequest) :
    Answering [] calls (history ++ [.assistant text calls]) :=
  ⟨history, text, [], rfl, h, nofun, rfl⟩

theorem Answering.result {call : ToolRequest} (h : Answering done (call :: rest) history)
    (name content : String) :
    Answering (done ++ [call]) rest (history ++ [.tool call.id name content]) := by
  obtain ⟨base, text, results, rfl, hBase, hResults, hDone⟩ := h.split
  refine ⟨base, text, results ++ [.tool call.id name content], ?_, hBase, ?_, ?_⟩
  · rw [List.append_assoc, List.append_assoc, List.singleton_append, List.cons_append]
  · rintro r hr
    rcases List.mem_append.mp hr with hr | hr
    · exact hResults r hr
    · rw [List.mem_singleton.mp hr]
      rfl
  · rw [List.map_append, hDone, List.map_append]
    rfl

theorem Answering.closed (h : Answering calls [] history) : Closed history := by
  obtain ⟨base, text, results, rfl, hBase, hResults, hDone⟩ := h.split
  refine hBase.block rfl hResults ?_
  rw [hDone, List.append_nil]
  rfl

theorem Answering.unanswered (h : Answering done rest history) :
    unanswered history = rest.map ToolRequest.id := by
  obtain ⟨base, text, results, rfl, -, hResults, hDone⟩ := h.split
  have hLength : results.length = done.length := by
    rw [← List.length_map Turn.resultId, hDone, List.length_map]
  rw [Core.unanswered, blocks_block rfl hResults, List.getLast?_concat]
  dsimp only [Turn.callIds]
  rw [List.map_append, hLength, List.drop_left' (List.length_map _)]

theorem Left.closed (h : Left history) (hNothing : unanswered history = []) : Closed history := by
  rcases h with hClosed | ⟨done, rest, hAnswering⟩
  · exact hClosed
  · rw [hAnswering.unanswered] at hNothing
    obtain rfl := List.map_eq_nil_iff.mp hNothing
    exact hAnswering.closed

end OrchestraAI.Core
