import Mathlib.Data.List.Basic

/-! # Run statuses and their transitions

`TaskStatus` of `core/types.js` and the table of `core/state-machine.js`.
-/

namespace OrchestraAI.Core

inductive TaskStatus
  | created
  | planning
  | contextBuild
  | modelSelect
  | executing
  | waitingForTool
  | observing
  | reoptimizing
  | completed
  | failed
  | cancelled
  | paused
  | pausing
  | resuming
  | retrying
  deriving DecidableEq, Repr

namespace TaskStatus

def text : TaskStatus → String
  | created => "created"
  | planning => "planning"
  | contextBuild => "context_build"
  | modelSelect => "model_select"
  | executing => "executing"
  | waitingForTool => "waiting_for_tool"
  | observing => "observing"
  | reoptimizing => "reoptimizing"
  | completed => "completed"
  | failed => "failed"
  | cancelled => "cancelled"
  | paused => "paused"
  | pausing => "pausing"
  | resuming => "resuming"
  | retrying => "retrying"

/-- `STATE_TRANSITIONS`. -/
def transitions : TaskStatus → List TaskStatus
  | created => [planning, cancelled]
  | planning => [contextBuild, failed, cancelled]
  | contextBuild => [modelSelect, failed, cancelled]
  | modelSelect => [executing, failed, cancelled]
  | executing =>
    [waitingForTool, observing, reoptimizing, completed, failed, cancelled, paused, pausing]
  | waitingForTool => [executing, retrying, failed, cancelled, pausing]
  | observing => [executing, reoptimizing, completed, failed, cancelled, pausing]
  | reoptimizing => [executing, modelSelect, contextBuild, failed, cancelled]
  | retrying => [executing, planning, failed, cancelled]
  | paused => [executing, resuming, cancelled]
  | pausing => [paused, cancelled]
  | resuming => [executing, cancelled]
  | completed => [retrying]
  | failed => [retrying, cancelled]
  | cancelled => []

def canTransition (s t : TaskStatus) : Bool := t ∈ s.transitions

/-- `TERMINAL_STATES`. -/
def terminal (s : TaskStatus) : Bool := s ∈ [completed, failed, cancelled]

/-- A terminal status is left for a retry, or from FAILED for CANCELLED, and otherwise never. -/
theorem transition_from_terminal {s t : TaskStatus} (hs : s.terminal = true)
    (h : s.canTransition t = true) : t = retrying ∨ (s = failed ∧ t = cancelled) := by
  cases s with
  | completed => exact .inl (by simpa [canTransition, transitions] using h)
  | failed => exact (by simpa [canTransition, transitions] using h : t = _ ∨ t = _).imp_right (⟨rfl, ·⟩)
  | cancelled => simp [canTransition, transitions] at h
  | _ => cases hs

theorem canTransition_cancelled {s : TaskStatus} (h : s.terminal = false) :
    s.canTransition cancelled = true := by
  cases s with
  | completed | failed | cancelled => cases h
  | _ => rfl

end TaskStatus

end OrchestraAI.Core
