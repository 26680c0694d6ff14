import OrchestraAI.Execution.Approvals
import OrchestraAI.Recovery.Plan

/-! # Step-scoped idempotency keys

The tool calls of a run over all its episodes: the counters of `_executeRun` and
`_executeStep` in `core/orchestrator.js`, with what the model asks for as input, and the
keys and stored results of `impl/tool-executor.js`. A stored result carries the number of
the user message they were made for, which the code does not keep. SHA-256 is a parameter.
-/

namespace OrchestraAI.Execution

open OrchestraAI.Recovery

structure ToolCall (ρ : Type) where
  name : String
  arguments : Option Json
  /-- The tool is known and enabled, the arguments are valid and the gate lets the call pass. -/
  admitted : Bool
  /-- The validated result of the handler, if it has one. -/
  outcome : Option ρ

/-- What is asked for in one step: the model's answers with tool calls, and what
`_heuristicToolCall` makes of the message if they end. -/
structure StepRequests (ρ : Type) where
  rounds : List (List (ToolCall ρ))
  assist : Option (ToolCall ρ)

/-- How an episode begins: by `startRun`, which `continueRun` calls too, or by an accepted retry,
with the flag of the control record that it may restore. -/
inductive EpisodeEntry
  | start
  | retry (recovery : RecoveryResult) (hasModel : Bool) (heuristicToolUsed : Bool)

structure EpisodeRequests (ρ : Type) where
  entry : EpisodeEntry
  steps : List (StepRequests ρ)

/-- An admitted call in the tool executor; the step is the one in its key. -/
structure Request (ρ : Type) where
  message : Nat
  step : Nat
  call : ToolCall ρ

/-- What the episodes of a run share of its counters, and the requests made so far. -/
structure RunCounters (ρ : Type) where
  message : Nat
  currentStep : Nat
  heuristicToolUsed : Bool
  requests : List (Request ρ)

namespace RunCounters

variable {ρ : Type} (maxSteps : Nat) (s : RunCounters ρ)

def fresh : RunCounters ρ := ⟨0, 0, false, []⟩

def ask (step : Nat) (call : ToolCall ρ) : RunCounters ρ :=
  if call.admitted then { s with requests := s.requests ++ [⟨s.message, step, call⟩] } else s

def askAll (step : Nat) (calls : List (ToolCall ρ)) : RunCounters ρ :=
  calls.foldl (fun s call => s.ask step call) s

/-- The calls of `_executeStep`: at most four answers of the model are followed, and three calls of
each; the assist comes once in a run, in one of the first two steps. -/
def executeStep (stepNumber : Nat) (asked : StepRequests ρ) : RunCounters ρ :=
  let started := { s with currentStep := s.currentStep + 1 }
  let rounds := asked.rounds.takeWhile fun calls => !calls.isEmpty
  let answered := (rounds.take 4).foldl (fun s calls => s.askAll stepNumber (calls.take 3)) started
  match asked.assist with
  | none => answered
  | some call =>
    if rounds.length ≤ 4 ∧ !answered.heuristicToolUsed ∧ stepNumber ≤ 2 then
      { answered with heuristicToolUsed := true }.ask answered.currentStep call
    else answered

/-- The loop of `_executeRun`. -/
def executeSteps : Nat → RunCounters ρ → List (StepRequests ρ) → RunCounters ρ
  | _, s, [] => s
  | steps, s, asked :: rest =>
    if steps < maxSteps then executeSteps (steps + 1) (s.executeStep (steps + 1) asked) rest else s

def enter : EpisodeEntry → Nat × RunCounters ρ
  | .start => (0, { s with message := s.message + 1 })
  | .retry recovery hasModel heuristicToolUsed =>
    let restored :=
      if recovery.restored then
        { s with
          currentStep := recovery.cursor.getD 0
          heuristicToolUsed := heuristicToolUsed }
      else s
    let cursor := (recovery.cursor.or recovery.plan.cursor).getD restored.currentStep
    (if hasModel then cursor else 0, restored)

def episode (e : EpisodeRequests ρ) : RunCounters ρ :=
  let (startStep, entered) := s.enter e.entry
  executeSteps maxSteps startStep entered e.steps

def requestsOf (episodes : List (EpisodeRequests ρ)) : List (Request ρ) :=
  (episodes.foldl (fun s e => s.episode maxSteps e) fresh).requests

end RunCounters

section Keys

variable (sha : Text → Text)

def hashParams (params : Option Json) : Text := (sha (stringify (orEmpty params))).take 12

def idempotencyKeyFor (runId toolName : String) (params : Option Json) (step : Nat) : Text :=
  runId.toList ++ ':' :: (toolName.toList ++ ':' :: (Nat.toDigits 10 step ++ ':' ::
    hashParams sha params))

def Request.key {ρ : Type} (runId : String) (r : Request ρ) : Text :=
  idempotencyKeyFor sha runId r.call.name r.call.arguments r.step

end Keys

structure StoredResult (ρ : Type) where
  message : Nat
  result : ρ

structure ToolExecutor (ρ : Type) where
  completedKeys : OrderedMap Text (StoredResult ρ)
  idempotencyStore : Option (OrderedMap Text (StoredResult ρ))

inductive ToolAnswer (ρ : Type)
  | executed (outcome : Option ρ)
  | deduped (stored : StoredResult ρ)

namespace ToolExecutor

variable {ρ : Type} (x : ToolExecutor ρ)

def remember (key : Text) (stored : StoredResult ρ) : ToolExecutor ρ :=
  let kept := x.completedKeys.set key stored
  { x with completedKeys := if 500 < kept.size then kept.dropOldest else kept }

def complete (key : Text) (stored : StoredResult ρ) : ToolExecutor ρ :=
  { x with idempotencyStore := x.idempotencyStore.map fun store => store.set key stored }

/-- `execute` from its look at the key on. -/
def execute (key : Text) (r : Request ρ) : ToolExecutor ρ × ToolAnswer ρ :=
  match x.completedKeys.get key with
  | some cached => (x, .deduped cached)
  | none =>
    match x.idempotencyStore.bind fun store => store.get key with
    | some stored => (x.remember key stored, .deduped stored)
    | none =>
      match r.call.outcome with
      | none => (x, .executed none)
      | some result =>
        let stored : StoredResult ρ := ⟨r.message, result⟩
        ((x.remember key stored).complete key stored, .executed (some result))

def answers (key : Request ρ → Text) : ToolExecutor ρ → List (Request ρ) →
    List (Request ρ × ToolAnswer ρ)
  | _, [] => []
  | x, r :: rs => (r, (x.execute (key r) r).2) :: answers key (x.execute (key r) r).1 rs

def blank (durable : Bool) : ToolExecutor ρ := ⟨.empty, if durable then some .empty else none⟩

end ToolExecutor

end OrchestraAI.Execution
