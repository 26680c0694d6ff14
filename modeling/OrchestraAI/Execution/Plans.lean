import OrchestraAI.Library.LabelledSystem
import OrchestraAI.Library.OrderedMap
import OrchestraAI.Library.TextUnits
import OrchestraAI.Library.Worklist

/-! # Plans

The `PlanManager` of `execution/plans-episodes.js`. A step is ready when its dependencies are completed,
and a plan is complete when its steps are completed or skipped: between the two a plan can stand still.
-/

namespace OrchestraAI.Execution

open LabelledSystem

namespace Plans

inductive PlanStepStatus
  | pending
  | running
  | blocked
  | completed
  | failed
  | skipped
  | other (text : Text)
  deriving DecidableEq

structure PlanStep where
  id : Text
  description : Text
  status : PlanStepStatus
  dependencies : List Text
  expectedArtifacts : List Text
  verification : Json
  startedAt : Option Text
  completedAt : Option Text
  attempts : Nat

structure NewStep where
  description : Text
  dependencies : List Text
  expectedArtifacts : List Text
  verification : Json

def NewStep.ofText (description : Text) : NewStep := ⟨description, [], [], .null⟩

def newPlanStep (id : Text) (d : NewStep) : PlanStep where
  id := id
  description := Text.sliceUnits 500 d.description
  status := .pending
  dependencies := d.dependencies
  expectedArtifacts := d.expectedArtifacts
  verification := d.verification
  startedAt := none
  completedAt := none
  attempts := 0

structure Patch where
  id : Option Text
  description : Option Text
  status : Option PlanStepStatus
  dependencies : Option (List Text)
  expectedArtifacts : Option (List Text)
  verification : Option Json
  startedAt : Option (Option Text)
  completedAt : Option (Option Text)
  attempts : Option Nat

/-- `Object.assign(s, patch)`. -/
def Patch.assign (u : Patch) (s : PlanStep) : PlanStep where
  id := u.id.getD s.id
  description := u.description.getD s.description
  status := u.status.getD s.status
  dependencies := u.dependencies.getD s.dependencies
  expectedArtifacts := u.expectedArtifacts.getD s.expectedArtifacts
  verification := u.verification.getD s.verification
  startedAt := u.startedAt.getD s.startedAt
  completedAt := u.completedAt.getD s.completedAt
  attempts := u.attempts.getD s.attempts

structure Plan where
  steps : List PlanStep
  version : Nat
  updatedAt : Text

abbrev PlanManager := OrderedMap Text Plan

def create (m : PlanManager) (runId : Text) (descriptions : List (Text × NewStep)) (now : Text) :
    PlanManager :=
  m.set runId ⟨descriptions.map fun d => newPlanStep d.1 d.2, 1, now⟩

/-- A step as `adapt` leaves it: updated, and skipped if it is pending then. -/
def adaptStep (updateStep : OrderedMap Text Patch) (skipStepIds : List Text) (s : PlanStep) :
    PlanStep :=
  let s := match updateStep.get s.id with
    | some u => u.assign s
    | none => s
  if s.id ∈ skipStepIds ∧ s.status = .pending then { s with status := .skipped } else s

/-- The plan after `adapt`; the added steps come with their ids. -/
def adaptPlan (p : Plan) (updateStep : OrderedMap Text Patch) (addSteps : List (Text × NewStep))
    (skipStepIds : List Text) (now : Text) : Plan where
  steps := p.steps.map (adaptStep updateStep skipStepIds) ++ addSteps.map fun d => newPlanStep d.1 d.2
  version := p.version + 1
  updatedAt := now

/-- A step as `setStatus` leaves it. -/
def setStep (status : PlanStepStatus) (extra : Patch) (now : Text) (s : PlanStep) : PlanStep :=
  let s := { s with status := status }
  let s := if status = .running ∧ s.startedAt = none then
    { s with startedAt := some now, attempts := s.attempts + 1 } else s
  let s := if status ∈ [.completed, .failed, .skipped] then { s with completedAt := some now } else s
  extra.assign s

/-- The plan after `setStatus`: the first step with the id is set. -/
def setPlan (p : Plan) (stepId : Text) (status : PlanStepStatus) (extra : Patch) (now : Text) : Plan :=
  match p.steps.findIdx? (·.id = stepId) with
  | none => p
  | some i => { p with steps := p.steps.modify i (setStep status extra now), updatedAt := now }

/-- `byId.get(d)`: the last step with the id. -/
def byId (p : Plan) (d : Text) : Option PlanStep := (OrderedMap.empty.setAll (·.id) p.steps).get d

def isCompleted (p : Plan) (d : Text) : Bool := (byId p d).any (·.status = .completed)

def isReady (p : Plan) (s : PlanStep) : Bool := s.status = .pending ∧ s.dependencies.all (isCompleted p)

def readySteps (p : Plan) : List PlanStep := p.steps.filter (isReady p)

def isComplete (p : Plan) : Bool :=
  ¬ p.steps.isEmpty ∧ p.steps.all fun s => s.status ∈ [.completed, .skipped]

inductive Call
  | setStatus (runId stepId : Text) (status : PlanStepStatus) (extra : Patch) (now : Text)
  | adapt (runId : Text) (updateStep : OrderedMap Text Patch) (addSteps : List (Text × NewStep))
      (skipStepIds : List Text) (now : Text)
  | readySteps (runId : Text)

def change (m : PlanManager) (runId : Text) (f : Plan → Plan) : PlanManager :=
  match m.get runId with
  | none => m
  | some p => m.set runId (f p)

def step (m : PlanManager) : Call → Option PlanManager
  | .setStatus runId stepId status extra now =>
    some (change m runId fun p => setPlan p stepId status extra now)
  | .adapt runId updateStep addSteps skipStepIds now =>
    some (change m runId fun p => adaptPlan p updateStep addSteps skipStepIds now)
  | .readySteps _ => some m

def Keeps (p q : Plan) : Prop :=
  ∀ (i : Nat) (s : PlanStep), p.steps[i]? = some s → s.status = .completed →
    ∃ t, q.steps[i]? = some t ∧ t.id = s.id ∧ t.status = .completed

def DependsOn (p : Plan) (s t : PlanStep) : Prop := s ∈ p.steps ∧ ∃ d ∈ s.dependencies, byId p d = some t

def Acyclic (p : Plan) : Prop := FiniteDependencies.Acyclic (DependsOn p)

def Idle (p : Plan) : Prop := ∀ s ∈ p.steps, s.status ∉ [.running, .failed, .blocked]

/-- What is ready has its dependencies completed, and of a plan that is not complete and where nothing
happens something is ready. -/
structure Progress (p : Plan) : Prop where
  satisfied : ∀ s ∈ readySteps p, ∀ d ∈ s.dependencies, ∃ t ∈ p.steps, t.id = d ∧ t.status = .completed
  ready : Acyclic p → isComplete p = false → Idle p → readySteps p ≠ []

def Right (m : PlanManager) : Call → Prop
  | .setStatus .. => True
  | .adapt runId updateStep addSteps skipStepIds now =>
    ∀ p, m.get runId = some p → Keeps p (adaptPlan p updateStep addSteps skipStepIds now)
  | .readySteps runId => ∀ p, m.get runId = some p → Progress p

def Lost (p : Plan) (d : Text) : Prop := ∀ t, byId p d = some t → t.status ≠ .completed ∧ t.status ≠ .pending

/-- A step waits for a lost dependency, its own or that of a pending step it depends on. -/
def Waits (p : Plan) : PlanStep → Prop :=
  FiniteDependencies.Waits (fun s => ∃ d ∈ s.dependencies, Lost p d)
    fun s t => DependsOn p s t ∧ t.status = .pending

def Patch.Leaves (u : Patch) (s : PlanStep) : Prop :=
  u.id.getD s.id = s.id ∧ u.status.getD .completed = .completed

/-- No update is to the id or the status of a completed step; and some pending step waits for no lost
dependency where nothing happens in a plan that is not complete. -/
def Fits (m : PlanManager) : Call → Prop
  | .setStatus .. => True
  | .adapt runId updateStep _ _ _ => ∀ p, m.get runId = some p →
      ∀ s ∈ p.steps, s.status = .completed → ∀ u, updateStep.get s.id = some u → u.Leaves s
  | .readySteps runId => ∀ p, m.get runId = some p → Acyclic p → isComplete p = false → Idle p →
      ∃ s ∈ p.steps, s.status = .pending ∧ ¬ Waits p s

variable {p : Plan} {s t : PlanStep} {d : Text} {m : PlanManager}

theorem adaptStep_keeps_iff (hCompleted : s.status = .completed) (updateStep : OrderedMap Text Patch)
    (skipStepIds : List Text) :
    (adaptStep updateStep skipStepIds s).id = s.id ∧
        (adaptStep updateStep skipStepIds s).status = .completed ↔
      ∀ u, updateStep.get s.id = some u → u.Leaves s := by
  have hSkip (s' : PlanStep) :
      (if s'.id ∈ skipStepIds ∧ s'.status = .pending then { s' with status := .skipped } else s').id =
          s.id ∧
        (if s'.id ∈ skipStepIds ∧ s'.status = .pending then { s' with status := .skipped }
          else s').status = .completed ↔ s'.id = s.id ∧ s'.status = .completed := by
    split
    · rename_i h
      simp [h.2]
    · rfl
  rw [adaptStep]
  cases hUpdate : updateStep.get s.id with
  | none =>
    refine (hSkip s).trans (iff_of_true ⟨rfl, hCompleted⟩ ?_)
    rintro u ⟨⟩
  | some u =>
    refine (hSkip (u.assign s)).trans ?_
    rw [Patch.assign, hCompleted]
    constructor
    · rintro h _ ⟨⟩
      exact h
    · exact fun h => h u rfl

theorem keeps_iff (p : Plan) (updateStep : OrderedMap Text Patch) (addSteps : List (Text × NewStep))
    (skipStepIds : List Text) (now : Text) :
    Keeps p (adaptPlan p updateStep addSteps skipStepIds now) ↔
      ∀ s ∈ p.steps, s.status = .completed → ∀ u, updateStep.get s.id = some u → u.Leaves s := by
  have hPlace {i : Nat} {s : PlanStep} (h : p.steps[i]? = some s) :
      (adaptPlan p updateStep addSteps skipStepIds now).steps[i]? =
        some (adaptStep updateStep skipStepIds s) := by
    obtain ⟨hLt, -⟩ := List.getElem?_eq_some_iff.mp h
    rw [adaptPlan, List.getElem?_append_left (by rwa [List.length_map]), List.getElem?_map, h]
    rfl
  constructor
  · intro hKeeps s hs hCompleted
    obtain ⟨i, hi⟩ := List.mem_iff_getElem?.mp hs
    obtain ⟨t, ht, hKept⟩ := hKeeps i s hi hCompleted
    obtain rfl := Option.some.inj ((hPlace hi).symm.trans ht)
    exact (adaptStep_keeps_iff hCompleted updateStep skipStepIds).mp hKept
  · intro hLeaves i s hi hCompleted
    exact ⟨_, hPlace hi, (adaptStep_keeps_iff hCompleted updateStep skipStepIds).mpr
      (hLeaves s (List.mem_of_getElem? hi) hCompleted)⟩

theorem byId_mem (h : byId p d = some t) : t ∈ p.steps ∧ t.id = d := by
  obtain hNew | ⟨hOld, -⟩ := OrderedMap.get_setAll h
  · exact hNew
  · cases hOld

theorem mem_readySteps : s ∈ readySteps p ↔
    s ∈ p.steps ∧ s.status = .pending ∧ ∀ d ∈ s.dependencies, ∃ t, byId p d = some t ∧ t.status = .completed := by
  simp [readySteps, isReady, isCompleted, Option.any_eq_true, List.mem_filter]

theorem satisfied (hs : s ∈ readySteps p) (hd : d ∈ s.dependencies) :
    ∃ t ∈ p.steps, t.id = d ∧ t.status = .completed := by
  obtain ⟨t, ht, hCompleted⟩ := (mem_readySteps.mp hs).2.2 d hd
  obtain ⟨hMem, hId⟩ := byId_mem ht
  exact ⟨t, hMem, hId, hCompleted⟩

theorem not_waits_of_ready (hs : s ∈ readySteps p) : ¬ Waits p s := by
  obtain ⟨-, -, hCompleted⟩ := mem_readySteps.mp hs
  intro hWaits
  cases hWaits with
  | here hLost =>
    obtain ⟨d, hd, hLost⟩ := hLost
    obtain ⟨t, ht, hStatus⟩ := hCompleted d hd
    exact (hLost t ht).1 hStatus
  | through hEdge _ =>
    obtain ⟨⟨-, d, hd, ht⟩, hPending⟩ := hEdge
    obtain ⟨t', ht', hStatus⟩ := hCompleted d hd
    rw [Option.some.inj (ht.symm.trans ht'), hStatus] at hPending
    cases hPending

/-- A step that waits for nothing that is lost leads along its pending dependencies to a ready one. -/
theorem exists_ready_iff (hAcyclic : Acyclic p) :
    readySteps p ≠ [] ↔ ∃ s ∈ p.steps, s.status = .pending ∧ ¬ Waits p s := by
  constructor
  · intro hReady
    obtain ⟨s, hs⟩ := List.exists_mem_of_ne_nil _ hReady
    exact ⟨s, (mem_readySteps.mp hs).1, (mem_readySteps.mp hs).2.1, not_waits_of_ready hs⟩
  · rintro ⟨s, hs, hPending, hFree⟩
    have hSub : FiniteDependencies.Acyclic fun s t => DependsOn p s t ∧ t.status = .pending :=
      hAcyclic.mono fun _ _ h => h.1
    have hFinite (s t : PlanStep) (h : DependsOn p s t ∧ t.status = .pending) : t ∈ p.steps := by
      obtain ⟨⟨-, d, -, ht⟩, -⟩ := h
      exact (byId_mem ht).1
    obtain ⟨t, ⟨ht, hStatus⟩, hNotLost, hLast⟩ := FiniteDependencies.exists_last
      (P := fun t => t ∈ p.steps ∧ t.status = .pending) hFinite hSub
      (fun s t h => ⟨hFinite s t h, h.2⟩) ⟨hs, hPending⟩ hFree
    refine List.ne_nil_of_mem (mem_readySteps.mpr ⟨ht, hStatus, fun d hd => ?_⟩)
    by_contra hNone
    refine hNotLost ⟨d, hd, fun u hu => ⟨fun hCompleted => hNone ⟨u, hu, hCompleted⟩, fun hStill => ?_⟩⟩
    exact hLast u ⟨⟨ht, d, hd, hu⟩, hStill⟩

theorem progress_iff (p : Plan) : Progress p ↔
    (Acyclic p → isComplete p = false → Idle p → ∃ s ∈ p.steps, s.status = .pending ∧ ¬ Waits p s) := by
  constructor
  · exact fun h hAcyclic hOpen hIdle => (exists_ready_iff hAcyclic).mp (h.ready hAcyclic hOpen hIdle)
  · exact fun h => ⟨fun _ hs _ hd => satisfied hs hd,
      fun hAcyclic hOpen hIdle => (exists_ready_iff hAcyclic).mpr (h hAcyclic hOpen hIdle)⟩

theorem right_iff (m : PlanManager) (call : Call) : Right m call ↔ Fits m call := by
  cases call with
  | setStatus => exact Iff.rfl
  | adapt runId updateStep addSteps skipStepIds now =>
    exact forall₂_congr fun p _ => keeps_iff p updateStep addSteps skipStepIds now
  | readySteps runId => exact forall₂_congr fun p _ => progress_iff p

/-- Over every sequence of calls the plans keep what is done and make progress if and only if every
call fits. -/
theorem plans_iff (m : PlanManager) (calls : List Call) :
    Along step Right m calls ↔ Along step Fits m calls :=
  along_congr (I := fun _ => True) (fun m call _ => ⟨right_iff m call, fun _ _ _ => trivial⟩) trivial calls

def runText : Text := "run".toList

def onePlan : PlanManager := create .empty runText [("a".toList, .ofText "read".toList)] "t0".toList

def noPatch : Patch := ⟨none, none, none, none, none, none, none, none, none⟩

def undo : List Call :=
  [.setStatus runText "a".toList .completed noPatch "t1".toList,
    .adapt runText (.set .empty "a".toList { noPatch with status := some .pending }) [] [] "t2".toList]

def skipNeeded : List Call :=
  [.adapt runText .empty [("b".toList, ⟨"write".toList, ["a".toList], [], .null⟩)] ["a".toList]
      "t1".toList, .readySteps runText]

def skippedPlan : Plan :=
  adaptPlan ⟨[newPlanStep "a".toList (.ofText "read".toList)], 1, "t0".toList⟩ .empty
    [("b".toList, ⟨"write".toList, ["a".toList], [], .null⟩)] ["a".toList] "t1".toList

theorem acyclic_skippedPlan : Acyclic skippedPlan := by
  have hFewer : ∀ s ∈ skippedPlan.steps, ∀ t ∈ skippedPlan.steps, t.id ∈ s.dependencies →
      t.dependencies.length < s.dependencies.length := by
    decide +kernel
  refine FiniteDependencies.acyclic_of_rank (fun s => s.dependencies.length) fun s t hDepends => ?_
  obtain ⟨hs, d, hd, ht⟩ := hDepends
  obtain ⟨hMem, hId⟩ := byId_mem ht
  exact hFewer s hs t hMem (hId ▸ hd)

theorem idle_skippedPlan : Idle skippedPlan := by
  unfold Idle
  decide +kernel

theorem undone_or_stuck : ¬ Along step Right onePlan undo ∧ ¬ Along step Right onePlan skipNeeded := by
  refine ⟨fun h => ?_, fun h => ?_⟩
  · obtain ⟨t, ht, -, hStatus⟩ := h.2.1 _ rfl 0 _ rfl rfl
    obtain rfl := Option.some.inj ht
    cases hStatus
  · exact (h.2.1 skippedPlan rfl).ready acyclic_skippedPlan rfl idle_skippedPlan rfl

end Plans

end OrchestraAI.Execution
