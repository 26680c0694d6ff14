import OrchestraAI.Economics.CallCoverage

/-! # Frozen economics

`economicsForRuntime` and the parts of `persistRunArtifacts` of `server.js` that freeze the
economics of a run and store them, over all episodes of the run: it makes calls, moves,
recovers, ends and is reopened while persist tasks wait. The registry may get other prices
at any time.
-/

namespace OrchestraAI.Economics

open LabelledSystem
open OrchestraAI.Core (TaskStatus)
open OrchestraAI.Recovery (truthy)

structure Reading where
  registry : ModelRegistry
  usage : RunUsage
  explicitReferenceModelId : Option String

structure RunEconomics where
  calls : RunCalls
  registry : ModelRegistry
  /-- `runtimeState.economics`. -/
  economics : Option SavingsResult
  /-- What `economics` was calculated from. -/
  frozenFrom : Option Reading
  /-- The `frozenEconomics` of the persist tasks that have not saved their snapshot. -/
  tasks : List (Option SavingsResult)
  /-- The economics of the stored snapshot. -/
  stored : Option (Option SavingsResult)
  /-- A snapshot was saved after the last step of the run itself. -/
  persisted : Bool

namespace RunEconomics

variable (platformFeePct : Field)

def usage (s : RunEconomics) : RunUsage := s.calls.usage

def economicsForRuntime (s : RunEconomics) (explicitReferenceModelId : Option String) :
    RunEconomics × SavingsResult :=
  match s.economics with
  | some economics => (s, economics)
  | none =>
    let result := calculateSavingsForRun s.registry (some s.usage) explicitReferenceModelId
      platformFeePct
    if s.usage.status.terminal then
      ({ s with
          economics := some result
          frozenFrom := some ⟨s.registry, s.usage, explicitReferenceModelId⟩ }, result)
    else (s, result)

inductive Label
  /-- A step of the run itself. -/
  | run (l : RunCalls.Label)
  | reprices (registry : ModelRegistry)
  /-- The economics are asked for, with the reference model of the request. -/
  | observes (explicitReferenceModelId : Option String)
  /-- `persistRunArtifacts` up to its first write. -/
  | persistBegins
  /-- It saves the snapshot that it builds now. -/
  | persistSaves (task : Nat)

def step (s : RunEconomics) : Label → Option RunEconomics
  | .run l => (s.calls.step l).map fun calls => { s with calls := calls, persisted := false }
  | .reprices registry => some { s with registry := registry }
  | .observes explicit => some (s.economicsForRuntime platformFeePct explicit).1
  | .persistBegins =>
    if s.usage.status.terminal then
      let frozen := s.economicsForRuntime platformFeePct none
      some { frozen.1 with tasks := s.tasks ++ [some frozen.2] }
    else some { s with tasks := s.tasks ++ [none] }
  | .persistSaves task =>
    s.tasks[task]?.map fun frozenEconomics =>
      if s.usage.status.terminal then
        let saved :=
          match frozenEconomics with
          | some economics => (s, economics)
          | none => s.economicsForRuntime platformFeePct none
        { saved.1 with
          tasks := s.tasks.eraseIdx task, stored := some (some saved.2), persisted := true }
      else
        { s with tasks := s.tasks.eraseIdx task, stored := some s.economics, persisted := true }

def Start (s : RunEconomics) : Prop :=
  s.calls.Start ∧ s.usage.status.terminal = false ∧ s.economics = none ∧ s.tasks = [] ∧
    s.stored = none ∧ s.persisted = false

/-- The stored economics are those of the run as it is, at the prices of the freeze. -/
def Described (s : RunEconomics) : Prop :=
  ∃ r ∈ s.frozenFrom, s.stored =
    some (some (calculateSavingsForRun r.registry (some s.usage) none platformFeePct))

def SameReading (u v : RunUsage) : Prop :=
  u.status = v.status ∧ (v.status = .completed → extractStepsFromRun u = extractStepsFromRun v)

def DefaultReference (u : RunUsage) (explicit : Option String) : Prop :=
  truthy explicit = none ∨ truthy explicit = truthy u.referenceModelId

/-- A step of the run that ends in a terminal status ends it as the frozen economics have it,
and no request for another reference model is the first to see a completed run. -/
def Settled (s : RunEconomics) : Label → Prop
  | .run l => ∀ calls ∈ s.calls.step l, calls.usage.status.terminal → ∀ r ∈ s.frozenFrom,
      SameReading r.usage calls.usage
  | .observes explicit => s.economics = none → s.usage.status = .completed →
      DefaultReference s.usage explicit
  | .reprices _ | .persistBegins | .persistSaves _ => True

def SameReference (u v : RunUsage) : Prop :=
  u.referenceModelId = v.referenceModelId ∧
    u.referencePricingSnapshot = v.referencePricingSnapshot

theorem sameReference_step {c d : RunCalls} {l : RunCalls.Label} (h : c.step l = some d) :
    SameReference c.usage d.usage := by
  cases l with
  | recovers checkpoint =>
    obtain ⟨_, -, rfl⟩ := Option.map_eq_some_iff.mp h
    exact ⟨rfl, rfl⟩
  | modelCall _ | completesStep | moves _ =>
    cases h
    exact ⟨rfl, rfl⟩

variable {platformFeePct}

theorem calculateSavingsForRun_of_incomplete (registry : ModelRegistry) {u : RunUsage}
    (h : u.status ≠ .completed) (explicit : Option String) :
    calculateSavingsForRun registry (some u) explicit platformFeePct =
      addBillingFields (withoutAmounts .incompleteRun .null
        s!"Run is not completed (status: {u.status.text})") platformFeePct := by
  unfold calculateSavingsForRun
  exact if_pos h

/-- The engine reads the reference model, its snapshot, the status and the provider calls. -/
theorem calculateSavingsForRun_congr (registry : ModelRegistry) {u v : RunUsage}
    {explicit : Option String} (hReading : SameReading u v) (hReference : SameReference u v)
    (hExplicit : u.status = .completed → DefaultReference u explicit) :
    calculateSavingsForRun registry (some u) explicit platformFeePct =
      calculateSavingsForRun registry (some v) none platformFeePct := by
  obtain ⟨hStatus, hSteps⟩ := hReading
  by_cases hCompleted : v.status = .completed
  · rw [hCompleted] at hStatus
    have hAsked : (truthy explicit).or (truthy v.referenceModelId) =
        (truthy none).or (truthy v.referenceModelId) := by
      rw [← hReference.1]
      obtain hNone | hSame := hExplicit hStatus
      · rw [hNone]
        rfl
      · rw [hSame, Option.or_self]
        rfl
    unfold calculateSavingsForRun
    simp only [hStatus, hCompleted, hAsked, hSteps hCompleted, hReference.2, getReferenceModel,
      hReference.1]
  · have hIncomplete : u.status ≠ .completed := hStatus ▸ hCompleted
    rw [calculateSavingsForRun_of_incomplete registry hIncomplete,
      calculateSavingsForRun_of_incomplete registry hCompleted, hStatus]

/-- The frozen economics, when there are any, describe every terminal state of the run. -/
structure Faithful (platformFeePct : Field) (s : RunEconomics) : Prop where
  frozen : ∀ e ∈ s.economics, ∃ r, s.frozenFrom = some r ∧
    e = calculateSavingsForRun r.registry (some r.usage) none platformFeePct ∧
    SameReference r.usage s.usage ∧
    (s.usage.status.terminal → SameReading r.usage s.usage)
  tasks : ∀ e, some e ∈ s.tasks → s.economics = some e
  persisted : s.persisted → s.usage.status.terminal → ∃ e, s.economics = some e ∧
    s.stored = some (some e)

theorem Faithful.described {s : RunEconomics} (h : s.Faithful platformFeePct)
    (hPersisted : s.persisted) (hTerminal : s.usage.status.terminal) :
    s.Described platformFeePct := by
  obtain ⟨e, hEconomics, hStored⟩ := h.persisted hPersisted hTerminal
  obtain ⟨r, hFrom, rfl, hReference, hReading⟩ := h.frozen e hEconomics
  refine ⟨r, hFrom, ?_⟩
  rw [hStored, calculateSavingsForRun_congr r.registry (hReading hTerminal) hReference
    fun _ => .inl rfl]

variable {s t : RunEconomics} {l : Label}

section

variable (platformFeePct)

theorem economicsForRuntime_cases (s : RunEconomics) (explicit : Option String) :
    (s.economicsForRuntime platformFeePct explicit).1 = s ∧
      (s.usage.status.terminal →
        s.economics = some (s.economicsForRuntime platformFeePct explicit).2) ∨
    s.economics = none ∧ s.usage.status.terminal ∧
      s.economicsForRuntime platformFeePct explicit =
        ({ s with
            economics := some (calculateSavingsForRun s.registry (some s.usage) explicit
              platformFeePct)
            frozenFrom := some ⟨s.registry, s.usage, explicit⟩ },
          calculateSavingsForRun s.registry (some s.usage) explicit platformFeePct) := by
  unfold economicsForRuntime
  cases hEconomics : s.economics with
  | some e => exact .inl ⟨rfl, fun _ => rfl⟩
  | none =>
    by_cases hTerminal : s.usage.status.terminal
    · exact .inr ⟨rfl, hTerminal, if_pos hTerminal⟩
    · exact .inl ⟨congrArg Prod.fst (if_neg hTerminal), fun h => absurd h hTerminal⟩

theorem economicsForRuntime_tasks (s : RunEconomics) (explicit : Option String) :
    (s.economicsForRuntime platformFeePct explicit).1.usage = s.usage ∧
      (s.economicsForRuntime platformFeePct explicit).1.tasks = s.tasks := by
  obtain ⟨hSame, -⟩ | ⟨-, -, hFrozen⟩ :=
    s.economicsForRuntime_cases platformFeePct explicit
  · rw [hSame]
    exact ⟨rfl, rfl⟩
  · rw [hFrozen]
    exact ⟨rfl, rfl⟩

theorem economicsForRuntime_economics (hTerminal : s.usage.status.terminal)
    (explicit : Option String) :
    (s.economicsForRuntime platformFeePct explicit).1.economics =
      some (s.economicsForRuntime platformFeePct explicit).2 := by
  obtain ⟨hSame, hSome⟩ | ⟨-, -, hFrozen⟩ :=
    s.economicsForRuntime_cases platformFeePct explicit
  · rw [hSame]
    exact hSome hTerminal
  · rw [hFrozen]

end

/-- Freezing keeps the invariant when the request is for the reference model of the run. -/
theorem Faithful.economicsForRuntime (hs : s.Faithful platformFeePct) {explicit : Option String}
    (hExplicit : s.economics = none → s.usage.status = .completed →
      DefaultReference s.usage explicit) :
    (s.economicsForRuntime platformFeePct explicit).1.Faithful platformFeePct := by
  obtain ⟨hSame, -⟩ | ⟨hNone, hTerminal, hFrozen⟩ :=
    s.economicsForRuntime_cases platformFeePct explicit
  · rwa [hSame]
  · rw [hFrozen]
    constructor
    · rintro e ⟨⟩
      refine ⟨_, rfl, ?_, ⟨rfl, rfl⟩, fun _ => ⟨rfl, fun _ => rfl⟩⟩
      exact calculateSavingsForRun_congr s.registry ⟨rfl, fun _ => rfl⟩ ⟨rfl, rfl⟩ (hExplicit hNone)
    · intro e he
      have hSome := hs.tasks e he
      rw [hNone] at hSome
      cases hSome
    · intro hPersisted _
      obtain ⟨e, hSome, -⟩ := hs.persisted hPersisted hTerminal
      rw [hNone] at hSome
      cases hSome

theorem faithful_step (hs : s.Faithful platformFeePct) (hok : Settled s l)
    (h : step platformFeePct s l = some t) : t.Faithful platformFeePct := by
  cases l with
  | run l =>
    obtain ⟨calls, hCalls, rfl⟩ := Option.map_eq_some_iff.mp h
    constructor
    · intro e he
      obtain ⟨r, hFrom, hResult, hReference, -⟩ := hs.frozen e he
      have hKept : SameReference s.usage calls.usage := sameReference_step hCalls
      refine ⟨r, hFrom, hResult, ⟨hReference.1.trans hKept.1, hReference.2.trans hKept.2⟩, ?_⟩
      exact fun hTerminal => hok calls hCalls hTerminal r hFrom
    · exact hs.tasks
    · intro hPersisted
      cases hPersisted
  | reprices registry =>
    cases h
    exact ⟨hs.frozen, hs.tasks, hs.persisted⟩
  | observes explicit =>
    cases h
    exact hs.economicsForRuntime hok
  | persistBegins =>
    simp only [step] at h
    split at h
    · rename_i hTerminal
      cases h
      have hFrozen : (s.economicsForRuntime platformFeePct none).1.Faithful platformFeePct :=
        hs.economicsForRuntime fun _ _ => .inl rfl
      have hEconomics := economicsForRuntime_economics platformFeePct hTerminal none
      refine ⟨hFrozen.frozen, fun e he => ?_, hFrozen.persisted⟩
      obtain hOld | hNew := List.mem_append.mp he
      · rw [← (economicsForRuntime_tasks platformFeePct s none).2] at hOld
        exact hFrozen.tasks e hOld
      · cases List.mem_singleton.mp hNew
        exact hEconomics
    · cases h
      refine ⟨hs.frozen, fun e he => ?_, hs.persisted⟩
      obtain hOld | hNew := List.mem_append.mp he
      · exact hs.tasks e hOld
      · cases List.mem_singleton.mp hNew
  | persistSaves task =>
    obtain ⟨frozenEconomics, hTask, rfl⟩ := Option.map_eq_some_iff.mp h
    have hTasks {e : SavingsResult} (he : some e ∈ s.tasks.eraseIdx task) : s.economics = some e :=
      hs.tasks e (List.mem_of_mem_eraseIdx he)
    split
    · rename_i hTerminal
      cases frozenEconomics with
      | some e =>
        have hEconomics : s.economics = some e := hs.tasks e (List.mem_of_getElem? hTask)
        exact ⟨hs.frozen, fun _ => hTasks, fun _ _ => ⟨e, hEconomics, rfl⟩⟩
      | none =>
        have hFrozen : (s.economicsForRuntime platformFeePct none).1.Faithful platformFeePct :=
          hs.economicsForRuntime fun _ _ => .inl rfl
        refine ⟨hFrozen.frozen, fun e he => ?_, fun _ _ => ⟨_, ?_, rfl⟩⟩
        · refine hFrozen.tasks e ?_
          rw [(economicsForRuntime_tasks platformFeePct s none).2]
          exact List.mem_of_mem_eraseIdx he
        · exact economicsForRuntime_economics platformFeePct hTerminal none
    · rename_i hOpen
      exact ⟨hs.frozen, fun _ => hTasks, fun _ hTerminal => absurd hTerminal hOpen⟩

theorem faithful_reach (h : Reach (step platformFeePct) Settled Start s) :
    s.Faithful platformFeePct :=
  h.invariant (I := Faithful platformFeePct)
    (by
      rintro s ⟨-, -, hEconomics, hTasks, -, hPersisted⟩
      constructor
      · intro e he
        rw [hEconomics] at he
        cases he
      · intro e he
        rw [hTasks] at he
        cases he
      · intro hSaved
        rw [hPersisted] at hSaved
        cases hSaved)
    fun _ _ _ hs hok hstep => faithful_step hs hok hstep

/-- In every run in which no terminal status contradicts the frozen economics, a terminal state
with its artifacts persisted has the economics of the run as it is. -/
theorem stored_economics_describe_run (h : Reach (step platformFeePct) Settled Start s)
    (hPersisted : s.persisted) (hTerminal : s.usage.status.terminal) :
    s.Described platformFeePct :=
  (faithful_reach h).described hPersisted hTerminal

def fresh : RunEconomics where
  calls := RunCalls.fresh
  registry := fun _ => none
  economics := none
  frozenFrom := none
  tasks := []
  stored := none
  persisted := false

def failsTwice : List Label :=
  [.run (.modelCall (RunCalls.dollarCall 1)), .run (.moves .failed), .persistBegins,
    .persistSaves 0, .run (.moves .retrying), .run (.moves .failed), .persistBegins,
    .persistSaves 0]

theorem start_fresh : fresh.Start := ⟨⟨rfl, rfl, rfl⟩, rfl, rfl, rfl, rfl, rfl⟩

def completesTwice : List Label :=
  [.run (.modelCall (RunCalls.dollarCall 1)), .run (.moves .completed), .persistBegins,
    .persistSaves 0, .run (.moves .executing), .run (.moves .completed), .persistBegins,
    .persistSaves 0]

theorem settled_failsTwice : Along (step .undefined) Settled fresh failsTwice := by
  refine ⟨?_, ?_, trivial, trivial, ?_, ?_, trivial, trivial, trivial⟩
  · rintro calls - - r ⟨⟩
  · rintro calls - - r ⟨⟩
  · rintro calls ⟨⟩ ⟨⟩
  · rintro calls ⟨⟩ - r ⟨⟩
    exact ⟨rfl, fun hCompleted => by cases hCompleted⟩

theorem settled_completesTwice : Along (step .undefined) Settled fresh completesTwice := by
  refine ⟨?_, ?_, trivial, trivial, ?_, ?_, trivial, trivial, trivial⟩
  · rintro calls - - r ⟨⟩
  · rintro calls - - r ⟨⟩
  · rintro calls ⟨⟩ ⟨⟩
  · rintro calls ⟨⟩ - r ⟨⟩
    exact ⟨rfl, fun _ => rfl⟩

theorem stored_economics_endsTwice :
    (∃ s, run (step .undefined) fresh failsTwice = some s ∧ s.persisted ∧
      s.usage.status = .failed ∧ s.Described .undefined) ∧
    ∃ s, run (step .undefined) fresh completesTwice = some s ∧ s.persisted ∧
      s.usage.status = .completed ∧ s.Described .undefined := by
  have hRuns : (run (step .undefined) fresh failsTwice).map (fun s => (s.persisted, s.usage.status)) =
        some (true, .failed) ∧
      (run (step .undefined) fresh completesTwice).map (fun s => (s.persisted, s.usage.status)) =
        some (true, .completed) := by decide +kernel
  obtain ⟨s, hs, hState⟩ := Option.map_eq_some_iff.mp hRuns.1
  obtain ⟨t, ht, hState'⟩ := Option.map_eq_some_iff.mp hRuns.2
  obtain ⟨hPersisted, hFailed⟩ := Prod.mk.inj hState
  obtain ⟨hPersisted', hCompleted⟩ := Prod.mk.inj hState'
  exact ⟨⟨s, hs, hPersisted, hFailed, stored_economics_describe_run
      ((Reach.start start_fresh).run hs settled_failsTwice) hPersisted (by rw [hFailed]; decide)⟩,
    ⟨t, ht, hPersisted', hCompleted, stored_economics_describe_run
      ((Reach.start start_fresh).run ht settled_completesTwice) hPersisted'
      (by rw [hCompleted]; decide)⟩⟩

def completesOnRetry : List Label :=
  [.run (.modelCall (RunCalls.dollarCall 1)), .run (.moves .failed), .persistBegins,
    .persistSaves 0, .run (.moves .retrying), .run (.moves .executing),
    .run (.modelCall (RunCalls.dollarCall 2)), .run (.moves .completed), .persistBegins,
    .persistSaves 0]

/-- The completed run is stored as incomplete. -/
theorem completed_stored_as_incomplete : ¬ ∀ s, Reach (step .undefined) Anything Start s →
    s.persisted → s.usage.status.terminal → s.Described .undefined := by
  intro h
  have hRun : (run (step .undefined) fresh completesOnRetry).map (fun s =>
      (s.persisted, s.usage.status.terminal,
        s.stored.map fun e => e.map fun r => r.calculationStatus,
        s.frozenFrom.map fun r => (calculateSavingsForRun r.registry (some s.usage) none
          .undefined).calculationStatus)) =
      some (true, true, some (some "incomplete"), some "verified_modeled") := by
    decide +kernel
  obtain ⟨s, hs, hState⟩ := Option.map_eq_some_iff.mp hRun
  obtain ⟨hPersisted, hState⟩ := Prod.mk.inj hState
  obtain ⟨hTerminal, hState⟩ := Prod.mk.inj hState
  obtain ⟨hStored, hNow⟩ := Prod.mk.inj hState
  obtain ⟨r, hFrom, hDescribed⟩ := h s (reach_of_run start_fresh hs) hPersisted hTerminal
  rw [hFrom] at hNow
  rw [hDescribed] at hStored
  exact absurd ((Option.some.inj (Option.some.inj hStored)).symm.trans (Option.some.inj hNow))
    (by decide)

end RunEconomics

end OrchestraAI.Economics
