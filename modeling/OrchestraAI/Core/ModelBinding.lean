import OrchestraAI.Library.LabelledSystem

/-! # The model that is called

The two copies that a run keeps of its model, `runtimeState.model.currentModel` and
`ctrl.providerModel`, under the operations of `core/orchestrator.js` that change them,
`applySnapshotToRuntime` of `checkpoint/checkpoint-manager.js` and `buildControlRecordOrNull` of
`execution/execution-state.js`. A call of `_callModel` is two steps, since a price change may be
handled while it waits; its cached answers and its failures end it without a request.
-/

namespace OrchestraAI.Core

open LabelledSystem

/-- What stands as a native identifier; a rebuilt run puts a number there. -/
inductive NativeName
  | text (name : String)
  | number (limit : Nat)
  deriving DecidableEq

structure ModelEntry where
  id : String
  nativeId : Option NativeName
  contextWindow : Nat
  deriving DecidableEq

/-- `ctrl.mode` and the default model of the provider's adapter. -/
structure CallSetting where
  live : Bool
  defaultModel : Option NativeName

/-- A call between the resolution of its model and the request; its costs, its pricing snapshot
and its observations go by `modelId`. -/
structure PendingCall where
  modelId : String
  definition : ModelEntry
  promptTokens : Nat
  deriving DecidableEq

/-- What a checkpoint and a persisted execution state have of the model. -/
structure SavedModel where
  currentModel : Option String
  modelContextLimit : Nat
  deriving DecidableEq

structure BindingState where
  registry : String → Option ModelEntry
  currentModel : Option String
  modelContextLimit : Nat
  providerModel : Option ModelEntry
  maximumTokens : Nat
  checkpoints : List SavedModel
  saved : List SavedModel
  call : Option PendingCall

inductive BindingOp
  | registered (entry : ModelEntry)
  | updated (id : String) (nativeId : Option NativeName) (contextWindow : Nat)
  | unregistered (id : String)
  /-- `_selectModel`, at the beginning or after a price change. -/
  | selected (id : String)
  /-- `_applyModelSwitch`, outside a call. -/
  | switched (id : String)
  | captured
  /-- A retry from a checkpoint. -/
  | restored (snapshot : SavedModel)
  | persisted
  | rebuilt (saved : SavedModel)
  | began (promptTokens : Nat)
  /-- `_applyModelSwitch` of the budget guard of a call. -/
  | budgetSwitched (id : String)
  | ended

variable (setting : CallSetting)

def mappedEntry (entry : ModelEntry) : Bool := !setting.live || entry.nativeId.isSome

/-- `_nativeModelId`. -/
def nativeModelId (definition : ModelEntry) : NativeName :=
  match definition.nativeId with
  | some native => native
  | none =>
    if setting.live then setting.defaultModel.getD (.text definition.id) else .text definition.id

def exceeds (window promptTokens : Nat) : Bool := 0 < window && window < promptTokens

def setEntry (registry : String → Option ModelEntry) (id : String) (entry : Option ModelEntry) :
    String → Option ModelEntry :=
  fun other => if other = id then entry else registry other

/-- The control record of a rebuilt run takes the context limit for the native identifier. -/
def rebuiltModel (saved : SavedModel) : Option ModelEntry :=
  saved.currentModel.map fun id =>
    ⟨id, if saved.modelContextLimit = 0 then none else some (.number saved.modelContextLimit),
      saved.modelContextLimit⟩

/-- The entry that `_callModel` works with. -/
def resolvedModel (s : BindingState) (current : String) : Option ModelEntry :=
  s.providerModel.or (s.registry current)

def BindingState.savedModel (s : BindingState) : SavedModel := ⟨s.currentModel, s.modelContextLimit⟩

def callWindow (s : BindingState) (definition : ModelEntry) : Nat :=
  if definition.contextWindow = 0 then s.maximumTokens else definition.contextWindow

def bindingStep (s : BindingState) : BindingOp → Option BindingState
  | .registered entry => some { s with registry := setEntry s.registry entry.id (some entry) }
  | .updated id nativeId contextWindow =>
    (s.registry id).map fun entry =>
      { s with
        registry := setEntry s.registry id
          (some { entry with nativeId := nativeId, contextWindow := contextWindow }) }
  | .unregistered id => some { s with registry := setEntry s.registry id none }
  | .selected id =>
    ((s.registry id).filter (mappedEntry setting)).map fun entry =>
      { s with
        currentModel := some id
        modelContextLimit := entry.contextWindow
        providerModel := some entry }
  | .switched id =>
    if s.call.isSome then none
    else (s.registry id).map fun entry =>
      { s with currentModel := some id, providerModel := some entry }
  | .captured => some { s with checkpoints := s.savedModel :: s.checkpoints }
  | .restored snapshot =>
    if s.call.isSome ∨ snapshot ∉ s.checkpoints then none
    else some
      { s with
        currentModel := snapshot.currentModel
        modelContextLimit := snapshot.modelContextLimit }
  | .persisted => some { s with saved := s.savedModel :: s.saved }
  | .rebuilt saved =>
    if saved ∉ s.saved then none
    else some
      { s with
        currentModel := saved.currentModel
        modelContextLimit := saved.modelContextLimit
        providerModel := rebuiltModel saved
        call := none }
  | .began promptTokens =>
    if s.call.isSome then none
    else s.currentModel.bind fun current => (resolvedModel s current).bind fun definition =>
      if !mappedEntry setting definition || exceeds (callWindow s definition) promptTokens then none
      else some { s with call := some ⟨current, definition, promptTokens⟩ }
  | .budgetSwitched id =>
    s.call.bind fun call => (s.registry id).map fun entry =>
      { s with
        currentModel := some id
        providerModel := some entry
        call :=
          if exceeds entry.contextWindow call.promptTokens then none
          else some ⟨id, entry, call.promptTokens⟩ }
  | .ended => some { s with call := none }

/-- The native identifier of an entry, or in demo mode its own where it has none. -/
def requestName (entry : ModelEntry) : Option NativeName :=
  entry.nativeId.or (if setting.live then none else some (.text entry.id))

/-- The registry entry of the current model is the one that is called, checked and billed. -/
def RightModel (s : BindingState) (call : PendingCall) : Prop :=
  ∃ entry, s.currentModel = some entry.id ∧ s.registry entry.id = some entry ∧
    requestName setting entry = some (nativeModelId setting call.definition) ∧
    call.definition.contextWindow = entry.contextWindow ∧ call.modelId = entry.id

def Current (registry : String → Option ModelEntry) (copy : ModelEntry) : Prop :=
  registry copy.id = some copy

def Holds (s : BindingState) (id : String) : Prop :=
  (∃ m, s.providerModel = some m ∧ m.id = id) ∨ ∃ call, s.call = some call ∧ call.definition.id = id

/-- The registry entries that a run holds stay as they are, a price change selects nothing new
during a call, the budget guard switches to a mapped model, a retry comes back to the model of the
control record or to none, and a run is rebuilt before it has a model or where the registry gives
its model the saved limit, and as native identifier that number too. -/
def Steady (s : BindingState) : BindingOp → Prop
  | .registered entry => ¬ Holds s entry.id ∨ s.registry entry.id = some entry
  | .updated id nativeId contextWindow => ¬ Holds s id ∨ ∀ entry, s.registry id = some entry →
      entry.nativeId = nativeId ∧ entry.contextWindow = contextWindow
  | .unregistered id => ¬ Holds s id
  | .selected id => s.call = none ∨ s.currentModel = some id
  | .budgetSwitched id => ∀ entry, s.registry id = some entry → mappedEntry setting entry
  | .restored snapshot => snapshot.currentModel = none ∨ s.providerModel = none ∨
      snapshot.currentModel = s.providerModel.map ModelEntry.id
  | .rebuilt saved => ∀ id, saved.currentModel = some id → ∃ entry, s.registry id = some entry ∧
      entry.contextWindow = saved.modelContextLimit ∧
      entry.nativeId = if saved.modelContextLimit = 0 then none else some (.number saved.modelContextLimit)
  | .switched _ | .captured | .persisted | .began _ | .ended => True

/-- The two copies agree, and a pending call has been resolved to them. -/
structure Bound (s : BindingState) : Prop where
  keyed : ∀ id entry, s.registry id = some entry → entry.id = id
  copy : ∀ m, s.providerModel = some m → Current s.registry m
  same : ∀ m, s.providerModel = some m → ∀ current, s.currentModel = some current → m.id = current
  pending : ∀ call, s.call = some call → s.currentModel = some call.modelId ∧
    call.definition.id = call.modelId ∧ Current s.registry call.definition ∧
    mappedEntry setting call.definition

theorem requestName_of_mapped {entry : ModelEntry} (h : mappedEntry setting entry) :
    requestName setting entry = some (nativeModelId setting entry) := by
  cases hNative : entry.nativeId with
  | some native => simp [requestName, nativeModelId, hNative]
  | none =>
    have hDemo : setting.live = false := by simpa [mappedEntry, hNative] using h
    simp [requestName, nativeModelId, hNative, hDemo]

theorem Bound.rightModel {s : BindingState} (h : Bound setting s) {call : PendingCall}
    (hCall : s.call = some call) : RightModel setting s call := by
  obtain ⟨hCurrent, hId, hEntry, hMapped⟩ := h.pending call hCall
  exact ⟨call.definition, hId ▸ hCurrent, hEntry, requestName_of_mapped setting hMapped, rfl,
    hId.symm⟩

theorem setEntry_of_ne {registry : String → Option ModelEntry} {id other : String}
    (h : other ≠ id) (entry : Option ModelEntry) :
    setEntry registry id entry other = registry other :=
  if_neg h

theorem setEntry_same {registry : String → Option ModelEntry} {id : String}
    {entry : Option ModelEntry} (h : registry id = entry) :
    setEntry registry id entry = registry := by
  funext other
  rw [setEntry]
  split
  next hOther => rw [hOther, h]
  · rfl

theorem Current.setEntry {registry : String → Option ModelEntry} {copy : ModelEntry} {id : String}
    (h : Current registry copy) (hne : copy.id ≠ id) (entry : Option ModelEntry) :
    Current (setEntry registry id entry) copy :=
  (setEntry_of_ne hne entry).trans h

theorem Bound.setEntry {s : BindingState} (h : Bound setting s) {id : String}
    {entry : Option ModelEntry} (hEntry : ∀ e, entry = some e → e.id = id)
    (hFree : ¬ Holds s id) :
    Bound setting { s with registry := setEntry s.registry id entry } := by
  constructor
  · intro other e he
    by_cases hOther : other = id
    · subst hOther
      exact hEntry e (by simpa [Core.setEntry] using he)
    · exact h.keyed other e ((setEntry_of_ne hOther entry).symm.trans he)
  · intro m hm
    apply (h.copy m hm).setEntry
    intro hId
    exact hFree (.inl ⟨m, hm, hId⟩)
  · exact h.same
  · intro call hCall
    obtain ⟨hModel, hId, hDefinition, hMapped⟩ := h.pending call hCall
    refine ⟨hModel, hId, hDefinition.setEntry ?_ entry, hMapped⟩
    intro hHeld
    exact hFree (.inr ⟨call, hCall, hHeld⟩)

theorem rebuiltModel_id {saved : SavedModel} {copy : ModelEntry}
    (h : rebuiltModel saved = some copy) : saved.currentModel = some copy.id := by
  obtain ⟨id, hId, rfl⟩ := Option.map_eq_some_iff.mp h
  exact hId

theorem Bound.chosen {s : BindingState} (h : Bound setting s) {id : String} {entry : ModelEntry}
    (hEntry : s.registry id = some entry) : Current s.registry entry ∧ entry.id = id :=
  have hId := h.keyed id entry hEntry
  ⟨(congrArg s.registry hId).trans hEntry, hId⟩

theorem Bound.withoutCall {s : BindingState} (hKeyed : ∀ id entry, s.registry id = some entry →
    entry.id = id) (hCopy : ∀ m, s.providerModel = some m → Current s.registry m)
    (hSame : ∀ m, s.providerModel = some m → ∀ current, s.currentModel = some current →
      m.id = current) (hCall : s.call = none) : Bound setting s :=
  ⟨hKeyed, hCopy, hSame, fun _ h => nomatch hCall.symm.trans h⟩

/-- The definition that a call is resolved to is the registry's for the current model. -/
theorem Bound.resolved {s : BindingState} (h : Bound setting s) {current : String}
    {definition : ModelEntry} (hCurrent : s.currentModel = some current)
    (hDefinition : resolvedModel s current = some definition) :
    Current s.registry definition ∧ definition.id = current := by
  rw [resolvedModel] at hDefinition
  cases hCopy : s.providerModel with
  | some m =>
    obtain rfl : m = definition := by simpa [hCopy] using hDefinition
    exact ⟨h.copy m hCopy, h.same m hCopy current hCurrent⟩
  | none => exact h.chosen setting (by simpa [hCopy] using hDefinition)

theorem Bound.step {s t : BindingState} {op : BindingOp} (h : Bound setting s)
    (hSteady : Steady setting s op) (hStep : bindingStep setting s op = some t) :
    Bound setting t := by
  cases op with
  | registered entry =>
    obtain rfl := Option.some.inj hStep
    obtain hFree | hSame := hSteady
    · exact h.setEntry setting (fun e he => by cases he; rfl) hFree
    · rwa [setEntry_same hSame]
  | updated id nativeId contextWindow =>
    obtain ⟨entry, hEntry, rfl⟩ := Option.map_eq_some_iff.mp hStep
    obtain hFree | hSame := hSteady
    · refine h.setEntry setting (fun e he => ?_) hFree
      cases he
      exact h.keyed id entry hEntry
    · obtain ⟨rfl, rfl⟩ := hSame entry hEntry
      rwa [setEntry_same hEntry]
  | unregistered id =>
    obtain rfl := Option.some.inj hStep
    exact h.setEntry setting (fun e he => nomatch he) hSteady
  | selected id =>
    obtain ⟨entry, hFound, rfl⟩ := Option.map_eq_some_iff.mp hStep
    obtain ⟨hEntry, hId⟩ := h.chosen setting (Option.filter_eq_some_iff.mp hFound).1
    constructor
    · exact h.keyed
    · rintro m ⟨⟩
      exact hEntry
    · rintro m ⟨⟩ current ⟨⟩
      exact hId
    · intro call hCall
      -- a price change in the middle of a call has selected the model it has been resolved to
      obtain hNone | hSame := hSteady
      · exact nomatch hNone.symm.trans hCall
      · exact ⟨hSame.symm.trans (h.pending call hCall).1, (h.pending call hCall).2⟩
  | switched id =>
    rw [bindingStep] at hStep
    split at hStep
    · cases hStep
    next hCall =>
      obtain ⟨entry, hFound, rfl⟩ := Option.map_eq_some_iff.mp hStep
      obtain ⟨hEntry, hId⟩ := h.chosen setting hFound
      apply Bound.withoutCall
      · exact h.keyed
      · rintro m ⟨⟩
        exact hEntry
      · rintro m ⟨⟩ current ⟨⟩
        exact hId
      · simpa using hCall
  | captured =>
    obtain rfl := Option.some.inj hStep
    exact ⟨h.keyed, h.copy, h.same, h.pending⟩
  | restored snapshot =>
    rw [bindingStep] at hStep
    split at hStep
    · cases hStep
    next hFree =>
      obtain rfl := Option.some.inj hStep
      apply Bound.withoutCall
      · exact h.keyed
      · exact h.copy
      · intro m hm current hModel
        dsimp only at hm hModel
        obtain hNoModel | hNone | hSame := hSteady
        · exact nomatch hNoModel.symm.trans hModel
        · exact nomatch hNone.symm.trans hm
        · rw [hm, hModel] at hSame
          exact (Option.some.inj hSame).symm
      · simpa using (not_or.mp hFree).1
  | persisted =>
    obtain rfl := Option.some.inj hStep
    exact ⟨h.keyed, h.copy, h.same, h.pending⟩
  | rebuilt saved =>
    rw [bindingStep] at hStep
    split at hStep
    · cases hStep
    · obtain rfl := Option.some.inj hStep
      apply Bound.withoutCall
      · exact h.keyed
      · rintro m hm
        obtain ⟨id, hId, rfl⟩ := Option.map_eq_some_iff.mp hm
        obtain ⟨entry, hEntry, hWindow, hNative⟩ := hSteady id hId
        obtain ⟨entryId, nativeId, contextWindow⟩ := entry
        obtain rfl : entryId = id := h.keyed id _ hEntry
        obtain rfl : contextWindow = _ := hWindow
        obtain rfl : nativeId = _ := hNative
        exact hEntry
      · intro m hm current hModel
        exact Option.some.inj ((rebuiltModel_id hm).symm.trans hModel)
      · rfl
  | began promptTokens =>
    rw [bindingStep] at hStep
    split at hStep
    · cases hStep
    · obtain ⟨current, hCurrent, hStep⟩ := Option.bind_eq_some_iff.mp hStep
      obtain ⟨definition, hDefinition, hStep⟩ := Option.bind_eq_some_iff.mp hStep
      obtain ⟨hEntry, hId⟩ := h.resolved setting hCurrent hDefinition
      split at hStep
      · cases hStep
      next hGuard =>
        obtain rfl := Option.some.inj hStep
        refine ⟨h.keyed, h.copy, h.same, ?_⟩
        rintro call ⟨⟩
        exact ⟨hCurrent, hId, hEntry, by simp_all⟩
  | budgetSwitched id =>
    obtain ⟨call, hCall, hStep⟩ := Option.bind_eq_some_iff.mp hStep
    obtain ⟨entry, hFound, rfl⟩ := Option.map_eq_some_iff.mp hStep
    obtain ⟨hEntry, hId⟩ := h.chosen setting hFound
    constructor
    · exact h.keyed
    · rintro m ⟨⟩
      exact hEntry
    · rintro m ⟨⟩ current ⟨⟩
      exact hId
    · intro next hNext
      dsimp only at hNext
      split at hNext
      · cases hNext
      · cases hNext
        exact ⟨rfl, hId, hEntry, hSteady entry hFound⟩
  | ended =>
    obtain rfl := Option.some.inj hStep
    exact ⟨h.keyed, h.copy, h.same, fun _ hNone => nomatch hNone⟩

structure NoModel (s : BindingState) : Prop where
  keyed : ∀ id entry, s.registry id = some entry → entry.id = id
  currentModel : s.currentModel = none
  providerModel : s.providerModel = none
  checkpoints : s.checkpoints = []
  saved : s.saved = []
  call : s.call = none

theorem NoModel.bound {s : BindingState} (h : NoModel s) : Bound setting s :=
  .withoutCall setting h.keyed (fun _ hm => nomatch h.providerModel.symm.trans hm)
    (fun _ hm => nomatch h.providerModel.symm.trans hm) h.call

/-- While the registry, the retries and the rebuilt runs are steady, every call goes to the model
that is recorded, checked and billed. -/
theorem steady_rightModel {s : BindingState}
    (h : Reach (bindingStep setting) (Steady setting) NoModel s) {call : PendingCall}
    (hCall : s.call = some call) : RightModel setting s call :=
  (h.invariant (fun _ hStart => hStart.bound setting)
    (fun _ _ _ hBound hSteady hStep => hBound.step setting hSteady hStep)).rightModel setting hCall

/-! Two models in a live run: a failed call has taken the run from the first to the second, and a
retry comes back to a checkpoint of the first. -/

def liveSetting : CallSetting := ⟨true, none⟩

def firstModel : ModelEntry := ⟨"first", some (.text "vendor/first"), 8000⟩

def secondModel : ModelEntry := ⟨"second", some (.text "vendor/second"), 128000⟩

def emptyRun : BindingState := ⟨fun _ => none, none, 0, none, 32000, [], [], none⟩

theorem emptyRun_noModel : NoModel emptyRun :=
  ⟨fun _ _ h => (nomatch h), rfl, rfl, rfl, rfl, rfl⟩

def firstSelected : List BindingOp :=
  [.registered firstModel, .registered secondModel, .selected "first"]

def switchedRun : List BindingOp := firstSelected ++ [.switched "second", .began 5000]

def retriedRun : List BindingOp :=
  firstSelected ++ [.captured, .switched "second", .restored ⟨some "first", 8000⟩, .began 5000]

/-- After a failover the second model is the one that is called and recorded. -/
theorem steady_rightModel_switchedRun :
    ∃ s call, run (bindingStep liveSetting) emptyRun switchedRun = some s ∧ s.call = some call ∧
      call.modelId = "second" ∧ RightModel liveSetting s call := by
  have hEmpty : Reach (bindingStep liveSetting) (Steady liveSetting) NoModel emptyRun :=
    .start emptyRun_noModel
  have hFree (s : BindingState) (hModel : s.providerModel = none) (hCall : s.call = none)
      (id : String) : ¬ Holds s id := by
    rintro (⟨m, hm, -⟩ | ⟨call, hc, -⟩)
    · exact nomatch hModel.symm.trans hm
    · exact nomatch hCall.symm.trans hc
  have hFirst := hEmpty.next (l := BindingOp.registered firstModel) (Or.inl (hFree _ rfl rfl _)) rfl
  have hSecond :=
    hFirst.next (l := BindingOp.registered secondModel) (Or.inl (hFree _ rfl rfl _)) rfl
  have hSelected := hSecond.next (l := BindingOp.selected "first") (Or.inl rfl) rfl
  have hSwitched := hSelected.next (l := BindingOp.switched "second") trivial rfl
  have hBegan := hSwitched.next (l := BindingOp.began 5000) trivial rfl
  exact ⟨_, _, rfl, rfl, rfl, steady_rightModel liveSetting hBegan rfl⟩

/-- After the retry the second model is called for the first. -/
theorem retried_wrongModel :
    ¬ ∀ (setting : CallSetting) (s : BindingState),
      Reach (bindingStep setting) Anything NoModel s → ∀ call, s.call = some call →
        RightModel setting s call := by
  intro h
  have hRun : (run (bindingStep liveSetting) emptyRun retriedRun).map
      (fun s => (s.currentModel, s.registry "first", s.call)) =
        some (some "first", some firstModel, some ⟨"first", secondModel, 5000⟩) := by
    decide +kernel
  obtain ⟨s, hs, hFinal⟩ := Option.map_eq_some_iff.mp hRun
  obtain ⟨hCurrent, hFirst, hCall⟩ : s.currentModel = some "first" ∧
      s.registry "first" = some firstModel ∧ s.call = some ⟨"first", secondModel, 5000⟩ := by
    simpa using hFinal
  obtain ⟨entry, hEntry, hRegistry, hName, -, -⟩ :=
    h liveSetting s (reach_of_run emptyRun_noModel hs) _ hCall
  have hId : "first" = entry.id := Option.some.inj (hCurrent.symm.trans hEntry)
  have hSame : firstModel = entry := Option.some.inj (hFirst.symm.trans (hId ▸ hRegistry))
  subst hSame
  exact absurd hName (by decide)

end OrchestraAI.Core
