import OrchestraAI.Recovery.Plan

/-! # What recovery does with a dangerous side effect

The class of an effect is fixed when the orchestrator marks it. Over every run,
the class in the cache and in the last effect is the one the classifier gives
for the definition it was computed from. From there the plan is a matter of the
decision table.
-/

namespace OrchestraAI.Recovery

open LabelledSystem RunTools

def ToolRecord.Dangerous (definition : ToolRecord) : Prop :=
  definition.riskLevel = .high ∨ definition.riskLevel = .critical ∨
    (definition.riskLevel = .medium ∧ definition.idempotent = false)

instance (definition : ToolRecord) : Decidable definition.Dangerous := by
  unfold ToolRecord.Dangerous
  infer_instance

def CachedClass.Sound (cached : CachedClass) : Prop :=
  ∀ definition, cached.definition = some definition → cached.cls = definition.classify

def ToolEffect.Sound (effect : ToolEffect) : Prop :=
  ∀ definition, effect.definition = some definition →
    effect.destructive = definition.classify.destructive ∧
      effect.idempotent = definition.classify.idempotent

namespace RunTools

variable {s t : RunTools} {definition : ToolRecord}

/-- Cached classes and the last effect agree with the definitions they come from. -/
structure Classified (s : RunTools) : Prop where
  cache : ∀ name cached, s.toolRiskCache.get name = some cached → cached.Sound
  effect : ∀ effect, s.lastToolEffect = some effect → effect.Sound

theorem classifyTool_sound (s : RunTools) (toolName : String) :
    (s.classifyTool toolName).Sound := by
  intro definition hDef
  unfold classifyTool at hDef ⊢
  split at hDef
  · cases hDef
    rfl
  · cases hDef

theorem found_sound (h : Classified s) (toolName : String) :
    ((s.toolRiskCache.get toolName).getD (s.classifyTool toolName)).Sound := by
  cases hGet : s.toolRiskCache.get toolName with
  | none => exact classifyTool_sound s toolName
  | some cached => exact h.cache toolName cached hGet

theorem Classified.mark (h : Classified s) (toolName : String) (key : Option String)
    (stepNumber now : Nat) : Classified (s.markToolInFlight toolName key stepNumber now) := by
  have hFound := found_sound h toolName
  constructor
  · intro name cached hGet
    simp only [markToolInFlight] at hGet
    split at hGet
    · exact h.cache name cached hGet
    · rw [OrderedMap.get_set] at hGet
      split at hGet
      · cases hGet
        exact hFound
      · split at hGet
        · cases hGet
        · exact h.cache name cached hGet
  · intro effect hEffect
    cases hEffect
    intro definition hDef
    have hClass := hFound definition hDef
    exact ⟨congrArg SideEffectClass.destructive hClass, congrArg SideEffectClass.idempotent hClass⟩

theorem Classified.rewrite (h : Classified s) {f : ToolEffect → ToolEffect}
    (hDefinition : ∀ e, (f e).definition = e.definition)
    (hDestructive : ∀ e, (f e).destructive = e.destructive)
    (hIdempotent : ∀ e, (f e).idempotent = e.idempotent) :
    Classified { s with lastToolEffect := s.lastToolEffect.map f } := by
  refine ⟨h.cache, fun effect hEffect => ?_⟩
  obtain ⟨before, hBefore, rfl⟩ := Option.map_eq_some_iff.mp hEffect
  intro definition hDef
  rw [hDefinition] at hDef
  rw [hDestructive, hIdempotent]
  exact h.effect before hBefore definition hDef

theorem classified_step (s : RunTools) (a : Action) (t : RunTools) (h : Classified s)
    (hs : step s a = some t) : Classified t := by
  cases a with
  | registerTool tool =>
    simp only [step] at hs
    split at hs <;> cases hs <;> exact ⟨h.cache, h.effect⟩
  | unregisterTool name => cases hs; exact ⟨h.cache, h.effect⟩
  | updateTool name updates => cases hs; exact ⟨h.cache, h.effect⟩
  | seedTools seeds => cases hs; exact ⟨h.cache, h.effect⟩
  | seedOne tool => cases hs; exact ⟨h.cache, h.effect⟩
  | markToolInFlight toolName key stepNumber now =>
    cases hs
    exact h.mark toolName key stepNumber now
  | markToolSettled ok code now =>
    cases hs
    exact h.rewrite (fun _ => rfl) (fun _ => rfl) fun _ => rfl
  | supersede =>
    cases hs
    refine h.rewrite ?_ ?_ ?_ <;> intro e <;> unfold ToolEffect.supersede <;> split <;> rfl

theorem classified_reach (h : Reach step Anything Start s) : Classified s := by
  refine h.invariant ?_ fun s a t hI _ hs => classified_step s a t hI hs
  rintro _ rfl
  exact ⟨fun _ _ hGet => (by cases hGet), fun _ hEffect => (by cases hEffect)⟩

end RunTools

/-- The last effect of a run comes from a dangerous definition, its outcome is open and the
durable store has no completed record of it. -/
structure OpenDangerousEffect (s : RunTools) (store : Option IdempotencyStore)
    (definition : ToolRecord) (effect : ToolEffect) : Prop where
  last : s.lastToolEffect = some effect
  source : effect.definition = some definition
  dangerous : definition.Dangerous
  outcomeOpen : effect.state = .inFlight ∨ effect.state = .unknown
  unproved : knownCompleted store effect.idempotencyKey = false

/-- The plan neither repeats nor skips the effect, and the retry that asked for it is refused. -/
def NeverRepeated (s : RunTools) (store : Option IdempotencyStore) (effect : ToolEffect)
    (validation : Validation) (workspaceHash workspaceHashAtCheckpoint : Option String) : Prop :=
  (planRecovery (some validation) effect store workspaceHash workspaceHashAtCheckpoint).action ∉
      [.resume, .retryStep, .skipCompleted] ∧
    ∀ restore, (recover validation none s.lastToolEffect store workspaceHash
      workspaceHashAtCheckpoint restore).refused = true

/-- The classifier takes the definition for destructive or for not repeatable. It reads the
`risk` field and the name, never `riskLevel` or `idempotent`. -/
def ToolRecord.TakenForUnsafe (definition : ToolRecord) : Prop :=
  riskWord definition.risk = "high" ∨ riskWord definition.risk = "critical" ∨
    (riskWord definition.risk ≠ "low" ∧ definition.name ∉ readOnlyTools)

/-- The checkpoint is refused for a reason other than not being there or not completed. -/
def Validation.Unusable : Validation → Prop
  | .refused .missing _ | .refused .incomplete _ | .ok _ => False
  | .refused _ _ => True

theorem takenForUnsafe_iff (definition : ToolRecord) :
    definition.TakenForUnsafe ↔
      definition.classify.destructive = true ∨ definition.classify.idempotent = false := by
  simp only [ToolRecord.TakenForUnsafe, ToolRecord.classify, classifySideEffect,
    Bool.or_eq_true, decide_eq_true_eq, Bool.or_eq_false_iff, decide_eq_false_iff_not]
  tauto

theorem decideRecovery_open {effect : ToolEffect}
    (hOpen : effect.state = .inFlight ∨ effect.state = .unknown)
    (workspaceHash workspaceHashAtCheckpoint : Option String) :
    (decideRecovery effect false workspaceHash workspaceHashAtCheckpoint).decision =
      if effect.destructive = true ∨
          workspaceChanged workspaceHash workspaceHashAtCheckpoint = true ∨
          effect.idempotent = false then .markUnknown else .retry := by
  rcases hOpen with hState | hState
  all_goals
    simp only [decideRecovery, hState, Bool.false_eq_true, if_false]
    cases effect.destructive <;> cases workspaceChanged workspaceHash workspaceHashAtCheckpoint <;>
      cases effect.idempotent <;> rfl

theorem planRecovery_open_blocks {effect : ToolEffect} {store : Option IdempotencyStore}
    (hOpen : effect.state = .inFlight ∨ effect.state = .unknown)
    (hUnproved : knownCompleted store effect.idempotencyKey = false) (validation : Validation)
    (workspaceHash workspaceHashAtCheckpoint : Option String) :
    (planRecovery (some validation) effect store workspaceHash
        workspaceHashAtCheckpoint).action.blocks = true ↔
      effect.destructive = true ∨ effect.idempotent = false ∨
        workspaceChanged workspaceHash workspaceHashAtCheckpoint = true ∨ validation.Unusable := by
  have hDecision (cursor : Option Nat) :
      (toPlan (decideRecovery effect false workspaceHash workspaceHashAtCheckpoint)
          cursor).action.blocks = true ↔
        effect.destructive = true ∨ effect.idempotent = false ∨
          workspaceChanged workspaceHash workspaceHashAtCheckpoint = true := by
    rw [toPlan_blocks, decideRecovery_open hOpen]
    split
    · rename_i hHeld
      refine iff_of_true (.inl rfl) ?_
      tauto
    · rename_i hFree
      refine iff_of_false (by decide) ?_
      tauto
  have hStarted : effect.state ≠ .notStarted := by
    rintro h
    rcases hOpen with hOpen | hOpen <;> rw [h] at hOpen <;> cases hOpen
  cases validation with
  | ok checkpoint =>
    simp only [planRecovery, hUnproved, hDecision, Validation.Unusable, or_false]
  | refused code error =>
    cases code with
    | missing | incomplete =>
      simp only [planRecovery, hUnproved, if_neg hStarted, hDecision, Validation.Unusable, or_false]
    | stale | badShape | runMismatch | badVersion | corrupt =>
      exact iff_of_true rfl (.inr (.inr (.inr trivial)))

/-- Recovery leaves a dangerous effect alone exactly when the classifier takes its definition
for unsafe, the workspace is known to have changed, or the checkpoint is unusable. -/
theorem dangerous_effect_held {s : RunTools} (hReach : Reach RunTools.step Anything RunTools.Start s)
    {store : Option IdempotencyStore} {definition : ToolRecord} {effect : ToolEffect}
    (h : OpenDangerousEffect s store definition effect) (validation : Validation)
    (workspaceHash workspaceHashAtCheckpoint : Option String) :
    NeverRepeated s store effect validation workspaceHash workspaceHashAtCheckpoint ↔
      definition.TakenForUnsafe ∨
        workspaceChanged workspaceHash workspaceHashAtCheckpoint = true ∨ validation.Unusable := by
  obtain ⟨hDestructive, hIdempotent⟩ :=
    (RunTools.classified_reach hReach).effect effect h.last definition h.source
  have hBlocks := planRecovery_open_blocks h.outcomeOpen h.unproved validation workspaceHash
    workspaceHashAtCheckpoint
  rw [takenForUnsafe_iff, ← hDestructive, ← hIdempotent, or_assoc, ← hBlocks]
  constructor
  · intro hNever
    have hRefused := hNever.1
    rw [blocks_iff]
    simpa using hRefused
  · intro hBlocked
    refine ⟨by simpa using (blocks_iff _).mp hBlocked, fun restore => ?_⟩
    rw [h.last]
    exact recover_refused hBlocked restore

def interruptedDeploy (definition : Action) : List Action :=
  [definition, .markToolInFlight "deploy_preview" (some "run-1:deploy_preview:3") 3 100]

/-- A record that carries its risk twice is held back. -/
theorem dangerous_effect_held_seeded :
    ∃ s definition effect,
      run RunTools.step RunTools.create (interruptedDeploy
        (.seedTools [⟨"deploy_preview", some .critical, false, some "CRITICAL"⟩])) = some s ∧
      OpenDangerousEffect s (some fun _ => none) definition effect ∧
      NeverRepeated s (some fun _ => none) effect (.ok ⟨"checkpoint-1", 2⟩) none none := by
  have hRun : ∃ s, run RunTools.step RunTools.create (interruptedDeploy
      (.seedTools [⟨"deploy_preview", some .critical, false, some "CRITICAL"⟩])) = some s ∧
        ∃ effect, OpenDangerousEffect s (some fun _ => none)
          ⟨"deploy_preview", .critical, false, some "CRITICAL"⟩ effect :=
    ⟨_, rfl, _, ⟨rfl, rfl, by decide, .inl rfl, rfl⟩⟩
  obtain ⟨s, hs, effect, hOpen⟩ := hRun
  have hUnsafe : riskWord (some "CRITICAL") = "critical" := by decide
  exact ⟨s, _, effect, hs, hOpen,
    (dangerous_effect_held (reach_of_run rfl hs) hOpen _ none none).mpr (.inl (.inr (.inl hUnsafe)))⟩

/-- The same deployment registered as every caller registers it: `risk` is absent, the
classifier reads 'low' and the interrupted deployment is planned for a retry. -/
theorem critical_tool_retried :
    ¬ ∀ s, Reach RunTools.step Anything RunTools.Start s → ∀ store definition effect,
      OpenDangerousEffect s store definition effect → ∀ validation,
        NeverRepeated s store effect validation none none := by
  intro h
  have hRun : ∃ s, run RunTools.step RunTools.create (interruptedDeploy
      (.registerTool ⟨"deploy_preview", some .critical, false, none⟩)) = some s ∧
        ∃ effect, OpenDangerousEffect s none ⟨"deploy_preview", .critical, false, none⟩ effect ∧
          (planRecovery (some (.ok ⟨"checkpoint-1", 2⟩)) effect none none none).action =
            .retryStep :=
    ⟨_, rfl, _, ⟨rfl, rfl, by decide, .inl rfl, rfl⟩, by decide⟩
  obtain ⟨s, hs, effect, hOpen, hPlan⟩ := hRun
  have hNever := h s (reach_of_run rfl hs) none _ effect hOpen (.ok ⟨"checkpoint-1", 2⟩)
  exact hNever.1 (by rw [hPlan]; decide)

end OrchestraAI.Recovery
