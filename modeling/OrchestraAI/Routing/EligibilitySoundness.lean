import OrchestraAI.Library.GroupedFold
import OrchestraAI.Routing.ModelRouter

/-! # Whom the router selects -/

namespace OrchestraAI.Routing

open OrchestraAI.Recovery (truthy)
open ComparatorSort FallibleFold

section Survivors

variable {state : RoutingState} {list pool : List ModelDefinition} {m : ModelDefinition}

structure Eligible (state : RoutingState) (m : ModelDefinition) : Prop where
  available : available m
  priced : state.policy.allowUnknownPricing ∨ hasOptimizerPricing state m
  capable : hasCapabilities state m
  quality : ∀ floor ∈ positive state.policy.qualityFloor, m.quality.toNumber.any (floor ≤ ·)
  latency : ∀ target ∈ positive state.policy.latencyTargetMs,
    m.avgLatencyMs.toNumber.any (· ≤ target)
  affordable : exceedsBudget state m = false

theorem capabilityStage_mem (h : m ∈ capabilityStage state pool) :
    m ∈ pool ∧ (exceedsWindow state m = false ∧ hasCapabilities state m = true ∨
      ∀ m ∈ pool, exceedsWindow state m) := by
  rw [capabilityStage] at h
  split at h
  · rename_i hAll
    exact ⟨h, .inr (List.all_eq_true.mp (Bool.and_eq_true_iff.mp hAll).2)⟩
  · obtain ⟨hMem, hBoth⟩ := List.mem_filter.mp h
    obtain ⟨hFits, hCapable⟩ := Bool.and_eq_true_iff.mp hBoth
    exact ⟨hMem, .inl ⟨by simpa using hFits, hCapable⟩⟩

theorem constraintStage_mem {error : RoutingError} {bound : Option ℚ}
    {ok : ℚ → ModelDefinition → Bool} {kept : List ModelDefinition}
    (h : constraintStage error bound ok pool = .ok kept) (hm : m ∈ kept) :
    m ∈ pool ∧ ∀ b ∈ bound, ok b m := by
  cases bound with
  | none =>
    cases h
    exact ⟨hm, fun _ hb => nomatch hb⟩
  | some b =>
    rw [constraintStage] at h
    split at h
    · cases h
    · cases h
      obtain ⟨hMem, hOk⟩ := List.mem_filter.mp hm
      exact ⟨hMem, fun _ hb => Option.mem_some.mp hb ▸ hOk⟩

theorem reliabilityStage_mem (h : m ∈ reliabilityStage state pool) : m ∈ pool := by
  rw [reliabilityStage] at h
  split at h
  · exact h
  · dsimp only at h
    split at h
    · exact h
    · exact List.mem_of_mem_filter h

theorem budgetStage_mem {kept : List ModelDefinition} (h : budgetStage state pool = .ok kept)
    (hm : m ∈ kept) : m ∈ pool ∧ exceedsBudget state m = false := by
  rw [budgetStage] at h
  split at h
  · cases h
  · cases h
    obtain ⟨hMem, hBudget⟩ := List.mem_filter.mp hm
    exact ⟨hMem, by simpa using hBudget⟩

/-- The available models with a provider and a price, as far as the policy asks for these. -/
def pricedPool (state : RoutingState) (list : List ModelDefinition) : List ModelDefinition :=
  ((list.filter fun m => available m).filter fun m =>
    hasProvider m || !state.policy.requireKnownProvider).filter fun m =>
      state.policy.allowUnknownPricing || hasOptimizerPricing state m

theorem pricedPool_sublist (state : RoutingState) (list : List ModelDefinition) :
    (pricedPool state list).Sublist list :=
  List.filter_sublist.trans (List.filter_sublist.trans List.filter_sublist)

theorem pricedPool_mem (h : m ∈ pricedPool state list) :
    available m ∧ (state.policy.allowUnknownPricing ∨ hasOptimizerPricing state m) := by
  obtain ⟨hMapped, hPriced⟩ := List.mem_filter.mp h
  obtain ⟨-, hAvailable⟩ := List.mem_filter.mp (List.mem_of_mem_filter hMapped)
  exact ⟨of_decide_eq_true hAvailable, Bool.or_eq_true_iff.mp hPriced⟩

theorem stages_of_runEligibility (h : runEligibility state list = .ok pool) :
    ∃ byQuality byLatency,
      qualityStage state (capabilityStage state (pricedPool state list)) = .ok byQuality ∧
      latencyStage state byQuality = .ok byLatency ∧
      budgetStage state (reliabilityStage state byLatency) = .ok pool := by
  rw [runEligibility] at h
  dsimp only at h
  split at h
  · cases h
  split at h
  · cases h
  obtain ⟨byQuality, hQuality, h⟩ := bind_eq_ok h
  obtain ⟨byLatency, hLatency, hBudget⟩ := bind_eq_ok h
  exact ⟨byQuality, byLatency, hQuality, hLatency, hBudget⟩

/-- What survives is eligible, unless the capability stage has given up on the context windows;
then nothing is known of the capabilities. -/
theorem survivor (h : runEligibility state list = .ok pool) (hm : m ∈ pool) :
    m ∈ list ∧ (hasCapabilities state m → Eligible state m) ∧
      (exceedsWindow state m = false ∧ hasCapabilities state m = true ∨
        ∀ m ∈ pool, exceedsWindow state m) := by
  obtain ⟨byQuality, byLatency, hQuality, hLatency, hBudget⟩ := stages_of_runEligibility h
  -- a survivor is followed back through the stages
  have hBack {m : ModelDefinition} (hm : m ∈ pool) := by
    have hPaid := budgetStage_mem hBudget hm
    have hFast := constraintStage_mem hLatency (reliabilityStage_mem hPaid.1)
    have hGood := constraintStage_mem hQuality hFast.1
    exact And.intro (capabilityStage_mem hGood.1) (And.intro hGood.2 (And.intro hFast.2 hPaid.2))
  obtain ⟨⟨hMem, hCapable⟩, hQuality, hLatency, hPaid⟩ := hBack hm
  obtain ⟨hAvailable, hPriced⟩ := pricedPool_mem hMem
  refine ⟨(pricedPool_sublist state list).subset hMem, fun hCapable => ?_, ?_⟩
  · exact
      { available := hAvailable
        priced := hPriced
        capable := hCapable
        quality := hQuality
        latency := hLatency
        affordable := hPaid }
  · obtain hFits | hAll := hCapable
    · exact .inl hFits
    · exact .inr fun m hm => hAll m (hBack hm).1.1

end Survivors

section Selection

variable {router : Router} {profile : TaskProfile} {state : RoutingState}
  {list pool : List ModelDefinition}

theorem mem_scoredCandidates {c : Scored} (h : c ∈ scoredCandidates router profile state pool) :
    ∃ m ∈ pool, m.id = c.modelId := by
  obtain ⟨c, hc, rfl⟩ := List.mem_map.mp h
  obtain ⟨m, hm, rfl⟩ := List.mem_map.mp ((mem_sortBy _).mp hc)
  exact ⟨m, hm, rfl⟩

theorem mem_of_selectByObjective {localeCompare : String → String → Ordering} {cs : List Scored}
    {c : Scored} (h : selectByObjective localeCompare cs = some c) : c ∈ cs := by
  have hMem := (mem_sortBy _).mp (List.mem_of_mem_head? h)
  split at hMem
  · exact hMem
  · exact List.mem_of_mem_filter hMem

def winner (router : Router) (profile : TaskProfile) (state : RoutingState)
    (pool : List ModelDefinition) : Option Scored :=
  selectByObjective router.localeCompare (scoredCandidates router profile state pool)

theorem winner_mem {best : Scored} (h : winner router profile state pool = some best) :
    ∃ m ∈ pool, m.id = best.modelId :=
  mem_scoredCandidates (mem_of_selectByObjective h)

theorem exists_winner {leader : Scored} {rest : List Scored}
    (h : scoredCandidates router profile state pool = leader :: rest) :
    ∃ best, winner router profile state pool = some best := by
  rw [winner, selectByObjective, h]
  refine exists_head? _ ?_
  split
  · exact List.cons_ne_nil leader rest
  · rename_i hSome
    exact fun hNil => hSome (by rw [hNil]; rfl)

theorem preferredIn_mem {preferred : ModelDefinition}
    (h : preferredIn state pool = some preferred) : preferred ∈ pool := by
  obtain ⟨id, -, hFind⟩ := Option.bind_eq_some_iff.mp h
  exact List.mem_of_find?_eq_some hFind

/-- A healthy incumbent is kept although another candidate has the lowest objective. -/
def Keeps (router : Router) (profile : TaskProfile) (state : RoutingState)
    (list pool : List ModelDefinition) (best : Scored) (current : String) : Prop :=
  truthy state.currentModel = some current ∧ preferredIn state pool = none ∧
    best.modelId ≠ current ∧ unhealthy (incumbentDef list pool current) = false ∧
    (state.policy.allowSwitching = some false ∨
      maySwitch router state best (evaluateCandidates router profile state pool).currentScore =
        false)

/-- The preferred survivor, else the incumbent that is kept, else the candidate of the lowest
objective. -/
def Settles (router : Router) (profile : TaskProfile) (state : RoutingState)
    (list pool : List ModelDefinition) (best : Scored) (id : String) : Prop :=
  (∃ preferred, preferredIn state pool = some preferred ∧ preferred.id = id) ∨
    Keeps router profile state list pool best id ∨
    (preferredIn state pool = none ∧ best.modelId = id ∧
      ∀ current, ¬ Keeps router profile state list pool best current)

/-- Every exit of `route`. -/
theorem settles_of_route {r : RoutingResult} (h : route router profile state list = .ok r) :
    ∃ pool best, runEligibility state list = .ok pool ∧
      winner router profile state pool = some best ∧
      Settles router profile state list pool best r.selectedModel := by
  rw [route] at h
  split at h
  · cases h
  obtain ⟨pool, hPool, h⟩ := bind_eq_ok h
  refine ⟨pool, ?_⟩
  split at h
  · cases h
  rename_i leader rest hScored
  obtain ⟨best, hBest⟩ := exists_winner hScored
  refine ⟨best, hPool, hBest, ?_⟩
  rw [winner, hScored] at hBest
  rw [hBest, Option.getD_some] at h
  dsimp only at h
  split at h
  · rename_i preferred hPreferred _
    cases h
    exact .inl ⟨preferred, hPreferred, rfl⟩
  · rename_i hPreferred hCurrent
    cases h
    refine .inr (.inr ⟨hPreferred, rfl, fun current hKeeps => ?_⟩)
    rw [hKeeps.1] at hCurrent
    cases hCurrent
  · rename_i preferred current hPreferred hCurrent
    split at h <;> cases h <;> exact .inl ⟨preferred, hPreferred, rfl⟩
  · rename_i current hPreferred hCurrent
    have hSame {current' : String}
        (hKeeps : Keeps router profile state list pool best current') : current' = current := by
      rw [hKeeps.1] at hCurrent
      exact Option.some.inj hCurrent
    split at h
    · rename_i hWins
      have hNever (current' : String) : ¬ Keeps router profile state list pool best current' :=
        fun hKeeps => hKeeps.2.2.1 (hWins.trans (hSame hKeeps).symm)
      split at h <;> cases h <;> exact .inr (.inr ⟨hPreferred, hWins, hNever⟩)
    rename_i hLoses
    split at h
    · rename_i hSick
      cases h
      refine .inr (.inr ⟨hPreferred, rfl, fun current' hKeeps => ?_⟩)
      rw [← hSame hKeeps, hKeeps.2.2.2.1] at hSick
      cases hSick
    rename_i hHealthy
    have hHealthy := Bool.eq_false_iff.mpr hHealthy
    split at h
    · rename_i hPinned
      cases h
      exact .inr (.inl ⟨hCurrent, hPreferred, hLoses, hHealthy, .inl hPinned⟩)
    rename_i hFree
    split at h
    · rename_i hMay
      cases h
      refine .inr (.inr ⟨hPreferred, rfl, fun current' hKeeps => ?_⟩)
      obtain hPinned | hMayNot := hKeeps.2.2.2.2
      · exact hFree hPinned
      · rw [hMayNot] at hMay
        cases hMay
    · rename_i hMayNot
      cases h
      exact .inr (.inl ⟨hCurrent, hPreferred, hLoses, hHealthy, .inr (Bool.eq_false_iff.mpr hMayNot)⟩)

theorem route_of_winner {best : Scored} (hPool : runEligibility state list = .ok pool)
    (hBest : winner router profile state pool = some best) :
    ∃ r, route router profile state list = .ok r := by
  have hSome : list.isEmpty = false := by
    cases list with
    | nil => cases hPool
    | cons m list => rfl
  rw [route, if_neg (Bool.eq_false_iff.mp hSome), hPool]
  dsimp only [Except.bind]
  split
  · rename_i hNil
    have hMem := mem_of_selectByObjective hBest
    rw [hNil] at hMem
    cases hMem
  split
  · exact ⟨_, rfl⟩
  · exact ⟨_, rfl⟩
  · split <;> exact ⟨_, rfl⟩
  · split
    · split <;> exact ⟨_, rfl⟩
    split
    · exact ⟨_, rfl⟩
    split
    · exact ⟨_, rfl⟩
    split <;> exact ⟨_, rfl⟩

theorem Settles.unique {best : Scored} {id id' : String}
    (h : Settles router profile state list pool best id)
    (h' : Settles router profile state list pool best id') : id = id' := by
  obtain ⟨p, hp, rfl⟩ | hKeeps | ⟨hNone, rfl, hNever⟩ := h
  · obtain ⟨p', hp', rfl⟩ | hKeeps' | ⟨hNone', -, -⟩ := h'
    · rw [hp] at hp'
      rw [Option.some.inj hp']
    · rw [hKeeps'.2.1] at hp
      cases hp
    · rw [hp] at hNone'
      cases hNone'
  · obtain ⟨p', hp', rfl⟩ | hKeeps' | ⟨-, -, hNever'⟩ := h'
    · rw [hKeeps.2.1] at hp'
      cases hp'
    · exact Option.some.inj (hKeeps.1.symm.trans hKeeps'.1)
    · exact absurd hKeeps (hNever' id)
  · obtain ⟨p', hp', rfl⟩ | hKeeps' | ⟨-, rfl, -⟩ := h'
    · rw [hNone] at hp'
      cases hp'
    · exact absurd hKeeps' (hNever id')
    · rfl

/-- What is selected has survived and is eligible, and without an eligible candidate nothing is. -/
def Sound (router : Router) (profile : TaskProfile) (state : RoutingState)
    (list : List ModelDefinition) : Prop :=
  (∀ r, route router profile state list = .ok r →
    ∃ pool, runEligibility state list = .ok pool ∧
      ∃ m ∈ pool, m ∈ list ∧ m.id = r.selectedModel ∧ Eligible state m) ∧
  ((∀ m ∈ list, ¬ Eligible state m) → ∃ error, route router profile state list = .error error)

/-- An incumbent that is kept has survived; and if no context window is large enough, the survivor
that is settled on has the capabilities. -/
def Faithful (router : Router) (profile : TaskProfile) (state : RoutingState)
    (list : List ModelDefinition) : Prop :=
  ∀ pool best, runEligibility state list = .ok pool →
    winner router profile state pool = some best →
    (∀ current, Keeps router profile state list pool best current → ∃ m ∈ pool, m.id = current) ∧
    ((∀ m ∈ pool, exceedsWindow state m) →
      ∀ id, Settles router profile state list pool best id →
        ∃ m ∈ pool, m.id = id ∧ hasCapabilities state m)

theorem Settles.survives {best : Scored} {id : String}
    (h : Settles router profile state list pool best id)
    (hBest : winner router profile state pool = some best)
    (hKept : ∀ current, Keeps router profile state list pool best current → ∃ m ∈ pool, m.id = current) :
    ∃ m ∈ pool, m.id = id := by
  obtain ⟨p, hp, hId⟩ | hKeeps | ⟨-, rfl, -⟩ := h
  · exact ⟨p, preferredIn_mem hp, hId⟩
  · exact hKept id hKeeps
  · exact winner_mem hBest

/-- The fallback is harmless if it brings back no survivor without a required capability. -/
theorem faithful_of_capable
    (hKept : ∀ pool best, runEligibility state list = .ok pool →
      winner router profile state pool = some best →
      ∀ current, Keeps router profile state list pool best current → ∃ m ∈ pool, m.id = current)
    (hCapable : ∀ pool, runEligibility state list = .ok pool → (∀ m ∈ pool, exceedsWindow state m) →
      ∀ m ∈ pool, hasCapabilities state m) :
    Faithful router profile state list := by
  intro pool best hPool hBest
  refine ⟨hKept pool best hPool hBest, fun hAll id hSettles => ?_⟩
  obtain ⟨m, hm, hId⟩ := hSettles.survives hBest (hKept pool best hPool hBest)
  exact ⟨m, hm, hId, hCapable pool hPool hAll m hm⟩

theorem eligible_of_faithful (h : Faithful router profile state list) {r : RoutingResult}
    (hRoute : route router profile state list = .ok r) :
    ∃ pool, runEligibility state list = .ok pool ∧
      ∃ m ∈ pool, m ∈ list ∧ m.id = r.selectedModel ∧ Eligible state m := by
  obtain ⟨pool, best, hPool, hBest, hSettles⟩ := settles_of_route hRoute
  obtain ⟨hKept, hFallback⟩ := h pool best hPool hBest
  refine ⟨pool, hPool, ?_⟩
  obtain ⟨m, hm, hId⟩ := hSettles.survives hBest hKept
  obtain ⟨hMem, hEligible, ⟨-, hCapable⟩ | hAll⟩ := survivor hPool hm
  · exact ⟨m, hm, hMem, hId, hEligible hCapable⟩
  · obtain ⟨m', hm', hId', hCapable⟩ := hFallback hAll _ hSettles
    obtain ⟨hMem', hEligible', -⟩ := survivor hPool hm'
    exact ⟨m', hm', hMem', hId', hEligible' hCapable⟩

theorem sound_iff_faithful :
    Sound router profile state list ↔ Faithful router profile state list := by
  constructor
  · rintro ⟨hSelected, -⟩ pool best hPool hBest
    -- whatever is settled on is selected
    have hSettled {id : String} (hSettles : Settles router profile state list pool best id) :
        ∃ m ∈ pool, m.id = id ∧ Eligible state m := by
      obtain ⟨r, hRoute⟩ := route_of_winner hPool hBest
      obtain ⟨pool', best', hPool', hBest', hSettles'⟩ := settles_of_route hRoute
      obtain rfl : pool = pool' := Except.ok.inj (hPool.symm.trans hPool')
      obtain rfl : best = best' := Option.some.inj (hBest.symm.trans hBest')
      obtain ⟨pool', hPool', m, hm, -, hId, hEligible⟩ := hSelected r hRoute
      obtain rfl : pool = pool' := Except.ok.inj (hPool.symm.trans hPool')
      exact ⟨m, hm, hId.trans (hSettles'.unique hSettles), hEligible⟩
    constructor
    · intro current hKeeps
      obtain ⟨m, hm, hId, -⟩ := hSettled (.inr (.inl hKeeps))
      exact ⟨m, hm, hId⟩
    · intro _ id hSettles
      obtain ⟨m, hm, hId, hEligible⟩ := hSettled hSettles
      exact ⟨m, hm, hId, hEligible.capable⟩
  · intro h
    refine ⟨fun r hRoute => eligible_of_faithful h hRoute, fun hNone => ?_⟩
    cases hRoute : route router profile state list with
    | error error => exact ⟨error, rfl⟩
    | ok r =>
      obtain ⟨pool, hPool, m, -, hMem, -, hEligible⟩ := eligible_of_faithful h hRoute
      exact absurd hEligible (hNone m hMem)

end Selection

def ratedModel (id : String) (quality : ℚ) : ModelDefinition where
  id := id
  provider := some "demo"
  status := some "healthy"
  capabilities := []
  contextWindow := .value (some 8000)
  inputPer1k := .value (some (1 / 1000))
  outputPer1k := .value (some (1 / 1000))
  cachedPer1k := .undefined
  quality := .value (some quality)
  reliability := .value (some (9 / 10))
  avgLatencyMs := .value (some 500)

def flooredPolicy : RunPolicy where
  requireKnownProvider := false
  allowUnknownPricing := false
  requiredCapabilities := []
  qualityFloor := .value (some (4 / 5))
  latencyTargetMs := .undefined
  minReliability := .undefined
  preferredModel := none
  hardBudget := false
  budgetEnforcement := none
  allowSwitching := none
  maxRetries := .undefined
  routerWeights := none
  expectedContinuationCostUsd := .undefined
  expectedToolCalls := .undefined
  toolCostPerCall := .undefined
  latencyCostPerMsUsd := .undefined

/-- A run that has switched to the model `old` a second ago. -/
def justSwitched : RoutingState where
  currentTokens := 100
  maximumTokens := 100000
  cacheablePrefixTokens := 0
  remainingBudget := none
  currentModel := some "old"
  currentProvider := some "demo"
  modelLatency := 500
  currentOutputPer1k := 1 / 1000
  switchCount := 1
  timeSinceLastSwitch := 1000
  policy := flooredPolicy

def defaultRouter : Router where
  config := ⟨2 / 5, 1 / 5, 3 / 20, 3 / 20, 1 / 10⟩
  maxRetries := .undefined
  switchingCosts := ⟨1 / 200, 1 / 1000000, 1 / 2000000, 1 / 1000, 1 / 2000, 6 / 5⟩
  stickiness := ⟨60000, 5, 3 / 2⟩
  intelligence := none
  localeCompare := compare

/-- A healthy incumbent below the quality floor is kept during the cooldown. -/
theorem incumbent_below_floor_kept :
    ¬ Sound defaultRouter ⟨false, 1 / 2⟩ justSwitched
      [ratedModel "old" (1 / 2), ratedModel "new" (9 / 10)] := by
  rintro ⟨hSelected, -⟩
  have hRoute : route defaultRouter ⟨false, 1 / 2⟩ justSwitched
      [ratedModel "old" (1 / 2), ratedModel "new" (9 / 10)] =
      .ok ⟨"old", .modelRetention, .stickiness, false⟩ := by decide +kernel
  obtain ⟨-, -, m, -, hMem, hId, hEligible⟩ := hSelected _ hRoute
  have hQuality := hEligible.quality (4 / 5) (by decide +kernel)
  obtain rfl | rfl : m = ratedModel "old" (1 / 2) ∨ m = ratedModel "new" (9 / 10) := by
    simpa using hMem
  · exact absurd hQuality (by decide +kernel)
  · exact absurd hId (by decide)

end OrchestraAI.Routing
