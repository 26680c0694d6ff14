import OrchestraAI.Routing.EligibilitySoundness

/-! # The optimal selection -/

namespace OrchestraAI.Routing

open OrchestraAI.Recovery (truthy)
open ComparatorSort FallibleFold

section Stages

variable {state : RoutingState} {list list' pool pool' : List ModelDefinition}

theorem capabilityStage_sublist (pool : List ModelDefinition) :
    (capabilityStage state pool).Sublist pool := by
  rw [capabilityStage]
  split
  · exact List.Sublist.refl pool
  · exact List.filter_sublist

theorem constraintStage_sublist {error : RoutingError} {bound : Option ℚ}
    {ok : ℚ → ModelDefinition → Bool} {kept : List ModelDefinition}
    (h : constraintStage error bound ok pool = .ok kept) : kept.Sublist pool := by
  cases bound with
  | none =>
    cases h
    exact List.Sublist.refl pool
  | some b =>
    rw [constraintStage] at h
    split at h <;> cases h
    exact List.filter_sublist

theorem reliabilityStage_sublist (pool : List ModelDefinition) :
    (reliabilityStage state pool).Sublist pool := by
  rw [reliabilityStage]
  split
  · exact List.Sublist.refl pool
  · dsimp only
    split
    · exact List.Sublist.refl pool
    · exact List.filter_sublist

theorem budgetStage_sublist {kept : List ModelDefinition}
    (h : budgetStage state pool = .ok kept) : kept.Sublist pool := by
  rw [budgetStage] at h
  split at h <;> cases h
  exact List.filter_sublist

theorem runEligibility_sublist (h : runEligibility state list = .ok pool) :
    pool.Sublist list := by
  obtain ⟨byQuality, byLatency, hQuality, hLatency, hBudget⟩ := stages_of_runEligibility h
  have hLate : pool.Sublist byLatency :=
    (budgetStage_sublist hBudget).trans (reliabilityStage_sublist byLatency)
  have hEarly : byQuality.Sublist (pricedPool state list) :=
    (constraintStage_sublist hQuality).trans (capabilityStage_sublist _)
  refine (hLate.trans (constraintStage_sublist hLatency)).trans (hEarly.trans ?_)
  exact pricedPool_sublist state list

theorem runEligibility_affordable (h : runEligibility state list = .ok pool) {m : ModelDefinition}
    (hm : m ∈ pool) : exceedsBudget state m = false := by
  obtain ⟨byQuality, byLatency, -, -, hBudget⟩ := stages_of_runEligibility h
  exact (budgetStage_mem hBudget hm).2

/-- Two outcomes that keep the same models, in whatever order, or fail alike. -/
inductive SamePool : Except RoutingError (List ModelDefinition) →
    Except RoutingError (List ModelDefinition) → Prop
  | kept {pool pool' : List ModelDefinition} (h : pool.Perm pool') : SamePool (.ok pool) (.ok pool')
  | failed (error : RoutingError) : SamePool (.error error) (.error error)

theorem SamePool.bind {x y : Except RoutingError (List ModelDefinition)}
    {f : List ModelDefinition → Except RoutingError (List ModelDefinition)} (h : SamePool x y)
    (hf : ∀ pool pool', pool.Perm pool' → SamePool (f pool) (f pool')) :
    SamePool (x.bind f) (y.bind f) := by
  cases h with
  | kept h => exact hf _ _ h
  | failed error => exact .failed error

theorem capabilityStage_perm (h : pool.Perm pool') :
    (capabilityStage state pool).Perm (capabilityStage state pool') := by
  have hFilter := h.filter fun m => !exceedsWindow state m && hasCapabilities state m
  rw [capabilityStage, capabilityStage]
  rw [hFilter.isEmpty_eq, h.all_eq]
  split
  · exact h
  · exact hFilter

theorem constraintStage_perm (error : RoutingError) (bound : Option ℚ)
    (ok : ℚ → ModelDefinition → Bool) (h : pool.Perm pool') :
    SamePool (constraintStage error bound ok pool) (constraintStage error bound ok pool') := by
  cases bound with
  | none => exact .kept h
  | some b =>
    have hFilter := h.filter (ok b)
    rw [constraintStage, constraintStage]
    rw [hFilter.isEmpty_eq]
    split
    · exact .failed error
    · exact .kept hFilter

theorem reliabilityStage_perm (h : pool.Perm pool') :
    (reliabilityStage state pool).Perm (reliabilityStage state pool') := by
  rw [reliabilityStage, reliabilityStage]
  cases positive state.policy.minReliability with
  | none => exact h
  | some minRel =>
    have hFilter := h.filter fun m =>
      m.reliability.toNumber.any (minRel ≤ ·) || some m.id = state.policy.preferredModel
    dsimp only
    rw [hFilter.isEmpty_eq]
    split
    · exact h
    · exact hFilter

theorem budgetStage_perm (h : pool.Perm pool') :
    SamePool (budgetStage state pool) (budgetStage state pool') := by
  have hFilter := h.filter fun m => !exceedsBudget state m
  rw [budgetStage, budgetStage]
  rw [hFilter.isEmpty_eq, h.isEmpty_eq]
  split
  · exact .failed _
  · exact .kept hFilter

theorem runEligibility_perm (h : list.Perm list') :
    SamePool (runEligibility state list) (runEligibility state list') := by
  have hAvailable := h.filter fun m => available m
  have hPriced := (hAvailable.filter fun m => hasProvider m || !state.policy.requireKnownProvider).filter
    fun m => state.policy.allowUnknownPricing || hasOptimizerPricing state m
  rw [runEligibility, runEligibility]
  dsimp only
  rw [hAvailable.isEmpty_eq, hPriced.isEmpty_eq]
  split
  · exact .failed _
  split
  · exact .failed _
  refine (constraintStage_perm _ _ _ (capabilityStage_perm hPriced)).bind fun _ _ h => ?_
  exact (constraintStage_perm _ _ _ h).bind fun _ _ h => budgetStage_perm (reliabilityStage_perm h)

end Stages

section Winner

variable {router : Router} {profile : TaskProfile} {state : RoutingState}
  {list list' pool pool' : List ModelDefinition}

/-- The identifiers are distinct, and `localeCompare` tells them apart. -/
structure DistinctIds (router : Router) (list : List ModelDefinition) : Prop where
  nodup : (list.map ModelDefinition.id).Nodup
  apart : ∀ a ∈ list, ∀ b ∈ list, router.localeCompare a.id b.id = .eq → a.id = b.id

theorem DistinctIds.sublist (h : DistinctIds router list) (hSub : pool.Sublist list) :
    DistinctIds router pool where
  nodup := h.nodup.sublist (hSub.map _)
  apart a ha b hb := h.apart a (hSub.subset ha) b (hSub.subset hb)

theorem switchCosts_self (router : Router) (state : RoutingState) {cs : List Candidate}
    (hNodup : (cs.map Candidate.modelId).Nodup) {c : Candidate} (hc : c ∈ cs) :
    switchCosts router state cs c.modelId =
      some (switchCostTo router state c.modelId c.provider c.avgLatencyMs) := by
  rw [switchCosts]
  cases hFind : cs.reverse.find? (·.modelId = c.modelId) with
  | none =>
    have hNone := List.find?_eq_none.mp hFind c (List.mem_reverse.mpr hc)
    simp at hNone
  | some d =>
    have hd : d ∈ cs := List.mem_reverse.mp (List.mem_of_find?_eq_some hFind)
    have hId : d.modelId = c.modelId := by simpa using List.find?_some hFind
    rw [List.inj_on_of_nodup_map hNodup hd hc hId]
    rfl

theorem candidates_perm (router : Router) (profile : TaskProfile) (state : RoutingState)
    (h : pool.Perm pool') :
    (evaluateCandidates router profile state pool).candidates.Perm
      (evaluateCandidates router profile state pool').candidates :=
  ((sortBy_perm _ _).trans (h.map _)).trans (sortBy_perm _ _).symm

theorem candidates_ids (router : Router) (profile : TaskProfile) (state : RoutingState)
    (pool : List ModelDefinition) :
    ((evaluateCandidates router profile state pool).candidates.map Candidate.modelId).Perm
      (pool.map ModelDefinition.id) := by
  have hPerm := (sortBy_perm (compareScore router)
    (pool.map (evaluateCandidate router profile state))).map Candidate.modelId
  rwa [List.map_map] at hPerm

theorem scoredCandidates_perm (router : Router) (profile : TaskProfile) (state : RoutingState)
    (hIds : DistinctIds router pool) (h : pool.Perm pool') :
    (scoredCandidates router profile state pool).Perm
      (scoredCandidates router profile state pool') := by
  have hPerm := candidates_perm router profile state h
  have hNodup := (candidates_ids router profile state pool).nodup_iff.mpr hIds.nodup
  have hSame : scoredCandidates router profile state pool =
      attachObjectives (evaluateCandidates router profile state pool).candidates
        (switchCosts router state (evaluateCandidates router profile state pool').candidates)
        state.policy := by
    refine List.map_congr_left fun c hc => ?_
    have hCost := switchCosts_self router state hNodup hc
    have hCost' := switchCosts_self router state
      ((hPerm.map Candidate.modelId).nodup_iff.mp hNodup) (hPerm.mem_iff.mp hc)
    have hEq : computeObjective c (switchCosts router state
          (evaluateCandidates router profile state pool).candidates) state.policy =
        computeObjective c (switchCosts router state
          (evaluateCandidates router profile state pool').candidates) state.policy := by
      simp only [computeObjective, hCost, hCost']
    rw [hEq]
  rw [hSame]
  exact hPerm.map _

theorem scored_ids (router : Router) (profile : TaskProfile) (state : RoutingState)
    (pool : List ModelDefinition) :
    ((scoredCandidates router profile state pool).map fun c => c.modelId).Perm
      (pool.map ModelDefinition.id) := by
  have hMap : (scoredCandidates router profile state pool).map (fun c => c.modelId) =
      (evaluateCandidates router profile state pool).candidates.map Candidate.modelId :=
    List.map_map
  rw [hMap]
  exact candidates_ids router profile state pool

theorem eq_of_modelId (hIds : DistinctIds router pool) {c d : Scored}
    (hc : c ∈ scoredCandidates router profile state pool)
    (hd : d ∈ scoredCandidates router profile state pool) (h : c.modelId = d.modelId) : c = d :=
  List.inj_on_of_nodup_map ((scored_ids router profile state pool).nodup_iff.mpr hIds.nodup) hc hd h

theorem separates (hIds : DistinctIds router pool) :
    Separates (compareObjective router.localeCompare)
      (scoredCandidates router profile state pool) := by
  intro c hc d hd hEq
  obtain ⟨a, ha, haId⟩ := mem_scoredCandidates hc
  obtain ⟨b, hb, hbId⟩ := mem_scoredCandidates hd
  have hId : router.localeCompare c.modelId d.modelId = .eq :=
    (compareLex_eq_eq.mp (compareLex_eq_eq.mp hEq).2).2
  rw [← haId, ← hbId] at hId
  exact eq_of_modelId hIds hc hd (haId.symm.trans ((hIds.apart a ha b hb hId).trans hbId))

theorem transCmp_compareObjective (localeCompare : String → String → Ordering)
    [Std.TransCmp localeCompare] : Std.TransCmp (compareObjective localeCompare) := by
  have hCost : Std.TransCmp (compareOn objectiveKey) := transCmp_on compare objectiveKey
  have hScore : Std.TransCmp fun a b : Scored => compare b.score a.score :=
    transCmp_on (fun a b : ℚ => compare b a) fun c : Scored => c.score
  have hId : Std.TransCmp fun a b : Scored => localeCompare a.modelId b.modelId :=
    transCmp_on localeCompare fun c : Scored => c.modelId
  unfold compareObjective
  infer_instance

theorem winner_perm [Std.TransCmp router.localeCompare] (profile : TaskProfile)
    (state : RoutingState) (hIds : DistinctIds router pool)
    (h : pool.Perm pool') :
    winner router profile state pool = winner router profile state pool' := by
  have hTrans := transCmp_compareObjective router.localeCompare
  have hScored := scoredCandidates_perm router profile state hIds h
  have hSep : Separates (compareObjective router.localeCompare)
      (scoredCandidates router profile state pool) := separates hIds
  have hFilter := hScored.filter fun c => c.excluded.isNone
  rw [winner, winner, selectByObjective, selectByObjective]
  rw [hFilter.isEmpty_eq]
  split
  · exact head?_sortBy_perm hSep hScored
  · refine head?_sortBy_perm (fun a ha b hb => ?_) hFilter
    exact hSep a (List.mem_of_mem_filter ha) b (List.mem_of_mem_filter hb)

theorem route_eq_winner (router : Router) (profile : TaskProfile) (list : List ModelDefinition)
    (hCurrent : state.currentModel = none)
    (hPreferred : truthy state.policy.preferredModel = none) :
    route router profile state list = (runEligibility state list).bind fun pool =>
      (winner router profile state pool).elim (.error .noModels) fun best =>
        .ok ⟨best.modelId, .modelSelection, .optimized, false⟩ := by
  have hNone (pool : List ModelDefinition) : preferredIn state pool = none := by
    rw [preferredIn, hPreferred]
    rfl
  have hNobody : truthy state.currentModel = none := by
    rw [hCurrent]
    rfl
  rw [route]
  split
  · rename_i hNil
    rw [List.isEmpty_iff.mp hNil]
    rfl
  congr 1
  funext pool
  cases hScored : scoredCandidates router profile state pool with
  | nil =>
    rw [winner, hScored]
    rfl
  | cons leader rest =>
    obtain ⟨best, hBest⟩ := exists_winner hScored
    rw [hBest]
    rw [winner, hScored] at hBest
    dsimp only
    rw [hBest, hNone, hNobody]
    rfl

end Winner

section Exclusion

variable {router : Router} {profile : TaskProfile} {state : RoutingState}
  {list pool : List ModelDefinition} {m : ModelDefinition}

def stageCost (state : RoutingState) (m : ModelDefinition) : Option ℚ :=
  estimateProviderCostUsd m (max 0 state.currentTokens) 1000 state.cachedTokens

def scoreCost (state : RoutingState) (m : ModelDefinition) : Option ℚ :=
  estimateCostUsd m state.currentTokens 1000 (min state.currentTokens state.cacheablePrefixTokens)

def scoreExcludes (state : RoutingState) (m : ModelDefinition) : Bool :=
  budgetExcluded (scoreCost state m) state.remainingBudget state.policy

theorem contextFitScore_exceeded (state : RoutingState) (m : ModelDefinition) :
    (contextFitScore m state.currentTokens).2 = exceedsWindow state m := by
  rw [contextFitScore, exceedsWindow]
  split
  · rename_i hWindow
    simp [hWindow]
  rename_i hWindow
  split
  · rename_i hNeed
    have hNeed : state.currentTokens ≤ 0 := (le_max_right _ _).trans hNeed
    simp [not_lt.mpr hNeed]
  rename_i hNeed
  have hPos : 0 < state.currentTokens := by
    by_contra hNot
    exact hNeed (max_le le_rfl (not_lt.mp hNot))
  rw [max_eq_right hPos.le]
  split
  · rename_i hExceeds
    simp [not_not.mp hWindow, hPos, hExceeds]
  · rename_i hFits
    simp [hFits]

theorem evaluateCandidate_excluded :
    (evaluateCandidate router profile state m).excluded =
      if exceedsWindow state m then some .contextWindow
      else if scoreExcludes state m then some .budget else none := by
  cases hWindow : exceedsWindow state m with
  | true => simp [evaluateCandidate, scoreModel, hWindow]
  | false =>
    have hContext := contextFitScore_exceeded state m
    rw [hWindow] at hContext
    cases hBudget : scoreExcludes state m with
    | true =>
      rw [scoreExcludes, scoreCost] at hBudget
      simp [evaluateCandidate, scoreModel, hWindow, intelligenceOverlay, scoreCandidate, hContext,
        hBudget]
    | false =>
      rw [scoreExcludes, scoreCost] at hBudget
      simp [evaluateCandidate, scoreModel, hWindow, intelligenceOverlay, scoreCandidate, hContext,
        hBudget]

theorem stageCost_isSome (state : RoutingState) (m : ModelDefinition) :
    (stageCost state m).isSome = (scoreCost state m).isSome := by
  have hCached : 0 < max 0 (min (max 0 state.currentTokens) state.cachedTokens) ↔
      0 < min state.currentTokens state.cacheablePrefixTokens := by
    simp [RoutingState.cachedTokens]
  rw [stageCost, scoreCost, estimateProviderCostUsd, estimateCostUsd]
  cases rate m.inputPer1k with
  | none => rfl
  | some inputRate =>
    cases rate m.outputPer1k with
    | none => rfl
    | some outputRate =>
      dsimp only
      simp only [hCached]
      split <;> rfl

/-- The remaining budget tells the two costs of a model alike: where both rules are hard, it does not
lie between the costs, and where only the stage's is, it pays for the model. -/
def BudgetClear (state : RoutingState) (m : ModelDefinition) : Prop :=
  ∀ rem ∈ state.remainingBudget, ∀ atStage ∈ stageCost state m, ∀ atScore ∈ scoreCost state m,
    if state.policy.hardBudget = true ∨ rem ≤ 1 / 100 then
      ¬ (atStage ≤ rem ∧ rem < atScore) ∧ ¬ (atScore ≤ rem ∧ rem < atStage)
    else state.policy.budgetEnforcement = some "hard" → atStage ≤ rem

theorem exceedsBudget_iff {rem atStage : ℚ} (hRem : state.remainingBudget = some rem)
    (hStage : stageCost state m = some atStage) :
    exceedsBudget state m = true ↔ rem < atStage ∧ ((state.policy.hardBudget = true ∨
      state.policy.budgetEnforcement = some "hard") ∨ rem ≤ 1 / 100) := by
  rw [stageCost] at hStage
  simp [exceedsBudget, hRem, hStage]

theorem scoreExcludes_iff {rem atScore : ℚ} (hRem : state.remainingBudget = some rem)
    (hScore : scoreCost state m = some atScore) :
    scoreExcludes state m = true ↔
      rem < atScore ∧ (state.policy.hardBudget = true ∨ rem ≤ 1 / 100) := by
  simp [scoreExcludes, budgetExcluded, hRem, hScore]

theorem agree_iff_budgetClear :
    (exceedsBudget state m = false ↔ scoreExcludes state m = false) ↔ BudgetClear state m := by
  have hIsSome := stageCost_isSome state m
  rw [BudgetClear]
  cases hRem : state.remainingBudget with
  | none => simp [exceedsBudget, scoreExcludes, budgetExcluded, hRem]
  | some rem =>
    cases hStage : stageCost state m with
    | none =>
      rw [hStage] at hIsSome
      have hScore : scoreCost state m = none := by simpa using hIsSome.symm
      rw [stageCost] at hStage
      simp [exceedsBudget, scoreExcludes, budgetExcluded, hRem, hStage, hScore]
    | some atStage =>
      rw [hStage] at hIsSome
      obtain ⟨atScore, hScore⟩ := Option.isSome_iff_exists.mp hIsSome.symm
      have hBool : (exceedsBudget state m = false ↔ scoreExcludes state m = false) ↔
          (exceedsBudget state m = true ↔ scoreExcludes state m = true) := by
        cases exceedsBudget state m <;> cases scoreExcludes state m <;> simp
      rw [hBool, exceedsBudget_iff hRem hStage, scoreExcludes_iff hRem hScore, hScore]
      simp only [Option.mem_some, forall_eq']
      by_cases hHard : state.policy.hardBudget = true ∨ rem ≤ 1 / 100
      · have hStageHard : (state.policy.hardBudget = true ∨
            state.policy.budgetEnforcement = some "hard") ∨ rem ≤ 1 / 100 :=
          hHard.imp_left .inl
        rw [if_pos hHard, and_iff_left hStageHard, and_iff_left hHard]
        constructor
        · rintro h
          exact ⟨fun ⟨hPays, hLess⟩ => absurd (h.mpr hLess) (not_lt.mpr hPays),
            fun ⟨hPays, hLess⟩ => absurd (h.mp hLess) (not_lt.mpr hPays)⟩
        · rintro ⟨hScoreOnly, hStageOnly⟩
          constructor
          · intro hLess
            by_contra hPays
            exact hStageOnly ⟨not_lt.mp hPays, hLess⟩
          · intro hLess
            by_contra hPays
            exact hScoreOnly ⟨not_lt.mp hPays, hLess⟩
      · have hSoft : ¬ (rem < atScore ∧ (state.policy.hardBudget = true ∨ rem ≤ 1 / 100)) :=
          fun h => hHard h.2
        rw [if_neg hHard, iff_false_right hSoft]
        constructor
        · intro h hEnforced
          by_contra hLess
          exact h ⟨not_le.mp hLess, .inl (.inr hEnforced)⟩
        · rintro h ⟨hLess, (hSet | hEnforced) | hLow⟩
          · exact hHard (.inl hSet)
          · exact absurd (h hEnforced) (not_le.mpr hLess)
          · exact hHard (.inr hLow)

end Exclusion

section Optimality

variable {router : Router} {profile : TaskProfile} {state : RoutingState}
  {list pool : List ModelDefinition}

/-- The lower objective, then the higher score, then the smaller identifier, or all the same. -/
def NoWorse (router : Router) (best c : Scored) : Prop :=
  objectiveKey best < objectiveKey c ∨ objectiveKey best = objectiveKey c ∧
    (c.score < best.score ∨ c.score = best.score ∧
      router.localeCompare best.modelId c.modelId ≠ .gt)

theorem noWorse_of_isLE {best c : Scored}
    (h : (compareObjective router.localeCompare best c).isLE) : NoWorse router best c := by
  simp only [compareObjective, compareLex, compareOn] at h
  cases hKey : compare (objectiveKey best) (objectiveKey c) with
  | lt => exact .inl (compare_lt_iff_lt.mp hKey)
  | gt => simp [hKey] at h
  | eq =>
    refine .inr ⟨compare_eq_iff_eq.mp hKey, ?_⟩
    cases hScore : compare c.score best.score with
    | lt => exact .inl (compare_lt_iff_lt.mp hScore)
    | gt => simp [hKey, hScore] at h
    | eq =>
      refine .inr ⟨compare_eq_iff_eq.mp hScore, fun hGt => ?_⟩
      simp [hKey, hScore, hGt] at h

/-- The selected candidate is the best of those that are not excluded, whatever the order of the
candidates, and the two budget rules agree on each of them. -/
def Optimal (router : Router) (profile : TaskProfile) (state : RoutingState)
    (list : List ModelDefinition) : Prop :=
  (∀ r, route router profile state list = .ok r → ∃ pool, runEligibility state list = .ok pool ∧
    ∃ best ∈ scoredCandidates router profile state pool, best.modelId = r.selectedModel ∧
      best.excluded = none ∧
      ∀ c ∈ scoredCandidates router profile state pool, c.excluded = none →
        NoWorse router best c) ∧
  (∀ list', list.Perm list' →
    route router profile state list' = route router profile state list) ∧
  ∀ m ∈ list, exceedsBudget state m = false ↔ scoreExcludes state m = false

theorem excluded_of_scored {c : Scored} (h : c ∈ scoredCandidates router profile state pool) :
    ∃ m ∈ pool, c.excluded = if exceedsWindow state m then some .contextWindow
      else if scoreExcludes state m then some .budget else none := by
  obtain ⟨c, hc, rfl⟩ := List.mem_map.mp h
  obtain ⟨m, hm, rfl⟩ := List.mem_map.mp ((mem_sortBy _).mp hc)
  exact ⟨m, hm, evaluateCandidate_excluded⟩

theorem exists_winner_of_mem (router : Router) (profile : TaskProfile) (state : RoutingState)
    {m : ModelDefinition} (hm : m ∈ pool) :
    ∃ best, winner router profile state pool = some best := by
  cases hScored : scoredCandidates router profile state pool with
  | nil =>
    have hLength := (scored_ids router profile state pool).length_eq
    rw [hScored, List.length_map, List.length_map] at hLength
    exact absurd (List.eq_nil_of_length_eq_zero hLength.symm) (List.ne_nil_of_mem hm)
  | cons leader rest => exact exists_winner hScored

theorem route_perm [Std.TransCmp router.localeCompare] (hIds : DistinctIds router list)
    (hCurrent : state.currentModel = none)
    (hPreferred : truthy state.policy.preferredModel = none) {list' : List ModelDefinition}
    (h : list.Perm list') :
    route router profile state list' = route router profile state list := by
  rw [route_eq_winner _ _ _ hCurrent hPreferred, route_eq_winner _ _ _ hCurrent hPreferred]
  have hPools : SamePool (runEligibility state list) (runEligibility state list') :=
    runEligibility_perm h
  generalize runEligibility state list' = outcome at hPools ⊢
  cases hPool : runEligibility state list with
  | error error =>
    rw [hPool] at hPools
    cases hPools
    rfl
  | ok pool =>
    rw [hPool] at hPools
    obtain ⟨hPerm⟩ := hPools
    have hWinner := winner_perm profile state
      (hIds.sublist (runEligibility_sublist hPool)) hPerm
    dsimp only [Except.bind]
    rw [hWinner]

/-- Routing without an incumbent and a preferred model is optimal exactly where the survivors fit
their context windows and the budget is clear. -/
theorem optimal_iff [Std.TransCmp router.localeCompare] (hIds : DistinctIds router list)
    (hCurrent : state.currentModel = none)
    (hPreferred : truthy state.policy.preferredModel = none) :
    Optimal router profile state list ↔
      (∀ m ∈ list, BudgetClear state m) ∧
        ∀ pool, runEligibility state list = .ok pool → ∀ m ∈ pool, exceedsWindow state m = false := by
  have hRoute := route_eq_winner router profile list hCurrent hPreferred
  constructor
  · rintro ⟨hBest, -, hAgree⟩
    refine ⟨fun m hm => agree_iff_budgetClear.mp (hAgree m hm), fun pool hPool m hm => ?_⟩
    obtain ⟨best, hWinner⟩ := exists_winner_of_mem router profile state hm
    rw [hPool] at hRoute
    dsimp only [Except.bind] at hRoute
    rw [hWinner] at hRoute
    obtain ⟨pool', hPool', c, hc, -, hIncluded, -⟩ := hBest _ hRoute
    obtain rfl : pool = pool' := Except.ok.inj (hPool.symm.trans hPool')
    obtain ⟨m', hm', hExcluded⟩ := excluded_of_scored hc
    have hFits : exceedsWindow state m' = false := by
      rw [hIncluded] at hExcluded
      by_contra hExceeds
      rw [if_pos (by simpa using hExceeds)] at hExcluded
      cases hExcluded
    obtain ⟨-, -, ⟨hFit, -⟩ | hAll⟩ := survivor hPool hm
    · exact hFit
    · rw [hAll m' hm'] at hFits
      cases hFits
  · rintro ⟨hClear, hFit⟩
    have hAgree (m : ModelDefinition) (hm : m ∈ list) := agree_iff_budgetClear.mpr (hClear m hm)
    refine ⟨fun r hOk => ?_, fun list' hPerm => route_perm hIds hCurrent hPreferred hPerm, hAgree⟩
    rw [hRoute] at hOk
    obtain ⟨pool, hPool, hOk⟩ := bind_eq_ok hOk
    refine ⟨pool, hPool, ?_⟩
    -- no candidate is excluded
    have hIncluded {c : Scored} (hc : c ∈ scoredCandidates router profile state pool) :
        c.excluded = none := by
      obtain ⟨m, hm, hExcluded⟩ := excluded_of_scored hc
      have hSub := (runEligibility_sublist hPool).subset hm
      have hPaid := (hAgree m hSub).mp (runEligibility_affordable hPool hm)
      rw [hExcluded, hFit pool hPool m hm, hPaid]
      rfl
    cases hWinner : winner router profile state pool with
    | none =>
      rw [hWinner] at hOk
      cases hOk
    | some best =>
      rw [hWinner] at hOk
      cases hOk
      have hMem := mem_of_selectByObjective hWinner
      refine ⟨best, hMem, rfl, hIncluded hMem, fun c hc hOpen => noWorse_of_isLE ?_⟩
      have hTrans := transCmp_compareObjective router.localeCompare
      have hLeast := least_of_head? hWinner
      split at hLeast
      · exact hLeast.2 c hc
      · exact hLeast.2 c (List.mem_filter.mpr ⟨hc, by rw [hOpen]; rfl⟩)

end Optimality

def freshRun (remaining : ℚ) : RoutingState where
  currentTokens := 0
  maximumTokens := 100000
  cacheablePrefixTokens := 0
  remainingBudget := some remaining
  currentModel := none
  currentProvider := none
  modelLatency := 0
  currentOutputPer1k := 0
  switchCount := 0
  timeSinceLastSwitch := 1000000
  policy := { flooredPolicy with qualityFloor := .undefined }

def pricedModel (id : String) (outputPer1k : ℚ) : ModelDefinition :=
  { ratedModel id (9 / 10) with outputPer1k := .value (some outputPer1k) }

theorem optimal_freshRun :
    Optimal defaultRouter ⟨false, 1 / 2⟩ (freshRun 1)
      [pricedModel "a" (1 / 1000), pricedModel "b" (1 / 500)] := by
  have hTrans : Std.TransCmp defaultRouter.localeCompare :=
    inferInstanceAs (Std.TransCmp (compare : String → String → Ordering))
  have hIds : DistinctIds defaultRouter [pricedModel "a" (1 / 1000), pricedModel "b" (1 / 500)] :=
    ⟨by decide, fun _ _ _ _ h => Std.LawfulEqOrd.eq_of_compare h⟩
  refine (optimal_iff hIds rfl rfl).mpr ⟨fun m _ => ?_, fun pool hPool m hm => ?_⟩
  · rintro rem hRem _ - _ -
    obtain rfl : 1 = rem := Option.mem_some.mp hRem
    rw [if_neg (by decide +kernel)]
    exact fun hEnforced => absurd hEnforced (by decide)
  · have hMem := (runEligibility_sublist hPool).subset hm
    obtain rfl | rfl : m = pricedModel "a" (1 / 1000) ∨ m = pricedModel "b" (1 / 500) := by
      simpa using hMem
    · decide +kernel
    · decide +kernel

/-- What is left pays for the model to six places, but not to four. -/
theorem remaining_between_costs :
    ¬ Optimal defaultRouter ⟨false, 1 / 2⟩ (freshRun (17 / 100000))
      [pricedModel "a" (16 / 100000)] := by
  rintro ⟨-, -, hAgree⟩
  have hScore := (hAgree _ List.mem_cons_self).mp (by decide +kernel)
  exact absurd hScore (by decide +kernel)

end OrchestraAI.Routing
