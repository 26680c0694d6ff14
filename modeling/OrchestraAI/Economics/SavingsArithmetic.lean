import OrchestraAI.Economics.Billing
import OrchestraAI.Library.GroupedFold

/-! # The arithmetic of a result

Every amount of a result stands on the grid of micro-dollars, so that sums of amounts are exact and
only the roundings of the steps and of the totals count. No price or count need have a sign for the
fee and the final amounts; the costs of the steps need prices that are not negative.
-/

namespace OrchestraAI.Economics

open RoundedGrid FallibleFold
open OrchestraAI.Recovery (truthy)

section Amounts

def micros : AddSubgroup ℚ := grid 1000000

def micro : ℚ := 1 / 1000000

theorem round6_mem (n : ℚ) : round6 n ∈ micros := toGrid_mem 1000000 n

theorem round6_of_mem {n : ℚ} (h : n ∈ micros) : round6 n = n := toGrid_of_mem (by decide) h

theorem round6_mono {m n : ℚ} (h : m ≤ n) : round6 m ≤ round6 n := toGrid_mono 1000000 h

theorem abs_round6_sub (n : ℚ) : |round6 n - n| ≤ micro / 2 := by
  have h : |round6 n - n| ≤ 1 / (2 * ((1000000 : ℕ) : ℚ)) := abs_toGrid_sub (by decide) n
  rw [micro]
  norm_num at h ⊢
  exact h

theorem round6_nonneg {n : ℚ} (h : 0 ≤ n) : 0 ≤ round6 n := toGrid_nonneg 1000000 h

theorem pos_of_round6_pos {n : ℚ} (h : 0 < round6 n) : 0 < n := by
  by_contra hNeg
  have hRound := round6_mono (not_lt.mp hNeg)
  rw [round6_zero] at hRound
  exact absurd h (not_lt.mpr hRound)

theorem normalizeFeePct_mem (value : Field) :
    0 ≤ normalizeFeePct value ∧ normalizeFeePct value ≤ 1 := by
  unfold normalizeFeePct
  split
  · exact ⟨le_max_left _ _, max_le zero_le_one (min_le_left _ _)⟩
  · rw [defaultPlatformFeePct]
    norm_num

end Amounts

section Totals

variable (registry : ModelRegistry) (pricing : Pricing)

/-- What a step adds to the totals of baseline and actual cost, unless it is skipped. -/
def stepCosts (step : Step) : Option (ℚ × ℚ) :=
  match truthy step.model, truthy step.provider with
  | some model, some _ =>
    match calculateStepBaselineCost step pricing, calculateStepActualCost step model registry with
    | .ok baseline, .ok actual => some (baseline, actual)
    | _, _ => none
  | _, _ => none

def unroundedSavings (steps : List Step) : ℚ :=
  ((steps.filterMap (stepCosts registry pricing)).map fun costs => costs.1 - costs.2).sum

variable {registry pricing} {id : String} {t t' : Totals} {step : Step} {steps : List Step}

/-- The deltas of the steps are the savings so far, up to half a mesh for each step. -/
def Totals.Near (t : Totals) : Prop :=
  |(t.steps.map StepBreakdown.delta).sum - (t.baseline - t.actual)| ≤
    micro / 2 * t.steps.length

theorem addStep_near (ht : t.Near) (h : addStep registry pricing id t step = .ok t') : t'.Near := by
  obtain ⟨-, rfl⟩ | ⟨model, provider, -, baseline, actual, -, -, -, -, -, rfl⟩ :=
    addStep_cases registry h
  · exact ht
  · have hDelta := abs_round6_sub (baseline - actual)
    unfold Totals.Near at ht ⊢
    rw [abs_le] at ht hDelta ⊢
    simp only [List.map_append, List.map_singleton, List.sum_append, List.sum_singleton,
      List.length_append, List.length_singleton, Nat.cast_add, Nat.cast_one]
    constructor <;> linarith

theorem addStep_savings (h : addStep registry pricing id t step = .ok t') :
    t'.baseline - t'.actual = t.baseline - t.actual + unroundedSavings registry pricing [step] := by
  obtain ⟨hSkipped, rfl⟩ | ⟨model, provider, -, baseline, actual, hModel, hProvider, -, hBaseline,
    hActual, rfl⟩ := addStep_cases registry h
  · have hNone : stepCosts registry pricing step = none := by
      unfold stepCosts
      obtain hModel | hProvider := hSkipped
      · rw [hModel]
      · rw [hProvider]
        cases truthy step.model <;> rfl
    simp only [unroundedSavings, List.filterMap_cons, hNone, List.filterMap_nil, List.map_nil,
      List.sum_nil, add_zero]
  · have hSome : stepCosts registry pricing step = some (baseline, actual) := by
      simp only [stepCosts, hModel, hProvider, hBaseline, hActual]
    simp only [unroundedSavings, List.filterMap_cons, hSome, List.filterMap_nil, List.map_cons,
      List.map_nil, List.sum_singleton]
    ring

theorem unroundedSavings_cons (step : Step) (steps : List Step) :
    unroundedSavings registry pricing (step :: steps) =
      unroundedSavings registry pricing [step] + unroundedSavings registry pricing steps := by
  unfold unroundedSavings
  rw [← List.singleton_append, List.filterMap_append, List.map_append, List.sum_append]

theorem totals_savings (h : steps.foldlM (addStep registry pricing id) t = .ok t') :
    t'.baseline - t'.actual = t.baseline - t.actual + unroundedSavings registry pricing steps := by
  induction steps generalizing t with
  | nil =>
    cases h
    exact (add_zero _).symm
  | cons step steps ih =>
    obtain ⟨m, hNext, hRest⟩ := foldlM_cons_ok h
    rw [ih hRest, addStep_savings hNext, unroundedSavings_cons step steps]
    ring

end Totals

section Result

/-- Fee, final amounts and steps of a result agree with each other and with the savings before the
rounding. -/
structure Consistent (unrounded : ℚ) (r : SavingsResult) : Prop where
  fee_nonneg : 0 ≤ r.platformFee
  fee_le : r.platformFee ≤ r.eligibleSavings
  eligible_le : r.eligibleSavings ≤ max 0 (r.savings.getD 0)
  fee_pos : 0 < r.platformFee → 0 < unrounded
  amounts : ∃ baseline final net, r.baselineCost = some baseline ∧
    r.customerFinalCost = some final ∧ r.customerNetSavings = some net ∧
    final + net = baseline ∧ (0 < r.platformFee → -(2 * micro) ≤ net)
  deltas : |(r.steps.map StepBreakdown.delta).sum - r.savings.getD 0| ≤
    micro / 2 * r.steps.length + micro / 2

theorem consistent_of_unknown {status : SavingsStatus} (h : status.Unknown)
    (reference : Reference) (error : String) (unrounded : ℚ) (fee : Field) :
    Consistent unrounded (addBillingFields (withoutAmounts status reference error) fee) := by
  have hFee : (addBillingFields (withoutAmounts status reference error) fee).platformFee = 0 := by
    obtain rfl | rfl := h <;> simp [addBillingFields, withoutAmounts, amount]
  have hEligible :
      (addBillingFields (withoutAmounts status reference error) fee).eligibleSavings = 0 := by
    obtain rfl | rfl := h <;> simp [addBillingFields, withoutAmounts, amount]
  constructor
  · rw [hFee]
  · rw [hFee, hEligible]
  · rw [hEligible]
    exact le_max_left _ _
  · rw [hFee]
    exact fun hPos => absurd hPos (lt_irrefl 0)
  · refine ⟨0, 0, 0, ?_, ?_, ?_, add_zero 0, ?_⟩
    · simp [addBillingFields, withoutAmounts, amount]
    · obtain rfl | rfl := h <;> simp [addBillingFields, withoutAmounts, amount]
    · obtain rfl | rfl := h <;> simp [addBillingFields, withoutAmounts, amount]
    · rw [hFee]
      exact fun hPos => absurd hPos (lt_irrefl 0)
  · have hMicro : 0 ≤ micro / 2 := by norm_num [micro]
    simpa [addBillingFields, withoutAmounts, amount] using hMicro

theorem consistent_totals (reference : ReferenceModel) {t : Totals} (ht : t.Near) (fee : Field) :
    Consistent (t.baseline - t.actual) (addBillingFields (totalsResult reference t) fee) := by
  obtain ⟨hPctNonneg, hPctLe⟩ := normalizeFeePct_mem fee
  let pct := normalizeFeePct fee
  let savings := round6 (t.baseline - t.actual)
  let eligible : ℚ :=
    if determineSavingsStatus t.baseline (t.baseline - t.actual) = .verifiedModeled then
      max 0 savings
    else 0
  have hSavings : savings ∈ micros := round6_mem _
  have hEligibleMem : eligible ∈ micros := by
    change (if _ then max 0 savings else 0) ∈ micros
    split_ifs
    · exact max_mem_grid (zero_mem _) hSavings
    · exact zero_mem _
  have hEligible : 0 ≤ eligible ∧ eligible ≤ max 0 savings := by
    change 0 ≤ (if _ then max 0 savings else 0) ∧ (if _ then max 0 savings else 0) ≤ _
    split_ifs
    · exact ⟨le_max_left _ _, le_refl _⟩
    · exact ⟨le_refl _, le_max_left _ _⟩
  have hFee : round6 (eligible * pct) ≤ eligible := by
    rw [← round6_of_mem hEligibleMem]
    apply round6_mono
    rw [round6_of_mem hEligibleMem]
    exact mul_le_of_le_one_right hEligible.1 hPctLe
  have hPos (h : 0 < round6 (eligible * pct)) : 0 < savings := by
    have hEligiblePos : 0 < eligible := lt_of_lt_of_le h hFee
    obtain hMax | hMax := max_choice 0 savings
    · rw [hMax] at hEligible
      exact absurd hEligiblePos (not_lt.mpr hEligible.2)
    · rw [hMax] at hEligible
      exact lt_of_lt_of_le hEligiblePos hEligible.2
  constructor
  · change 0 ≤ round6 (eligible * pct)
    exact round6_nonneg (mul_nonneg hEligible.1 hPctNonneg)
  · change round6 (eligible * pct) ≤ round6 eligible
    rwa [round6_of_mem hEligibleMem]
  · change round6 eligible ≤ max 0 savings
    rw [round6_of_mem hEligibleMem]
    exact hEligible.2
  · change 0 < round6 (eligible * pct) → _
    exact fun h => pos_of_round6_pos (hPos h)
  · let baseline := round6 t.baseline
    let actual := round6 t.actual
    let platformFee := round6 (eligible * pct)
    refine ⟨baseline, round6 (actual + platformFee), round6 (baseline - actual - platformFee),
      rfl, rfl, rfl, ?_, ?_⟩
    · have hActual : actual ∈ micros := round6_mem _
      have hPlatformFee : platformFee ∈ micros := round6_mem _
      rw [round6_of_mem (add_mem hActual hPlatformFee),
        round6_of_mem (sub_mem (sub_mem (round6_mem _) hActual) hPlatformFee)]
      ring
    · intro h
      -- a fee is charged, so that it is at most the rounded savings
      have hFeeSavings : platformFee ≤ savings := by
        have hMax := hFee.trans hEligible.2
        rwa [max_eq_right (hPos h).le] at hMax
      have hMem : baseline - actual - platformFee ∈ micros :=
        sub_mem (sub_mem (round6_mem _) (round6_mem _)) (round6_mem _)
      rw [round6_of_mem hMem]
      have hBaseline := abs_le.mp (abs_round6_sub t.baseline)
      have hActual := abs_le.mp (abs_round6_sub t.actual)
      have hRounded := abs_le.mp (abs_round6_sub (t.baseline - t.actual))
      have hMicro : 0 < micro := by norm_num [micro]
      linarith [hBaseline.1, hActual.2, hRounded.2]
  · have hRounded := abs_le.mp (abs_round6_sub (t.baseline - t.actual))
    have hNear := abs_le.mp ht
    change |(t.steps.map StepBreakdown.delta).sum - savings| ≤ micro / 2 * t.steps.length + micro / 2
    rw [abs_le]
    constructor <;> linarith [hRounded.1, hRounded.2, hNear.1, hNear.2]

theorem consistent_calculateSavings {registry : ModelRegistry} {reference : ReferenceModel}
    {snapshot : Option Pricing} {pricing : Pricing}
    (hReference : snapshot.or (getPricingForModel registry reference.modelId) = some pricing)
    (steps : List Step) (fee : Field) :
    Consistent (unroundedSavings registry pricing steps)
      (calculateSavings registry (some reference) steps snapshot fee) := by
  unfold calculateSavings
  obtain ⟨reference', error, h⟩ | ⟨_, _, totals, ⟨⟩, hFound, hTotals, h⟩ :=
    calculated_cases registry (some reference) steps snapshot
  · rw [h]
    exact consistent_of_unknown (.inl rfl) reference' error _ fee
  · cases hReference.symm.trans hFound
    rw [h]
    have hNear : totals.Near := foldlM_invariant (P := Totals.Near)
      (fun _ _ _ _ ht hNext => addStep_near ht hNext) (by simp [Totals.Near, Totals.zero]) hTotals
    have hSavings := totals_savings hTotals
    rw [Totals.zero, sub_self, zero_add] at hSavings
    rw [← hSavings]
    exact consistent_totals reference hNear fee

end Result

section Costs

structure Pricing.NonNeg (p : Pricing) : Prop where
  input : ∀ r ∈ p.inputPer1k, 0 ≤ r
  output : ∀ r ∈ p.outputPer1k, 0 ≤ r
  cached : ∀ r ∈ p.cachedPer1k, 0 ≤ r

/-- The same rates are known, and none of the second is lower. -/
structure Pricing.Le (p q : Pricing) : Prop where
  input : Option.Rel (· ≤ ·) p.inputPer1k q.inputPer1k
  output : Option.Rel (· ≤ ·) p.outputPer1k q.outputPer1k
  cached : Option.Rel (· ≤ ·) p.cachedPer1k q.cachedPer1k

def ModelRegistry.NonNeg (registry : ModelRegistry) : Prop :=
  ∀ id model, registry id = some model → model.pricing.NonNeg

def ModelRegistry.Le (registry registry' : ModelRegistry) : Prop :=
  ∀ id, Option.Rel (fun m m' => m.pricing.Le m'.pricing) (registry id) (registry' id)

/-- The same step with counts that are not lower, except for the cached tokens. -/
structure Step.Le (s s' : Step) : Prop where
  input : Option.Rel (· ≤ ·) s.inputTokens s'.inputTokens
  output : Option.Rel (· ≤ ·) s.outputTokens s'.outputTokens
  reasoning : Option.Rel (· ≤ ·) s.reasoningTokens s'.reasoningTokens
  cached : s'.cachedTokens = s.cachedTokens
  rest : s' = { s with
    inputTokens := s'.inputTokens
    outputTokens := s'.outputTokens
    reasoningTokens := s'.reasoningTokens }

structure TokenCounts.NonNeg (t : TokenCounts) : Prop where
  input : 0 ≤ t.input
  output : 0 ≤ t.output
  cached : 0 ≤ t.cached
  reasoning : 0 ≤ t.reasoning

structure TokenCounts.Le (t t' : TokenCounts) : Prop where
  input : t.input ≤ t'.input
  output : t.output ≤ t'.output
  cached : t'.cached = t.cached
  reasoning : t.reasoning ≤ t'.reasoning

variable {p q : Pricing} {t t' : TokenCounts}

theorem getD_nonneg {r : Option ℚ} (h : ∀ n ∈ r, 0 ≤ n) : 0 ≤ r.getD 0 := by
  cases r with
  | none => exact le_refl 0
  | some n => exact h n rfl

theorem getD_mono {r r' : Option ℚ} (h : Option.Rel (· ≤ ·) r r') : r.getD 0 ≤ r'.getD 0 := by
  cases h with
  | some h => exact h
  | none => exact le_refl 0

theorem cachedRate_nonneg (hp : p.NonNeg) : 0 ≤ p.cachedPer1k.getD (p.inputPer1k.getD 0) := by
  cases hCached : p.cachedPer1k with
  | none => exact getD_nonneg hp.input
  | some r => exact hp.cached r hCached

theorem cachedRate_mono (h : p.Le q) :
    p.cachedPer1k.getD (p.inputPer1k.getD 0) ≤ q.cachedPer1k.getD (q.inputPer1k.getD 0) := by
  have hCached := h.cached
  have hInput := getD_mono h.input
  revert hCached
  generalize p.cachedPer1k = r
  generalize q.cachedPer1k = r'
  rintro (h | _)
  · exact h
  · exact hInput

theorem normalizeModelCost_nonneg (ht : t.NonNeg) (hp : p.NonNeg) :
    0 ≤ (normalizeModelCost t p).totalUsd := by
  have hInput := getD_nonneg hp.input
  have hOutput := getD_nonneg hp.output
  have hCached := cachedRate_nonneg hp
  obtain ⟨-, htOutput, htCached, htReasoning⟩ := ht
  apply round6_nonneg
  positivity

theorem normalizeModelCost_mono (ht : t.NonNeg) (hp : p.NonNeg) (hTokens : t.Le t')
    (hPricing : p.Le q) :
    (normalizeModelCost t p).totalUsd ≤ (normalizeModelCost t' q).totalUsd := by
  have hInput := getD_nonneg hp.input
  have hOutput := getD_nonneg hp.output
  have hCached := cachedRate_nonneg hp
  have hInputMono := getD_mono hPricing.input
  have hOutputMono := getD_mono hPricing.output
  have hCachedMono := cachedRate_mono hPricing
  obtain ⟨htInput, htOutput, htCached, htReasoning⟩ := ht
  obtain ⟨hLeInput, hLeOutput, hSame, hLeReasoning⟩ := hTokens
  have hOutputs : 0 ≤ t'.output := htOutput.trans hLeOutput
  have hReasonings : 0 ≤ t'.reasoning := htReasoning.trans hLeReasoning
  apply round6_mono
  rw [hSame]
  gcongr

variable {registry registry' : ModelRegistry} {step step' : Step} {model : String}
  {cost cost' : ℚ}

theorem tokenValue_number {value : Option ℚ} {required : Bool} {n : ℚ}
    (h : tokenValue value required = .number n) : n = value.getD 0 ∧ 0 ≤ n := by
  unfold tokenValue at h
  split at h
  · split_ifs at h
    cases h
    exact ⟨rfl, le_refl 0⟩
  · split_ifs at h with hSign
    cases h
    exact ⟨rfl, hSign⟩

theorem stepTokens_ok (h : stepTokens step = .ok t) : t.NonNeg ∧
    t = ⟨step.inputTokens.getD 0, step.outputTokens.getD 0, step.cachedTokens.getD 0,
      step.reasoningTokens.getD 0⟩ := by
  unfold stepTokens at h
  split at h
  · rename_i input output cached reasoning hInput hOutput hCached hReasoning
    cases h
    obtain ⟨rfl, hInput⟩ := tokenValue_number hInput
    obtain ⟨rfl, hOutput⟩ := tokenValue_number hOutput
    obtain ⟨rfl, hCached⟩ := tokenValue_number hCached
    obtain ⟨rfl, hReasoning⟩ := tokenValue_number hReasoning
    exact ⟨⟨hInput, hOutput, hCached, hReasoning⟩, rfl⟩
  · split_ifs at h

theorem stepTokens_le (hs : step.Le step') (h : stepTokens step = .ok t)
    (h' : stepTokens step' = .ok t') : t.Le t' := by
  obtain ⟨-, rfl⟩ := stepTokens_ok h
  obtain ⟨-, rfl⟩ := stepTokens_ok h'
  constructor
  · exact getD_mono hs.input
  · exact getD_mono hs.output
  · rw [hs.cached]
  · exact getD_mono hs.reasoning

theorem baselineCost_ok (h : calculateStepBaselineCost step p = .ok cost) :
    ∃ t, stepTokens step = .ok t ∧ cost = (normalizeModelCost t p).totalUsd := by
  unfold calculateStepBaselineCost at h
  split at h
  · cases h
  · rename_i t hTokens
    dsimp only at h
    split_ifs at h
    exact ⟨t, hTokens, (Except.ok.inj h).symm⟩

def registryCost (registry : ModelRegistry) (model : String) (t : TokenCounts) : Option ℚ :=
  ((getPricingForModel registry model).filter fun p =>
    p.inputPer1k.isSome && p.outputPer1k.isSome).map fun p => (normalizeModelCost t p).totalUsd

def ownCost (step : Step) : Option ℚ :=
  match knownAmount step.canonicalCostUsd, step.pricingSnapshot with
  | some canonical, some _ => some canonical
  | _, _ => knownAmount step.providerCostUsd

theorem ownCost_of_no_canonical (h : ∀ canonical snapshot,
    knownAmount step.canonicalCostUsd = some canonical → step.pricingSnapshot = some snapshot →
      False) : ownCost step = knownAmount step.providerCostUsd := by
  unfold ownCost
  split
  · rename_i canonical snapshot hCanonical hSnapshot
    exact (h canonical snapshot hCanonical hSnapshot).elim
  · rfl

/-- A step costs what it says itself, else what the registry says, else what the runtime says. -/
theorem calculateStepActualCost_eq (hTokens : stepTokens step = .ok t) :
    calculateStepActualCost step model registry =
      if unknownSource step.costSource then .error ⟨"insufficient_pricing_data", []⟩
      else
        (((ownCost step).or (registryCost registry model t)).or
          (knownAmount step.actualCost)).elim (.error ⟨"insufficient_pricing_data", []⟩) .ok := by
  unfold calculateStepActualCost
  rw [hTokens]
  dsimp only
  split_ifs with hUnknown
  · rfl
  · split
    · rename_i canonical snapshot hCanonical hSnapshot
      rw [ownCost, hCanonical, hSnapshot]
      rfl
    · rename_i hNoCanonical
      rw [ownCost_of_no_canonical hNoCanonical, registryCost]
      cases knownAmount step.providerCostUsd with
      | some reported => rfl
      | none =>
        cases (getPricingForModel registry model).filter fun p =>
            p.inputPer1k.isSome && p.outputPer1k.isSome with
        | some pricing => rfl
        | none => cases knownAmount step.actualCost <;> rfl

theorem actualCost_ok (h : calculateStepActualCost step model registry = .ok cost) :
    ∃ t, stepTokens step = .ok t ∧
      ((ownCost step).or (registryCost registry model t)).or (knownAmount step.actualCost) =
        some cost := by
  cases hTokens : stepTokens step with
  | error e =>
    rw [calculateStepActualCost, hTokens] at h
    cases h
  | ok t =>
    refine ⟨t, rfl, ?_⟩
    rw [calculateStepActualCost_eq hTokens] at h
    split_ifs at h
    revert h
    cases ((ownCost step).or (registryCost registry model t)).or (knownAmount step.actualCost) with
    | none => exact fun h => nomatch h
    | some own => exact fun h => congrArg some (Except.ok.inj h)

theorem knownAmount_nonneg {value : Option ℚ} {n : ℚ} (h : knownAmount value = some n) : 0 ≤ n :=
  of_decide_eq_true (Option.filter_eq_some_iff.mp h).2

theorem ownCost_nonneg (h : ownCost step = some cost) : 0 ≤ cost := by
  unfold ownCost at h
  split at h
  · rename_i hCanonical _
    cases h
    exact knownAmount_nonneg hCanonical
  · exact knownAmount_nonneg h

theorem registryCost_nonneg (ht : t.NonNeg) (hRegistry : registry.NonNeg)
    (h : registryCost registry model t = some cost) : 0 ≤ cost := by
  obtain ⟨p, hPricing, rfl⟩ := Option.map_eq_some_iff.mp h
  obtain ⟨hFound, -⟩ := Option.filter_eq_some_iff.mp hPricing
  obtain ⟨m, hModel, rfl⟩ := Option.map_eq_some_iff.mp hFound
  exact normalizeModelCost_nonneg ht (hRegistry model m hModel)

theorem actualCost_nonneg (hRegistry : registry.NonNeg)
    (h : calculateStepActualCost step model registry = .ok cost) : 0 ≤ cost := by
  obtain ⟨t, hTokens, hCost⟩ := actualCost_ok h
  obtain hFirst | ⟨-, hRuntime⟩ := Option.or_eq_some_iff.mp hCost
  · obtain hOwn | ⟨-, hPriced⟩ := Option.or_eq_some_iff.mp hFirst
    · exact ownCost_nonneg hOwn
    · exact registryCost_nonneg (stepTokens_ok hTokens).1 hRegistry hPriced
  · exact knownAmount_nonneg hRuntime

theorem baselineCost_nonneg (hp : p.NonNeg) (h : calculateStepBaselineCost step p = .ok cost) :
    0 ≤ cost := by
  obtain ⟨t, hTokens, rfl⟩ := baselineCost_ok h
  exact normalizeModelCost_nonneg (stepTokens_ok hTokens).1 hp

theorem baselineCost_mono (hp : p.NonNeg) (hs : step.Le step') (hPricing : p.Le q)
    (h : calculateStepBaselineCost step p = .ok cost)
    (h' : calculateStepBaselineCost step' q = .ok cost') : cost ≤ cost' := by
  obtain ⟨t, hTokens, rfl⟩ := baselineCost_ok h
  obtain ⟨t', hTokens', rfl⟩ := baselineCost_ok h'
  exact normalizeModelCost_mono (stepTokens_ok hTokens).1 hp (stepTokens_le hs hTokens hTokens')
    hPricing

theorem registryCost_mono (ht : t.NonNeg) (hTokens : t.Le t') (hRegistry : registry.NonNeg)
    (hLe : registry.Le registry') :
    Option.Rel (· ≤ ·) (registryCost registry model t) (registryCost registry' model t') := by
  have hSome {r r' : Option ℚ} (h : Option.Rel (· ≤ ·) r r') : r.isSome = r'.isSome := by
    cases h <;> rfl
  unfold registryCost getPricingForModel
  have hModels := hLe model
  cases hModel : registry model with
  | none =>
    rw [hModel] at hModels
    generalize registry' model = found at hModels
    cases hModels
    exact .none
  | some m =>
    rw [hModel] at hModels
    generalize registry' model = found at hModels
    cases hModels with
    | some hPricing =>
      rw [Option.map_some, Option.map_some, Option.filter_some, Option.filter_some,
        ← hSome hPricing.input, ← hSome hPricing.output]
      split
      · exact .some (normalizeModelCost_mono ht (hRegistry model m hModel) hTokens hPricing)
      · exact .none

theorem actualCost_mono (hRegistry : registry.NonNeg) (hs : step.Le step')
    (hLe : registry.Le registry') (h : calculateStepActualCost step model registry = .ok cost)
    (h' : calculateStepActualCost step' model registry' = .ok cost') : cost ≤ cost' := by
  obtain ⟨t, hTokens, hCost⟩ := actualCost_ok h
  obtain ⟨t', hTokens', hCost'⟩ := actualCost_ok h'
  have hRest := hs.rest
  have hOwn : ownCost step' = ownCost step := by rw [hRest]; rfl
  have hRuntime : step'.actualCost = step.actualCost := by rw [hRest]
  have hPriced : Option.Rel (· ≤ ·) (registryCost registry model t)
      (registryCost registry' model t') :=
    registryCost_mono (stepTokens_ok hTokens).1 (stepTokens_le hs hTokens hTokens') hRegistry hLe
  rw [hOwn, hRuntime] at hCost'
  revert hPriced hCost hCost'
  generalize registryCost registry model t = priced
  generalize registryCost registry' model t' = priced'
  cases ownCost step with
  | some own =>
    intro hCost hCost' _
    cases hCost.symm.trans hCost'
    exact le_refl _
  | none =>
    rintro hCost hCost' (hPriced | _)
    · cases hCost
      cases hCost'
      exact hPriced
    · cases hCost.symm.trans hCost'
      exact le_refl _

end Costs

/-- The result of any list of steps is consistent, and the costs of the steps are not negative and
monotone in counts and rates. -/
theorem savings_arithmetic {registry : ModelRegistry} {reference : ReferenceModel}
    {snapshot : Option Pricing} {pricing : Pricing}
    (hReference : snapshot.or (getPricingForModel registry reference.modelId) = some pricing)
    (hRegistry : registry.NonNeg) (hPricing : pricing.NonNeg) (steps : List Step) (fee : Field) :
    Consistent (unroundedSavings registry pricing steps)
      (calculateSavings registry (some reference) steps snapshot fee) ∧
    ∀ step ∈ steps, ∀ model,
      (∀ cost, calculateStepBaselineCost step pricing = .ok cost → 0 ≤ cost ∧
        ∀ step' pricing' cost', step.Le step' → pricing.Le pricing' →
          calculateStepBaselineCost step' pricing' = .ok cost' → cost ≤ cost') ∧
      ∀ cost, calculateStepActualCost step model registry = .ok cost → 0 ≤ cost ∧
        ∀ step' registry' cost', step.Le step' → registry.Le registry' →
          calculateStepActualCost step' model registry' = .ok cost' → cost ≤ cost' := by
  refine ⟨consistent_calculateSavings hReference steps fee, ?_⟩
  intro step _ model
  constructor
  · intro cost hCost
    refine ⟨baselineCost_nonneg hPricing hCost, ?_⟩
    exact fun _ _ _ hs hLe hCost' => baselineCost_mono hPricing hs hLe hCost hCost'
  · intro cost hCost
    refine ⟨actualCost_nonneg hRegistry hCost, ?_⟩
    exact fun _ _ _ hs hLe hCost' => actualCost_mono hRegistry hs hLe hCost hCost'

def pricedStep : Step where
  step := some 1
  provider := some "Provider Z"
  model := some "small"
  inputTokens := some 1000
  outputTokens := some 500
  cachedTokens := none
  reasoningTokens := none
  providerCostUsd := none
  canonicalCostUsd := none
  costSource := ""
  pricingSnapshot := none
  actualCost := none

def largePricing : Pricing := ⟨some (9 / 10000), some (27 / 10000), some (2 / 10000)⟩

def twoModels : ModelRegistry
  | "small" => some ⟨some "Provider Z", ⟨some (3 / 10000), some (9 / 10000), none⟩⟩
  | "large" => some ⟨some "Provider Z", largePricing⟩
  | _ => none

theorem twoModels_nonNeg : twoModels.NonNeg := by
  intro id model h
  unfold twoModels at h
  split at h
  · cases h
    constructor <;> rintro _ ⟨⟩ <;> norm_num
  · cases h
    constructor <;> rintro _ ⟨⟩ <;> norm_num
  · cases h

theorem largePricing_nonNeg : largePricing.NonNeg := by
  constructor <;> rintro _ ⟨⟩ <;> norm_num

theorem savings_arithmetic_pricedStep :
    Consistent (unroundedSavings twoModels largePricing [pricedStep])
        (calculateSavings twoModels (some ⟨"large", some "Provider Z", "explicit"⟩) [pricedStep]
          none (.value (some (1 / 5)))) ∧
      0 < (calculateSavings twoModels (some ⟨"large", some "Provider Z", "explicit"⟩) [pricedStep]
          none (.value (some (1 / 5)))).platformFee :=
  ⟨(savings_arithmetic rfl twoModels_nonNeg largePricing_nonNeg [pricedStep]
    (.value (some (1 / 5)))).1, by decide +kernel⟩

end OrchestraAI.Economics
