import OrchestraAI.Economics.ModelCallRecord
import OrchestraAI.Library.OrderedMap

/-! # What a provider call charges

The accounting of `_callModel` in `core/orchestrator.js` on `BudgetState` of
`state/runtime-state.js`, and when the spend it adds is the cost of the record.
-/

namespace OrchestraAI.Economics

open RoundedGrid

structure CostEntry where
  category : String
  amount : ℚ
  providerReported : Bool

structure Budget where
  currentSpend : ℚ
  costBreakdown : OrderedMap String ℚ
  costHistory : List CostEntry

def Budget.addCost (b : Budget) (category : String) (amount : ℚ) (providerReported : Bool) :
    Budget :=
  { currentSpend := b.currentSpend + amount
    costBreakdown := b.costBreakdown.set category ((b.costBreakdown.get category).getD 0 + amount)
    costHistory := b.costHistory ++ [⟨category, amount, providerReported⟩] }

@[simp] theorem Budget.addCost_currentSpend (b : Budget) (category : String) (amount : ℚ)
    (providerReported : Bool) :
    (b.addCost category amount providerReported).currentSpend = b.currentSpend + amount := rfl

/-- What one call is accounted with: the registry's entry for the model, the tokens that the
prompt plan forecasts, and the answer. -/
structure ProviderCall where
  pricing : Option Pricing
  promptTokens : ℚ
  response : ModelResponse

namespace ProviderCall

variable (call : ProviderCall)

def observedUsage : ObservedUsage where
  inputTokens := call.response.usage.inputTokens.observed
  outputTokens := call.response.usage.outputTokens.observed
  cachedTokens := call.response.usage.cachedTokens.observed
  reasoningTokens := call.response.usage.reasoningTokens.observed

def hasObservedUsage : Bool :=
  call.observedUsage.inputTokens.isSome && call.observedUsage.outputTokens.isSome

def tokens : TokenCounts where
  input := call.observedUsage.inputTokens.getD call.promptTokens
  output := call.observedUsage.outputTokens.getD 0
  cached := call.observedUsage.cachedTokens.getD 0
  reasoning := call.observedUsage.reasoningTokens.getD 0

def estimate : CostEstimate := estimateModelCost call.pricing call.tokens

def estimateIsPriced : Bool := call.estimate.pricingSource ≠ .default

def record : ModelCallRecord :=
  createModelCallRecord
    { providerCall := true
      cacheType := none
      usage := call.observedUsage
      usageSource := some (orText call.response.usageSource
        (if call.hasObservedUsage then "provider_reported" else "unknown"))
      providerCostUsd := call.response.providerCostUsd
      calculatedCostUsd :=
        if call.hasObservedUsage && call.estimateIsPriced then some call.estimate.total else none
      costSource := some (if call.response.providerCostUsd.isSome then "provider_reported"
        else if !call.hasObservedUsage || !call.estimateIsPriced then "unknown_estimate"
        else "pricing_snapshot") }

def reconcile (b : Budget) : Budget :=
  match call.response.providerCostUsd, call.record.canonicalCostUsd with
  | some _, some canonical =>
    let reconciliation := canonical - call.record.calculatedCostUsd.getD 0
    if 5 / 10000000 < |reconciliation| then
      b.addCost "provider_reconciliation" reconciliation true
    else b
  | _, _ => b

def charge (b : Budget) : Budget :=
  let est := call.estimate
  let b := b.addCost "input_tokens" est.inputCost false
  let b := b.addCost "output_tokens" est.outputCost false
  let b := if est.cachedCost = 0 then b else b.addCost "cached_input_tokens" est.cachedCost false
  let b :=
    match est.reasoningCost with
    | none => b
    | some cost => if cost = 0 then b else b.addCost "reasoning_tokens" cost false
  call.reconcile b

end ProviderCall

def chargeAll (b : Budget) (calls : List ProviderCall) : Budget :=
  calls.foldl (fun b call => call.charge b) b

namespace ProviderCall

variable {call : ProviderCall}

def Metered (call : ProviderCall) : Prop :=
  (∃ n, call.response.usage.inputTokens.observed = some n) ∧
    (∃ n, call.response.usage.outputTokens.observed = some n) ∧
    ∃ p, call.pricing = some p ∧ (p.inputPer1k ≠ none ∨ p.outputPer1k ≠ none)

/-- What the tokens cost at the rates that the estimate uses; counts that are not reported are
the forecast of the prompt and zero. -/
def tokenCost (call : ProviderCall) : ℚ :=
  let t := call.tokens
  let rates := resolveModelPricing call.pricing
  (max 0 (t.input - t.cached) * rates.inputPer1k + t.cached * rates.cachedPer1k +
    (t.output + t.reasoning) * rates.outputPer1k) / 1000

theorem estimate_total : call.estimate.total = call.tokenCost := by
  simp only [estimate, estimateModelCost, tokenCost]
  ring

theorem metered_iff :
    call.Metered ↔ call.hasObservedUsage = true ∧ call.estimateIsPriced = true := by
  unfold Metered hasObservedUsage estimateIsPriced estimate estimateModelCost observedUsage
  simp only [Bool.and_eq_true, Option.isSome_iff_exists, and_assoc, decide_eq_true_eq]
  refine and_congr_right fun _ => and_congr_right fun _ => ?_
  unfold resolveModelPricing
  cases call.pricing with
  | none => simp [defaultPricing]
  | some p =>
    cases hInput : p.inputPer1k <;> cases hOutput : p.outputPer1k <;>
      simp [hInput, hOutput, defaultPricing]

/-- What `reconcile` adds. -/
def adjustment (call : ProviderCall) : ℚ :=
  match call.response.providerCostUsd, call.record.canonicalCostUsd with
  | some _, some canonical =>
    let reconciliation := canonical - call.record.calculatedCostUsd.getD 0
    if 5 / 10000000 < |reconciliation| then reconciliation else 0
  | _, _ => 0

theorem reconcile_currentSpend (b : Budget) :
    (call.reconcile b).currentSpend = b.currentSpend + call.adjustment := by
  unfold reconcile adjustment
  split
  · simp only
    split
    · rfl
    · rw [add_zero]
  · rw [add_zero]

theorem observed_nonneg {f : Field} {n : ℚ} (h : f.observed = some n) : 0 ≤ n := by
  obtain ⟨-, hn⟩ := Option.filter_eq_some_iff.mp h
  exact of_decide_eq_true hn

theorem reasoning_nonneg : 0 ≤ call.tokens.reasoning := by
  simp only [tokens, observedUsage]
  cases h : call.response.usage.reasoningTokens.observed with
  | none => exact le_rfl
  | some n => exact observed_nonneg h

theorem reasoningCost_getD : call.estimate.reasoningCost.getD 0 =
    call.tokens.reasoning / 1000 * (resolveModelPricing call.pricing).outputPer1k := by
  simp only [estimate, estimateModelCost]
  split
  · rfl
  · rename_i hZero
    rw [le_antisymm (not_lt.mp hZero) reasoning_nonneg]
    simp

theorem charge_currentSpend (b : Budget) :
    (call.charge b).currentSpend = b.currentSpend + (call.tokenCost + call.adjustment) := by
  have hTotal : call.estimate.inputCost + call.estimate.cachedCost + call.estimate.outputCost +
      call.estimate.reasoningCost.getD 0 = call.tokenCost := by
    rw [reasoningCost_getD, ← estimate_total]
    rfl
  have hCached (b : Budget) : (if call.estimate.cachedCost = 0 then b
      else b.addCost "cached_input_tokens" call.estimate.cachedCost false).currentSpend =
        b.currentSpend + call.estimate.cachedCost := by
    split
    · rename_i hZero
      rw [hZero, add_zero]
    · rfl
  have hReasoning (b : Budget) : (match call.estimate.reasoningCost with
      | none => b
      | some cost => if cost = 0 then b
        else b.addCost "reasoning_tokens" cost false).currentSpend =
        b.currentSpend + call.estimate.reasoningCost.getD 0 := by
    cases call.estimate.reasoningCost with
    | none => rw [Option.getD_none, add_zero]
    | some cost =>
      simp only [Option.getD_some]
      split
      · rename_i hZero
        rw [hZero, add_zero]
      · rfl
  unfold charge
  simp only
  rw [reconcile_currentSpend, hReasoning, hCached]
  simp only [Budget.addCost_currentSpend]
  rw [← hTotal]
  ring

theorem record_canonical_of_provider {p : ℚ} (h : call.response.providerCostUsd = some p) :
    call.record.canonicalCostUsd = some (round6 p) := by
  have hp : (0 : ℚ) ≤ p := observed_nonneg h
  simp [record, createModelCallRecord, h, nullableNonNegative, hp]

theorem record_calculated : call.record.calculatedCostUsd = (nullableNonNegative
    (if call.hasObservedUsage && call.estimateIsPriced then some call.tokenCost else none)).map
      round6 := by
  rw [← estimate_total]
  rfl

theorem record_calculated_cases :
    (call.Metered ∧ 0 ≤ call.tokenCost ∧
      call.record.calculatedCostUsd = some (round6 call.tokenCost)) ∨
    (¬ (call.Metered ∧ 0 ≤ call.tokenCost) ∧ call.record.calculatedCostUsd = none) := by
  rw [record_calculated, metered_iff, ← Bool.and_eq_true]
  by_cases hMetered : (call.hasObservedUsage && call.estimateIsPriced) = true
  · rw [if_pos hMetered]
    by_cases hSign : 0 ≤ call.tokenCost
    · exact .inl ⟨hMetered, hSign, by simp [nullableNonNegative, hSign]⟩
    · exact .inr ⟨fun h => hSign h.2, by simp [nullableNonNegative, not_le.mp hSign]⟩
  · rw [if_neg hMetered]
    exact .inr ⟨fun h => hMetered h.1, rfl⟩

theorem record_canonical : call.record.canonicalCostUsd =
    call.record.providerCostUsd.or (if call.record.costSource = "unknown" ∨
      call.record.costSource = "unknown_estimate" then none else call.record.calculatedCostUsd) :=
  rfl

theorem record_canonical_of_unreported {canonical : ℚ} (h : call.response.providerCostUsd = none)
    (hCanonical : call.record.canonicalCostUsd = some canonical) :
    canonical = round6 call.tokenCost := by
  have hNoProvider : call.record.providerCostUsd = none := by
    simp only [record, createModelCallRecord, h, nullableNonNegative, Option.filter_none,
      Option.map_none]
  rw [record_canonical, hNoProvider, Option.none_or] at hCanonical
  split at hCanonical
  · cases hCanonical
  obtain ⟨-, -, hSome⟩ | ⟨-, hNone⟩ := call.record_calculated_cases
  · exact Option.some.inj (hCanonical.symm.trans hSome)
  · rw [hNone] at hCanonical
    cases hCanonical

theorem abs_sub_round6 (x : ℚ) : |x - round6 x| ≤ 5 / 10000000 := by
  have h := abs_toGrid_sub (n := 1000000) (by omega) x
  rw [abs_sub_comm] at h
  apply h.trans
  norm_num

theorem round6_eq_of_close {x y : ℚ} (h : |round6 x - round6 y| ≤ 5 / 10000000) :
    round6 x = round6 y := by
  apply toGrid_eq_of_close (n := 1000000) (by omega)
  apply h.trans
  norm_num

def SpendIsCost (call : ProviderCall) (b : Budget) : Prop :=
  ∀ canonical, call.record.canonicalCostUsd = some canonical →
    |(call.charge b).currentSpend - b.currentSpend - canonical| ≤ 1 / 1000000

/-- The provider reports no cost, or the estimate that it replaces is in the record or nothing. -/
def Reconciles (call : ProviderCall) : Prop :=
  call.response.providerCostUsd = none ∨ (call.Metered ∧ 0 ≤ call.tokenCost) ∨
    |call.tokenCost| ≤ 1 / 1000000

theorem spendIsCost_iff (b : Budget) : call.SpendIsCost b ↔ call.Reconciles := by
  unfold SpendIsCost Reconciles
  rw [charge_currentSpend]
  have hChange (canonical : ℚ) : b.currentSpend + (call.tokenCost + call.adjustment) -
      b.currentSpend - canonical = call.tokenCost + call.adjustment - canonical := by ring
  simp only [hChange]
  cases hProvider : call.response.providerCostUsd with
  | none =>
    constructor
    · exact fun _ => .inl rfl
    · intro _ canonical hCanonical
      have hZero : call.adjustment = 0 := by simp only [adjustment, hProvider]
      rw [hZero, add_zero, record_canonical_of_unreported hProvider hCanonical]
      exact (abs_sub_round6 _).trans (by norm_num)
  | some p =>
    have hCanonical := record_canonical_of_provider hProvider
    have hAdjustment : call.adjustment =
        if 5 / 10000000 < |round6 p - call.record.calculatedCostUsd.getD 0| then
          round6 p - call.record.calculatedCostUsd.getD 0 else 0 := by
      simp only [adjustment, hProvider, hCanonical]
    simp only [hCanonical, Option.some.injEq, forall_eq', reduceCtorEq, false_or]
    obtain ⟨hMetered, hSign, hCalculated⟩ | ⟨hNot, hCalculated⟩ := call.record_calculated_cases
    · rw [hAdjustment, hCalculated, Option.getD_some]
      refine iff_of_true ?_ (.inl ⟨hMetered, hSign⟩)
      have hClose := abs_sub_round6 call.tokenCost
      split
      · have hEq : call.tokenCost + (round6 p - round6 call.tokenCost) - round6 p =
            call.tokenCost - round6 call.tokenCost := by ring
        rw [hEq]
        exact hClose.trans (by norm_num)
      · rename_i hSmall
        rw [add_zero, round6_eq_of_close (not_lt.mp hSmall)]
        exact hClose.trans (by norm_num)
    · rw [hAdjustment, hCalculated, Option.getD_none, sub_zero, or_iff_right hNot]
      have hKept : (if 5 / 10000000 < |round6 p| then round6 p else 0) = round6 p := by
        split
        · rfl
        · rename_i hSmall
          have hZero := round6_eq_of_close (x := p) (y := 0)
            (by rw [round6, round6, toGrid_zero, sub_zero]; exact not_lt.mp hSmall)
          rw [hZero, round6, toGrid_zero]
      rw [hKept, add_sub_cancel_right]

end ProviderCall

/-- After any calls, the spend of the next one is the cost of its record exactly when it
reconciles. -/
theorem charge_matches_iff (b : Budget) (before : List ProviderCall) (call : ProviderCall) :
    call.SpendIsCost (chargeAll b before) ↔
      call.response.providerCostUsd = none ∨ (call.Metered ∧ 0 ≤ call.tokenCost) ∨
        |call.tokenCost| ≤ 1 / 1000000 :=
  ProviderCall.spendIsCost_iff _

def unpricedCall : ProviderCall where
  pricing := some ⟨none, none, none⟩
  promptTokens := 0
  response :=
    { usage :=
        { inputTokens := .value (some 1000)
          outputTokens := .value (some 1000)
          cachedTokens := .undefined
          reasoningTokens := .undefined
          costUsd := .value (some (42 / 1000)) }
      costUsd := .undefined
      usageSource := none }

/-- The default-priced estimate is charged on top of what the provider reports. -/
theorem charged_twice :
    ¬ ∀ (b : Budget) (before : List ProviderCall) (call : ProviderCall),
      call.SpendIsCost (chargeAll b before) := by
  intro h
  have hCall := h ⟨0, .empty, []⟩ [] unpricedCall (42 / 1000) (by decide +kernel)
  exact absurd hCall (by decide +kernel)

theorem chargeAll_close (b : Budget) {calls : List ProviderCall}
    (h : ∀ call ∈ calls, call.Reconciles ∧ call.record.canonicalCostUsd ≠ none) :
    |(chargeAll b calls).currentSpend - b.currentSpend -
        (calls.map fun call => call.record.canonicalCostUsd.getD 0).sum| ≤
      calls.length / 1000000 := by
  induction calls generalizing b with
  | nil => simp [chargeAll]
  | cons call calls ih =>
    obtain ⟨hReconciles, hKnown⟩ := h call List.mem_cons_self
    obtain ⟨canonical, hCanonical⟩ := Option.ne_none_iff_exists'.mp hKnown
    have hHead := (ProviderCall.spendIsCost_iff b).mpr hReconciles canonical hCanonical
    have hTail := ih (call.charge b) fun c hc => h c (List.mem_cons_of_mem _ hc)
    have hSplit : (chargeAll b (call :: calls)).currentSpend - b.currentSpend -
        ((call :: calls).map fun call => call.record.canonicalCostUsd.getD 0).sum =
        ((call.charge b).currentSpend - b.currentSpend - canonical) +
          ((chargeAll (call.charge b) calls).currentSpend - (call.charge b).currentSpend -
            (calls.map fun call => call.record.canonicalCostUsd.getD 0).sum) := by
      rw [List.map_cons, List.sum_cons, hCanonical, Option.getD_some]
      have hCons : chargeAll b (call :: calls) = chargeAll (call.charge b) calls := rfl
      rw [hCons]
      ring
    rw [hSplit]
    calc _ ≤ 1 / 1000000 + (calls.length : ℚ) / 1000000 :=
          (abs_add_le _ _).trans (add_le_add hHead hTail)
      _ = ((call :: calls).length : ℚ) / 1000000 := by
          rw [List.length_cons]
          push_cast
          ring

end OrchestraAI.Economics
