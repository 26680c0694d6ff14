import OrchestraAI.Economics.Analytics
import OrchestraAI.Economics.BillingPartition

/-! # What analytics conserve

The breakdowns, the trend and the counts of `buildAnalytics` against its summary, for economics that
come from the engine. The counts of both stand for different partitions, and the steps of the engine
carry no tokens.
-/

namespace OrchestraAI.Economics

open GroupedFold RoundedGrid FallibleFold

section Loop

variable (cal : Calendar) (selected : List (AnalyticsRun × AnalyticsEconomics))

def lineOf (r : AnalyticsRun × AnalyticsEconomics) : AnalyticsRow :=
  ⟨r.1.id, orText r.1.title "Untitled task", r.1.date, r.2⟩

def stepsOf : List AnalyticsStep := selected.flatMap fun r => r.2.steps

theorem accumulate_steps {β : Type} (part : Accumulated → β) (bump : β → AnalyticsStep → β)
    (hStep : ∀ (a : Accumulated) s, bump (part a) s = part (a.addStep s))
    (hRun : ∀ (a : Accumulated) (r : AnalyticsRun × AnalyticsEconomics),
      part (a.addRun cal r.1 r.2) = part (r.2.steps.foldl Accumulated.addStep a)) :
    part (accumulate cal selected) = (stepsOf selected).foldl bump (part .zero) := by
  rw [stepsOf, List.foldl_flatMap, accumulate]
  refine (List.foldl_hom part ?_).symm
  intro a r
  rw [hRun]
  exact List.foldl_hom part hStep

theorem accumulate_modelBreakdown : (accumulate cal selected).modelBreakdown =
    collect AnalyticsStep.modelKey modelRow (stepsOf selected) :=
  accumulate_steps cal selected Accumulated.modelBreakdown _ (fun _ _ => rfl) fun _ _ => rfl

theorem accumulate_providerBreakdown : (accumulate cal selected).providerBreakdown =
    collect AnalyticsStep.providerKey providerRow (stepsOf selected) :=
  accumulate_steps cal selected Accumulated.providerBreakdown _ (fun _ _ => rfl) fun _ _ => rfl

theorem accumulate_rows : (accumulate cal selected).rows = selected.map lineOf := by
  induction selected using List.reverseRecOn with
  | nil => rfl
  | append_singleton selected r ih =>
    rw [accumulate] at ih ⊢
    rw [List.foldl_concat, List.map_append, ← ih]
    rfl

theorem accumulate_trend : (accumulate cal selected).trend =
    collect (fun row => periodFor cal row.date) (trendRow cal) (selected.map lineOf) := by
  induction selected using List.reverseRecOn with
  | nil => rfl
  | append_singleton selected r ih =>
    rw [accumulate] at ih ⊢
    rw [List.foldl_concat, List.map_append, List.map_singleton, collect_concat, ← ih]
    rfl

theorem accumulate_statusCounts : (accumulate cal selected).statusCounts =
    (selected.map fun r => r.2).foldl StatusCounts.add ⟨0, 0, 0, 0, 0⟩ := by
  rw [List.foldl_map]
  exact (List.foldl_hom Accumulated.statusCounts fun _ _ => rfl).symm

end Loop

section Sums

variable {steps : List AnalyticsStep}

theorem breakdown_sum {key : AnalyticsStep → String}
    {add : Option BreakdownRow → AnalyticsStep → BreakdownRow} (part : BreakdownRow → ℚ)
    (normal : NormalizedRow → ℚ) (share : AnalyticsStep → ℚ)
    (hNormal : ∀ row, normal (normalizeRow row) = round6 (part row))
    (hAdd : ∀ row s, part (add row s) = row.elim 0 part + share s)
    (hShare : ∀ s ∈ steps, share s ∈ micros) :
    ((breakdown (collect key add steps)).map normal).sum = (steps.map share).sum := by
  have hMem : ∀ row ∈ (collect key add steps).values, part row ∈ micros := by
    intro row hRow
    obtain ⟨k, hGet⟩ := (OrderedMap.mem_values_iff _ row).mp hRow
    rw [get_collect] at hGet
    refine gather_induction (P := fun row => part row ∈ micros) ?_ hGet
    intro v s hs hv
    rw [hAdd]
    apply add_mem _ (hShare s (List.mem_filter.mp hs).1)
    cases v with
    | none => exact zero_mem _
    | some w => exact hv w rfl
  calc ((breakdown (collect key add steps)).map normal).sum
      = (((collect key add steps).values.map normalizeRow).map normal).sum :=
        ((List.mergeSort_perm _ _).map normal).sum_eq
    _ = ((collect key add steps).values.map part).sum := by
        rw [List.map_map]
        congr 1
        apply List.map_congr_left
        intro row hRow
        exact (hNormal row).trans (round6_of_mem (hMem row hRow))
    _ = (steps.map share).sum := sum_values_collect hAdd steps

theorem breakdown_cost {key : AnalyticsStep → String}
    {add : Option BreakdownRow → AnalyticsStep → BreakdownRow}
    (hAdd : ∀ row s, (add row s).cost = row.elim 0 BreakdownRow.cost + s.actualCost.orZero)
    (hSteps : ∀ s ∈ steps, s.actualCost.orZero ∈ micros) :
    ((breakdown (collect key add steps)).map fun row => row.cost).sum =
      (steps.map fun s => s.actualCost.orZero).sum :=
  breakdown_sum BreakdownRow.cost (fun row => row.cost) _ (fun _ => rfl) hAdd hSteps

theorem breakdown_baseline {key : AnalyticsStep → String}
    {add : Option BreakdownRow → AnalyticsStep → BreakdownRow}
    (hAdd : ∀ row s, (add row s).baseline = row.elim 0 BreakdownRow.baseline + s.baselineCost.orZero)
    (hSteps : ∀ s ∈ steps, s.baselineCost.orZero ∈ micros) :
    ((breakdown (collect key add steps)).map fun row => row.baseline).sum =
      (steps.map fun s => s.baselineCost.orZero).sum :=
  breakdown_sum BreakdownRow.baseline (fun row => row.baseline) _ (fun _ => rfl) hAdd hSteps

theorem addStep_share {blank : BreakdownRow} (hBlank : blank.cost = 0 ∧ blank.baseline = 0)
    (row : Option BreakdownRow) (s : AnalyticsStep) :
    (BreakdownRow.addStep blank row s).cost =
      row.elim 0 BreakdownRow.cost + s.actualCost.orZero ∧
    (BreakdownRow.addStep blank row s).baseline =
      row.elim 0 BreakdownRow.baseline + s.baselineCost.orZero := by
  cases row with
  | none =>
    constructor
    · exact congrArg (· + _) hBlank.1
    · exact congrArg (· + _) hBlank.2
  | some row => exact ⟨rfl, rfl⟩

theorem trend_sum (cal : Calendar) {rows : List AnalyticsRow} (part : TrendRow → ℚ)
    (share : ℚ → ℚ) (hRounded : ∀ t : TrendRow, part t.rounded = round6 (part t))
    (hAdd : ∀ t row, part (trendRow cal t row) = t.elim 0 part + share row.savings.savings.orZero)
    (hShare : ∀ row ∈ rows, share row.savings.savings.orZero ∈ micros) :
    ((((collect (fun row => periodFor cal row.date) (trendRow cal) rows).values.mergeSort
      fun t u => cal.le t.period u.period).map TrendRow.rounded).map part).sum =
      (rows.map fun row => share row.savings.savings.orZero).sum := by
  let trend := collect (fun row : AnalyticsRow => periodFor cal row.date) (trendRow cal) rows
  have hMem : ∀ t ∈ trend.values, part t ∈ micros := by
    intro t ht
    obtain ⟨k, hGet⟩ := (OrderedMap.mem_values_iff _ t).mp ht
    rw [get_collect] at hGet
    refine gather_induction (P := fun t => part t ∈ micros) ?_ hGet
    intro v row hRow hv
    rw [hAdd]
    apply add_mem _ (hShare row (List.mem_filter.mp hRow).1)
    cases v with
    | none => exact zero_mem _
    | some w => exact hv w rfl
  calc (((trend.values.mergeSort fun t u => cal.le t.period u.period).map
        TrendRow.rounded).map part).sum
      = ((trend.values.map TrendRow.rounded).map part).sum :=
        (((List.mergeSort_perm _ _).map TrendRow.rounded).map part).sum_eq
    _ = (trend.values.map part).sum := by
        rw [List.map_map]
        congr 1
        apply List.map_congr_left
        intro t ht
        exact (hRounded t).trans (round6_of_mem (hMem t ht))
    _ = (rows.map fun row => share row.savings.savings.orZero).sum := sum_values_collect hAdd rows

end Sums

section Engine

variable {registry : ModelRegistry} {pricing : Pricing} {id : String} {t t' : Totals} {step : Step}

/-- The rounded costs of the steps are the totals, up to half a mesh for each step. -/
def Totals.Close (t : Totals) : Prop :=
  |(t.steps.map StepBreakdown.actualCost).sum - t.actual| ≤ micro / 2 * t.steps.length ∧
    |(t.steps.map StepBreakdown.baselineCost).sum - t.baseline| ≤ micro / 2 * t.steps.length

theorem addStep_close (ht : t.Close) (h : addStep registry pricing id t step = .ok t') :
    t'.Close := by
  obtain ⟨-, rfl⟩ | ⟨model, provider, -, baseline, actual, -, -, -, -, -, rfl⟩ :=
    addStep_cases registry h
  · exact ht
  · have hActual := abs_le.mp (abs_round6_sub actual)
    have hBaseline := abs_le.mp (abs_round6_sub baseline)
    have htActual := abs_le.mp ht.1
    have htBaseline := abs_le.mp ht.2
    unfold Totals.Close
    simp only [List.map_append, List.map_singleton, List.sum_append, List.sum_singleton,
      List.length_append, List.length_singleton, Nat.cast_add, Nat.cast_one, abs_le]
    refine ⟨⟨?_, ?_⟩, ?_, ?_⟩ <;> linarith

theorem close_rounded {sum total : ℚ} {n : Nat} (h : |sum - total| ≤ micro / 2 * n)
    (hSum : n = 0 → sum = 0) : |sum - round6 total| ≤ micro * n := by
  have hMicro : 0 < micro := by norm_num [micro]
  cases n with
  | zero =>
    have hTotal : total = 0 := by
      rw [Nat.cast_zero, mul_zero, hSum rfl, zero_sub, abs_neg] at h
      exact abs_nonpos_iff.mp h
    rw [hTotal, round6_zero, hSum rfl, sub_zero, abs_zero]
    exact mul_nonneg hMicro.le (Nat.cast_nonneg _)
  | succ n =>
    have hRound := abs_le.mp (abs_round6_sub total)
    have hClose := abs_le.mp h
    have hN : (0 : ℚ) ≤ n := Nat.cast_nonneg n
    have hProduct := mul_nonneg hMicro.le hN
    rw [Nat.cast_succ] at hClose ⊢
    rw [abs_le]
    constructor <;> nlinarith

theorem sum_eq_zero_of_length {l : List StepBreakdown} (part : StepBreakdown → ℚ)
    (h : l.length = 0) : (l.map part).sum = 0 := by
  rw [List.length_eq_zero_iff.mp h]
  rfl

namespace EngineResult

variable (e : EngineResult)

theorem steps_close :
    |(e.result.steps.map StepBreakdown.actualCost).sum - e.result.actualCost.getD 0| ≤
        micro * e.result.steps.length ∧
      |(e.result.steps.map StepBreakdown.baselineCost).sum - e.result.baselineCost.getD 0| ≤
        micro * e.result.steps.length := by
  obtain ⟨_, _, _, -, h⟩ | ⟨usage, reference, pricing, totals, -, hTotals, h⟩ :=
    calculateSavingsForRun_cases e.registry e.run e.explicitReferenceModelId e.platformFeePct
  · rw [result, h]
    simp [addBillingFields, withoutAmounts, amount]
  · rw [result, h]
    have hClose : totals.Close := foldlM_invariant (P := Totals.Close)
      (fun _ _ _ _ ht hNext => addStep_close ht hNext) (by simp [Totals.Close, Totals.zero]) hTotals
    exact ⟨close_rounded hClose.1 (sum_eq_zero_of_length _),
      close_rounded hClose.2 (sum_eq_zero_of_length _)⟩

theorem steps_mem : ∀ s ∈ e.result.steps, s.actualCost ∈ micros ∧ s.baselineCost ∈ micros := by
  obtain ⟨_, _, _, -, h⟩ | ⟨usage, reference, pricing, totals, -, hTotals, h⟩ :=
    calculateSavingsForRun_cases e.registry e.run e.explicitReferenceModelId e.platformFeePct
  · rw [result, h]
    exact fun _ hs => (List.not_mem_nil hs).elim
  · rw [result, h]
    refine foldlM_invariant
      (P := fun t => ∀ s ∈ t.steps, s.actualCost ∈ micros ∧ s.baselineCost ∈ micros)
      ?_ (fun _ hs => (List.not_mem_nil hs).elim) hTotals
    intro step _ t t' ht hNext s hs
    obtain ⟨-, rfl⟩ | ⟨model, provider, -, baseline, actual, -, -, -, -, -, rfl⟩ :=
      addStep_cases e.registry hNext
    · exact ht s hs
    · obtain hOld | hNew := List.mem_append.mp hs
      · exact ht s hOld
      · rw [List.mem_singleton.mp hNew]
        exact ⟨round6_mem _, round6_mem _⟩

theorem amounts_mem :
    e.result.actualCost.getD 0 ∈ micros ∧ e.result.baselineCost.getD 0 ∈ micros := by
  obtain ⟨_, _, _, -, h⟩ | ⟨_, _, h⟩ := e.result_cases
  · rw [h]
    exact ⟨zero_mem _, zero_mem _⟩
  · rw [h]
    exact ⟨round6_mem _, round6_mem _⟩

theorem add_statusCounts (c : StatusCounts) :
    (c.add e.result.analytics).insufficient = c.insufficient +
        (if e.result.calculationStatus = "insufficient_data" then 1 else 0) ∧
      (c.add e.result.analytics).incomplete = c.incomplete +
        (if e.result.calculationStatus = "incomplete" then 1 else 0) ∧
      (c.add e.result.analytics).verified + (c.add e.result.analytics).noSavings +
        (c.add e.result.analytics).costIncrease = c.verified + c.noSavings + c.costIncrease +
        if e.result.calculationStatus = "verified_modeled" then 1 else 0 := by
  have hStatus : e.result.analytics.status = some e.result.status.text := rfl
  have hCalculation : e.result.analytics.calculationStatus =
      some (calculationStatusOf e.result.status) := congrArg some e.calculationStatus_eq
  rw [StatusCounts.add, hStatus, hCalculation, calculationStatus_eq]
  cases e.result.status with
  | verifiedModeled =>
    by_cases hOutcome : e.result.analytics.economicOutcome = some "unchanged"
    · simp [SavingsStatus.text, calculationStatusOf, hOutcome]
      omega
    · simp [SavingsStatus.text, calculationStatusOf, hOutcome]
      omega
  | noSavings =>
    simp [SavingsStatus.text, calculationStatusOf]
    omega
  | costIncrease =>
    simp [SavingsStatus.text, calculationStatusOf]
    omega
  | insufficientPricingData => simp [SavingsStatus.text, calculationStatusOf]
  | incompleteRun => simp [SavingsStatus.text, calculationStatusOf]

end EngineResult

theorem statusCounts_eq (results : List EngineResult) (c : StatusCounts) :
    let counts := (results.map fun e => e.result.analytics).foldl StatusCounts.add c
    counts.insufficient = c.insufficient +
        (results.countP fun e => e.result.calculationStatus = "insufficient_data") ∧
      counts.incomplete = c.incomplete +
        (results.countP fun e => e.result.calculationStatus = "incomplete") ∧
      counts.verified + counts.noSavings + counts.costIncrease =
        c.verified + c.noSavings + c.costIncrease +
        results.countP fun e => e.result.calculationStatus = "verified_modeled" := by
  induction results generalizing c with
  | nil => exact ⟨rfl, rfl, rfl⟩
  | cons e results ih =>
    obtain ⟨hInsufficient, hIncomplete, hVerified⟩ := e.add_statusCounts c
    obtain ⟨hInsufficients, hIncompletes, hVerifieds⟩ := ih (c.add e.result.analytics)
    simp only [List.map_cons, List.foldl_cons, List.countP_cons, decide_eq_true_eq]
    refine ⟨?_, ?_, ?_⟩ <;> omega

end Engine

section Conservation

def selectedResults (cal : Calendar) (runs : List AnalyticsRun)
    (resultByRun : String → Option EngineResult) (options : AnalyticsOptions) :
    List (AnalyticsRun × EngineResult) :=
  (runs.filter fun run => withinRange cal run options).filterMap fun run =>
    (resultByRun run.id).map fun e => (run, e)

/-- What `buildAnalytics` is given for results of the engine. -/
def economicsOf (resultByRun : String → Option EngineResult) (id : String) :
    Option AnalyticsEconomics :=
  (resultByRun id).map fun e => e.result.analytics

/-- The parts of the analytics agree with the summary and with the results. -/
structure Conserved (results : List EngineResult) (a : Analytics) : Prop where
  modelCost : |(a.modelBreakdown.map fun row => row.cost).sum -
    a.summary.optimizedProviderCost.getD 0| ≤
      micro * (results.map fun e => e.result.steps.length).sum
  modelBaseline : |(a.modelBreakdown.map fun row => row.baseline).sum -
    a.summary.baselineCost.getD 0| ≤ micro * (results.map fun e => e.result.steps.length).sum
  providerCost : |(a.providerBreakdown.map fun row => row.cost).sum -
    a.summary.optimizedProviderCost.getD 0| ≤
      micro * (results.map fun e => e.result.steps.length).sum
  providerBaseline : |(a.providerBreakdown.map fun row => row.baseline).sum -
    a.summary.baselineCost.getD 0| ≤ micro * (results.map fun e => e.result.steps.length).sum
  savings : (a.spendTrend.map fun t => t.savings).sum = a.summary.positiveModeledSavings
  negativeImpact : (a.spendTrend.map fun t => t.negativeImpact).sum =
    a.summary.negativeModeledImpact
  totalRuns : a.dataQuality.totalRuns = a.summary.runCount
  verified : a.dataQuality.verifiedCount + a.dataQuality.noSavingsCount +
    a.dataQuality.costIncreaseCount = a.summary.dataQuality.verifiedCount
  insufficient : a.dataQuality.insufficientCount =
    results.countP fun e => e.result.calculationStatus = "insufficient_data"
  incomplete : a.dataQuality.incompleteCount =
    results.countP fun e => e.result.calculationStatus = "incomplete"
  coverage : a.dataQuality.coverageRate =
    round6 (a.dataQuality.verifiedCount / a.dataQuality.totalRuns)

variable (cal : Calendar) (selected : List (AnalyticsRun × EngineResult))

theorem selectRuns_economicsOf (runs : List AnalyticsRun)
    (resultByRun : String → Option EngineResult) (options : AnalyticsOptions) :
    selectRuns cal runs (economicsOf resultByRun) options =
      (selectedResults cal runs resultByRun options).map fun r => (r.1, r.2.result.analytics) := by
  rw [selectRuns, selectedResults, List.map_filterMap]
  congr 1
  funext run
  rw [economicsOf, Option.map_map, Option.map_map]
  rfl

def entriesOf : List BillingEntry := selected.map fun r => ⟨r.2, false⟩

def readOf : List (AnalyticsRun × AnalyticsEconomics) :=
  selected.map fun r => (r.1, r.2.result.analytics)

theorem summary_eq : ((accumulate cal (readOf selected)).rows.map fun row =>
    row.savings.toSavingsInput) = (entriesOf selected).map BillingEntry.input := by
  rw [accumulate_rows, readOf, entriesOf, List.map_map, List.map_map, List.map_map]
  apply List.map_congr_left
  intro r _
  rfl

theorem sumOf_entriesOf (key : BillingLine → Option ℚ) (amount : EngineResult → ℚ)
    (hKey : ∀ e : EngineResult, (key (fromSavings e.result.asInput)).getD 0 = amount e)
    (hMem : ∀ e, amount e ∈ micros) :
    (sumOf (((entriesOf selected).map BillingEntry.input).map fromSavings) key).getD 0 =
      (selected.map fun r => amount r.2).sum := by
  have hSum : ((((entriesOf selected).map BillingEntry.input).map fromSavings).map fun row =>
      (key row).getD 0) = selected.map fun r => amount r.2 := by
    rw [entriesOf, List.map_map, List.map_map, List.map_map]
    apply List.map_congr_left
    intro r _
    exact hKey r.2
  rw [sumOf_eq, hSum]
  split_ifs with hNone
  · rw [List.map_eq_nil_iff, List.map_eq_nil_iff, entriesOf, List.map_eq_nil_iff] at hNone
    rw [hNone]
    rfl
  · apply round6_of_mem
    apply list_sum_mem
    intro n hn
    obtain ⟨r, -, rfl⟩ := List.mem_map.mp hn
    exact hMem r.2

theorem abs_sum_sub_le {α : Type} {l : List α} {f g : α → ℚ} {h : α → Nat}
    (hBound : ∀ a ∈ l, |f a - g a| ≤ micro * h a) :
    |(l.map f).sum - (l.map g).sum| ≤ micro * (l.map h).sum := by
  induction l with
  | nil => simp
  | cons a l ih =>
    have hHead := abs_le.mp (hBound a List.mem_cons_self)
    have hTail := abs_le.mp (ih fun a' ha' => hBound a' (List.mem_cons_of_mem a ha'))
    simp only [List.map_cons, List.sum_cons, Nat.cast_add, abs_le]
    constructor <;> linarith

theorem sum_stepsOf (share : AnalyticsStep → ℚ) (part : StepBreakdown → ℚ)
    (hShare : ∀ s : StepBreakdown, share s.read = part s) :
    ((stepsOf (readOf selected)).map share).sum =
      (selected.map fun r => (r.2.result.steps.map part).sum).sum := by
  rw [stepsOf, readOf, List.flatMap_map]
  induction selected with
  | nil => rfl
  | cons r selected ih =>
    have hHead : (r.2.result.analytics.steps.map share) = r.2.result.steps.map part := by
      change (r.2.result.steps.map StepBreakdown.read).map share = _
      rw [List.map_map]
      exact List.map_congr_left fun s _ => hShare s
    rw [List.flatMap_cons, List.map_append, List.sum_append, ih, hHead, List.map_cons,
      List.sum_cons]

theorem stepsOf_mem {s : AnalyticsStep} (h : s ∈ stepsOf (readOf selected)) :
    s.actualCost.orZero ∈ micros ∧ s.baselineCost.orZero ∈ micros := by
  obtain ⟨r', hr', hs⟩ := List.mem_flatMap.mp h
  obtain ⟨r, -, rfl⟩ := List.mem_map.mp hr'
  obtain ⟨own, hOwn, rfl⟩ := List.mem_map.mp hs
  exact r.2.steps_mem own hOwn

theorem costs_conserved {key : AnalyticsStep → String}
    {add : Option BreakdownRow → AnalyticsStep → BreakdownRow}
    (hAdd : ∀ row s, (add row s).cost = row.elim 0 BreakdownRow.cost + s.actualCost.orZero ∧
      (add row s).baseline = row.elim 0 BreakdownRow.baseline + s.baselineCost.orZero) :
    let rows := breakdown (collect key add (stepsOf (readOf selected)))
    |(rows.map fun row => row.cost).sum -
        (selected.map fun r => r.2.result.actualCost.getD 0).sum| ≤
        micro * (selected.map fun r => r.2.result.steps.length).sum ∧
      |(rows.map fun row => row.baseline).sum -
        (selected.map fun r => r.2.result.baselineCost.getD 0).sum| ≤
        micro * (selected.map fun r => r.2.result.steps.length).sum := by
  dsimp only
  rw [breakdown_cost (fun row s => (hAdd row s).1) fun s hs => (stepsOf_mem selected hs).1,
    breakdown_baseline (fun row s => (hAdd row s).2) fun s hs => (stepsOf_mem selected hs).2,
    sum_stepsOf selected (fun s => s.actualCost.orZero) StepBreakdown.actualCost fun _ => rfl,
    sum_stepsOf selected (fun s => s.baselineCost.orZero) StepBreakdown.baselineCost fun _ => rfl]
  constructor
  · exact abs_sum_sub_le fun r _ => r.2.steps_close.1
  · exact abs_sum_sub_le fun r _ => r.2.steps_close.2

theorem trend_conserved (part : TrendRow → ℚ) (share : ℚ → ℚ)
    (hRounded : ∀ t : TrendRow, part t.rounded = round6 (part t))
    (hAdd : ∀ t row, part (trendRow cal t row) = t.elim 0 part + share row.savings.savings.orZero)
    (hShare : ∀ n ∈ micros, share n ∈ micros) :
    ((((accumulate cal (readOf selected)).trend.values.mergeSort
      fun t u => cal.le t.period u.period).map TrendRow.rounded).map part).sum =
      ((entriesOf selected).map fun e => share e.billedSavings).sum := by
  have hSavings (e : EngineResult) : e.result.analytics.savings.orZero = e.savings := by
    change (Field.ofNullable e.result.savings).toNumber.getD 0 = _
    rw [toNumber_ofNullable]
    rfl
  rw [accumulate_trend, trend_sum cal part share hRounded hAdd]
  · rw [readOf, entriesOf, List.map_map, List.map_map, List.map_map]
    congr 1
    apply List.map_congr_left
    intro r _
    exact congrArg share (hSavings r.2)
  · intro row hRow
    obtain ⟨r', hr', rfl⟩ := List.mem_map.mp hRow
    obtain ⟨r, -, rfl⟩ := List.mem_map.mp hr'
    apply hShare
    exact (hSavings r.2).symm ▸ r.2.savings_mem

theorem modelRow_share (row : Option BreakdownRow) (s : AnalyticsStep) :
    (modelRow row s).cost = row.elim 0 BreakdownRow.cost + s.actualCost.orZero ∧
    (modelRow row s).baseline = row.elim 0 BreakdownRow.baseline + s.baselineCost.orZero :=
  addStep_share ⟨rfl, rfl⟩ row s

theorem providerRow_share (row : Option BreakdownRow) (s : AnalyticsStep) :
    (providerRow row s).cost = row.elim 0 BreakdownRow.cost + s.actualCost.orZero ∧
    (providerRow row s).baseline = row.elim 0 BreakdownRow.baseline + s.baselineCost.orZero :=
  addStep_share ⟨rfl, rfl⟩ row s

theorem summary_actual :
    (aggregate ((entriesOf selected).map BillingEntry.input)).optimizedProviderCost.getD 0 =
      (selected.map fun r => r.2.result.actualCost.getD 0).sum := by
  apply sumOf_entriesOf selected _ fun e => e.result.actualCost.getD 0
  · intro e
    change (Field.ofNullable e.result.actualCost).toNumber.getD 0 = _
    rw [toNumber_ofNullable]
    rfl
  · exact fun e => e.amounts_mem.1

theorem summary_baseline :
    (aggregate ((entriesOf selected).map BillingEntry.input)).baselineCost.getD 0 =
      (selected.map fun r => r.2.result.baselineCost.getD 0).sum := by
  apply sumOf_entriesOf selected _ fun e => e.result.baselineCost.getD 0
  · intro e
    change (Field.ofNullable e.result.baselineCost).toNumber.getD 0 = _
    rw [toNumber_ofNullable]
    rfl
  · exact fun e => e.amounts_mem.2

theorem counts_conserved :
    let counts := (accumulate cal (readOf selected)).statusCounts
    counts.insufficient = (selected.map Prod.snd).countP
        (fun e => e.result.calculationStatus = "insufficient_data") ∧
      counts.incomplete = (selected.map Prod.snd).countP
        (fun e => e.result.calculationStatus = "incomplete") ∧
      counts.verified + counts.noSavings + counts.costIncrease =
        (aggregate ((entriesOf selected).map BillingEntry.input)).dataQuality.verifiedCount := by
  have hStatus : (accumulate cal (readOf selected)).statusCounts =
      ((selected.map Prod.snd).map fun e => e.result.analytics).foldl StatusCounts.add
        ⟨0, 0, 0, 0, 0⟩ := by
    rw [accumulate_statusCounts, readOf, List.map_map, List.map_map]
    rfl
  obtain ⟨-, hVerified, -, -⟩ := aggregate_counts (entriesOf selected)
  have hEntries : ((entriesOf selected).countP fun e =>
      e.result.calculationStatus = "verified_modeled") = (selected.map Prod.snd).countP fun e =>
        e.result.calculationStatus = "verified_modeled" := by
    rw [entriesOf, List.countP_map, List.countP_map]
    rfl
  obtain ⟨hInsufficient, hIncomplete, hCounted⟩ :=
    statusCounts_eq (selected.map Prod.snd) ⟨0, 0, 0, 0, 0⟩
  dsimp only
  rw [hStatus, hVerified, hEntries]
  exact ⟨hInsufficient.trans (Nat.zero_add _), hIncomplete.trans (Nat.zero_add _),
    hCounted.trans (Nat.zero_add _)⟩

/-- The breakdowns, the trend and the counts are those of the results in the range. -/
theorem analytics_conserved (runs : List AnalyticsRun)
    (resultByRun : String → Option EngineResult) (options : AnalyticsOptions) :
    Conserved ((selectedResults cal runs resultByRun options).map Prod.snd)
      (buildAnalytics cal runs (economicsOf resultByRun) options) := by
  have hRead := selectRuns_economicsOf cal runs resultByRun options
  unfold buildAnalytics
  dsimp only
  rw [hRead]
  generalize selectedResults cal runs resultByRun options = selected
  change Conserved (selected.map Prod.snd) _
  rw [← readOf, summary_eq]
  have hSteps : ((selected.map Prod.snd).map fun e => e.result.steps.length).sum =
      (selected.map fun r => r.2.result.steps.length).sum := by
    rw [List.map_map]
    rfl
  obtain ⟨hInsufficient, hIncomplete, hVerified⟩ := counts_conserved cal selected
  constructor
  all_goals dsimp only
  · rw [accumulate_modelBreakdown, summary_actual, hSteps]
    exact (costs_conserved selected modelRow_share).1
  · rw [accumulate_modelBreakdown, summary_baseline, hSteps]
    exact (costs_conserved selected modelRow_share).2
  · rw [accumulate_providerBreakdown, summary_actual, hSteps]
    exact (costs_conserved selected providerRow_share).1
  · rw [accumulate_providerBreakdown, summary_baseline, hSteps]
    exact (costs_conserved selected providerRow_share).2
  · rw [aggregate_positive]
    apply trend_conserved cal selected TrendRow.savings (max 0) fun _ => rfl
    · rintro (_ | t) row <;> rfl
    · exact fun n hn => max_mem_grid (zero_mem _) hn
  · rw [aggregate_negative]
    apply trend_conserved cal selected TrendRow.negativeImpact (min 0) fun _ => rfl
    · rintro (_ | t) row <;> rfl
    · exact fun n hn => min_mem_grid (zero_mem _) hn
  · rw [(aggregate_counts (entriesOf selected)).1, accumulate_rows, readOf, entriesOf,
      List.length_map, List.length_map, List.length_map]
  · exact hVerified
  · exact hInsufficient
  · exact hIncomplete
  · split_ifs with hEmpty
    · rw [List.isEmpty_iff.mp hEmpty]
      simp
    · rfl

def oneRun : AnalyticsRun := ⟨"run", none, none, none, ⟨.undefined, .undefined, []⟩⟩

def noDates : Calendar := ⟨fun _ => none, fun _ => (1970, 0), 0, fun _ _ => true⟩

def costlyResult : EngineResult where
  registry := twoModels
  run := some ⟨.completed, some "small", none, [⟨createModelCallRecord ⟨true, none,
    ⟨some 1000, some 500, none, none⟩, none, some 1, none, none⟩, some 1,
    some "Provider Z", some "large", some largePricing⟩]⟩
  explicitReferenceModelId := none
  platformFeePct := .undefined

/-- The tokens of a verified result are missing, a verified result that has cost more is not
counted as verified, and the summary counts no unfinished run. -/
theorem analytics_differ :
    (¬ ∀ e : EngineResult, e.Verified →
      some (buildAnalytics noDates [oneRun] (economicsOf fun _ => some e)
        ⟨none, none⟩).tokenComposition.input = e.result.usage.inputTokens) ∧
    (¬ ∀ e : EngineResult,
      (buildAnalytics noDates [oneRun] (economicsOf fun _ => some e)
          ⟨none, none⟩).dataQuality.verifiedCount =
        (buildAnalytics noDates [oneRun] (economicsOf fun _ => some e)
          ⟨none, none⟩).summary.dataQuality.verifiedCount) ∧
    ¬ ∀ e : EngineResult,
      (buildAnalytics noDates [oneRun] (economicsOf fun _ => some e)
          ⟨none, none⟩).dataQuality.incompleteCount =
        (buildAnalytics noDates [oneRun] (economicsOf fun _ => some e)
          ⟨none, none⟩).summary.dataQuality.incompleteCount := by
  refine ⟨fun h => ?_, fun h => ?_, fun h => ?_⟩
  · exact absurd (h costlyResult (by decide +kernel)) (by decide +kernel)
  · exact absurd (h costlyResult) (by decide +kernel)
  · exact absurd (h openEntry.toEngineResult) (by decide +kernel)

end Conservation

end OrchestraAI.Economics
