import Mathlib.Algebra.Group.Submonoid.BigOperators
import OrchestraAI.Economics.SavingsArithmetic

/-! # The counts of an aggregate

Entries that carry results of the engine, in both shapes that `aggregate` admits. It counts the
results that are not verified under names that no line has, and it reads a bare result whose savings
are not zero as this number.
-/

namespace OrchestraAI.Economics

open RoundedGrid
open OrchestraAI.Recovery (truthy)

/-- A call of `calculateSavingsForRun`. -/
structure EngineResult where
  registry : ModelRegistry
  run : Option RunUsage
  explicitReferenceModelId : Option String
  platformFeePct : Field

namespace EngineResult

variable (e : EngineResult)

def result : SavingsResult :=
  calculateSavingsForRun e.registry e.run e.explicitReferenceModelId e.platformFeePct

def Verified : Prop := e.result.calculationStatus = "verified_modeled"

instance : DecidablePred Verified :=
  fun e => inferInstanceAs (Decidable (e.result.calculationStatus = "verified_modeled"))

def savings : ℚ := e.result.savings.getD 0

theorem result_cases :
    (∃ status reference error, status.Unknown ∧
      e.result = addBillingFields (withoutAmounts status reference error) e.platformFeePct) ∨
    ∃ reference totals,
      e.result = addBillingFields (totalsResult reference totals) e.platformFeePct := by
  obtain h | ⟨_, reference, _, totals, -, -, h⟩ := calculateSavingsForRun_cases e.registry e.run
    e.explicitReferenceModelId e.platformFeePct
  · exact .inl h
  · exact .inr ⟨reference, totals, h⟩

theorem calculationStatus_eq :
    e.result.calculationStatus = calculationStatusOf e.result.status := by
  obtain ⟨_, _, _, -, h⟩ | ⟨_, _, h⟩ := e.result_cases
  · rw [h]
    rfl
  · rw [h]
    rfl

theorem calculationStatus_mem : e.result.calculationStatus = "verified_modeled" ∨
    e.result.calculationStatus = "insufficient_data" ∨
    e.result.calculationStatus = "incomplete" := by
  rw [calculationStatus_eq]
  cases e.result.status <;> decide

theorem verified_iff : e.Verified ↔ ¬ e.result.status.Unknown := by
  rw [Verified, calculationStatus_eq, SavingsStatus.Unknown]
  cases e.result.status <;> decide

theorem savings_mem : e.savings ∈ micros := by
  obtain ⟨_, _, _, -, h⟩ | ⟨_, _, h⟩ := e.result_cases
  · rw [savings, h]
    exact zero_mem _
  · rw [savings, h]
    exact round6_mem _

variable {e}

theorem savings_of_not_verified (h : ¬ e.Verified) : e.savings = 0 := by
  obtain ⟨_, _, _, -, hResult⟩ | ⟨reference, totals, hResult⟩ := e.result_cases
  · rw [savings, hResult]
    rfl
  · rw [verified_iff, not_not, hResult] at h
    exact absurd h (totalsResult_known reference totals)

theorem economicOutcome_of_not_verified (h : ¬ e.Verified) : e.result.economicOutcome = none := by
  obtain ⟨status, _, _, hStatus, hResult⟩ | ⟨reference, totals, hResult⟩ := e.result_cases
  · rw [hResult]
    obtain rfl | rfl := hStatus
    · rfl
    · rfl
  · rw [verified_iff, not_not, hResult] at h
    exact absurd h (totalsResult_known reference totals)

theorem economicOutcome_of_verified (h : e.Verified) :
    ∃ outcome, e.result.economicOutcome = some outcome ∧ outcome ≠ "" := by
  obtain ⟨status, _, _, hStatus, hResult⟩ | ⟨reference, totals, hResult⟩ := e.result_cases
  · rw [verified_iff, hResult] at h
    exact absurd hStatus h
  · have hKnown : e.result.calculationStatus = "verified_modeled" := h
    rw [hResult] at hKnown ⊢
    unfold addBillingFields at hKnown ⊢
    dsimp only at hKnown ⊢
    rw [if_neg (not_not.mpr hKnown)]
    refine ⟨_, rfl, ?_⟩
    dsimp only
    split_ifs <;> decide

theorem lineStatus_asInput : lineStatus e.result.asInput = e.result.calculationStatus := by
  have hStatus : e.result.asInput.calculationStatus = some e.result.calculationStatus := rfl
  obtain h | h | h := e.calculationStatus_mem
  all_goals
    rw [h] at hStatus ⊢
    simp only [lineStatus, hStatus]

end EngineResult

/-- A result on its own, or the `savings` of a row. -/
structure BillingEntry extends EngineResult where
  bare : Bool

/-- What `fromSavings` reads of a number. -/
def SavingsInput.ofNumber : SavingsInput where
  status := none
  calculationStatus := none
  economicOutcome := none
  economicsStatus := none
  invoiceStatus := none
  baselineCost := .undefined
  actualCost := .undefined
  savings := .undefined
  eligibleSavings := .undefined
  platformFeePct := .undefined
  platformFee := .undefined
  customerFinalCost := .undefined
  customerNetSavings := .undefined

namespace BillingEntry

/-- `entry.savings || entry`: of a bare result this is its savings, unless they are zero. -/
def input (e : BillingEntry) : SavingsInput :=
  if e.bare ∧ e.savings ≠ 0 then .ofNumber else e.result.asInput

def line (e : BillingEntry) : BillingLine := fromSavings e.input

theorem input_cases (e : BillingEntry) : e.input = .ofNumber ∨ e.input = e.result.asInput := by
  rw [input]
  split_ifs
  · exact .inl rfl
  · exact .inr rfl

variable {e : BillingEntry}

theorem line_calculationStatus : e.line.calculationStatus = e.result.calculationStatus := by
  change lineStatus e.input = _
  rw [input]
  split_ifs with h
  · have hVerified : e.Verified := by
      by_contra hNot
      exact h.2 (EngineResult.savings_of_not_verified hNot)
    exact hVerified.symm
  · exact EngineResult.lineStatus_asInput

def billedSavings (e : BillingEntry) : ℚ := if e.bare then 0 else e.savings

theorem line_modeledSavings : e.line.modeledSavings.getD 0 = e.billedSavings := by
  change e.input.savings.toNumber.getD 0 = _
  rw [input, billedSavings]
  split_ifs with h hBare hBare
  · rfl
  · exact absurd h.1 hBare
  · change (Field.ofNullable e.result.savings).toNumber.getD 0 = 0
    rw [toNumber_ofNullable]
    by_contra hSavings
    exact h ⟨hBare, hSavings⟩
  · change (Field.ofNullable e.result.savings).toNumber.getD 0 = e.savings
    rw [toNumber_ofNullable]
    rfl

theorem line_economicOutcome {outcome : String} (h : e.line.economicOutcome = some outcome) :
    e.Verified ∧ e.result.economicOutcome = some outcome := by
  have hLine : e.line.economicOutcome = (truthy e.input.economicOutcome).or
      (if lineStatus e.input = "verified_modeled" then
        e.input.savings.toNumber.map fun n =>
          if 0 < n then "saved" else if n < 0 then "cost_increase" else "unchanged"
      else none) := rfl
  obtain hInput | hInput := e.input_cases
  · rw [hLine, hInput] at h
    cases h
  · rw [hLine, hInput, EngineResult.lineStatus_asInput] at h
    by_cases hVerified : e.Verified
    · refine ⟨hVerified, ?_⟩
      obtain ⟨own, hOwn, hText⟩ := EngineResult.economicOutcome_of_verified hVerified
      have hTruthy : truthy e.result.asInput.economicOutcome = some own := by
        change truthy e.result.economicOutcome = some own
        rw [hOwn]
        simp [truthy, hText]
      rw [hTruthy, Option.some_or] at h
      rw [hOwn, h]
    · have hNone : e.result.asInput.economicOutcome = none :=
        EngineResult.economicOutcome_of_not_verified hVerified
      have hStatus : ¬ e.result.calculationStatus = "verified_modeled" := hVerified
      rw [hNone, if_neg hStatus] at h
      cases h

end BillingEntry

section Partition

/-- The counts divide the entries by the status of their results, and the two sums are those of the
verified results. -/
structure Partitioned (entries : List BillingEntry) (a : BillingAggregate) : Prop where
  total : a.dataQuality.verifiedCount + a.dataQuality.insufficientCount +
    a.dataQuality.incompleteCount = a.runCount
  verified : a.dataQuality.verifiedCount =
    entries.countP fun e => e.result.calculationStatus = "verified_modeled"
  insufficient : a.dataQuality.insufficientCount =
    entries.countP fun e => e.result.calculationStatus = "insufficient_data"
  incomplete : a.dataQuality.incompleteCount =
    entries.countP fun e => e.result.calculationStatus = "incomplete"
  costIncrease : a.dataQuality.costIncreaseCount ≤
    entries.countP fun e => e.Verified ∧ e.result.economicOutcome = some "cost_increase"
  noSavings : a.dataQuality.noSavingsCount ≤
    entries.countP fun e => e.Verified ∧ e.result.economicOutcome = some "unchanged"
  coverage : a.dataQuality.coverageRate =
    round6 (a.dataQuality.verifiedCount / a.runCount)
  savings : |a.positiveModeledSavings + a.negativeModeledImpact -
    ((entries.filter fun e => e.Verified).map fun e => e.savings).sum| ≤ micro

def bareSavings (entries : List BillingEntry) : ℚ :=
  ((entries.filter fun e => e.bare).map fun e => e.savings).sum

variable {entries : List BillingEntry}

theorem count_lines (status : String) :
    ((entries.map BillingEntry.input).map fromSavings).countP (fun row =>
      row.calculationStatus = status) =
      entries.countP fun e => e.result.calculationStatus = status := by
  rw [List.map_map, List.countP_map]
  apply List.countP_congr
  intro e _
  change decide (e.line.calculationStatus = status) = true ↔ _
  rw [BillingEntry.line_calculationStatus]

theorem count_none (status : String) (h : status ≠ "verified_modeled" ∧
    status ≠ "insufficient_data" ∧ status ≠ "incomplete") :
    (entries.countP fun e => e.result.calculationStatus = status) = 0 := by
  apply List.countP_eq_zero.mpr
  intro e _ hStatus
  obtain hCase | hCase | hCase := e.calculationStatus_mem
  all_goals
    rw [of_decide_eq_true hStatus] at hCase
  · exact h.1 hCase
  · exact h.2.1 hCase
  · exact h.2.2 hCase

theorem count_outcomes (outcome : String) :
    (((entries.map BillingEntry.input).map fromSavings).countP fun row =>
      row.economicOutcome = some outcome) ≤
      entries.countP fun e => e.Verified ∧ e.result.economicOutcome = some outcome := by
  rw [List.map_map, List.countP_map]
  apply List.countP_mono_left
  intro e _ hLine
  have hLine : e.line.economicOutcome = some outcome := of_decide_eq_true hLine
  exact decide_eq_true (BillingEntry.line_economicOutcome hLine)

theorem billedSavings_mem (e : BillingEntry) : e.billedSavings ∈ micros := by
  rw [BillingEntry.billedSavings]
  split_ifs
  · exact zero_mem _
  · exact e.savings_mem

theorem sum_modeledSavings (f : ℚ → ℚ) (hf : ∀ n ∈ micros, f n ∈ micros)
    (entries : List BillingEntry) :
    round6 (((entries.map BillingEntry.input).map fromSavings).map fun row =>
        f (row.modeledSavings.getD 0)).sum =
      (entries.map fun e => f e.billedSavings).sum := by
  have hLines : (((entries.map BillingEntry.input).map fromSavings).map fun row =>
      f (row.modeledSavings.getD 0)) = entries.map fun e => f e.billedSavings := by
    rw [List.map_map, List.map_map]
    apply List.map_congr_left
    intro e _
    exact congrArg f BillingEntry.line_modeledSavings
  rw [hLines]
  apply round6_of_mem
  apply list_sum_mem
  intro n hn
  obtain ⟨e, -, rfl⟩ := List.mem_map.mp hn
  exact hf _ (billedSavings_mem e)

theorem aggregate_positive (entries : List BillingEntry) :
    (aggregate (entries.map BillingEntry.input)).positiveModeledSavings =
      (entries.map fun e => max 0 e.billedSavings).sum :=
  sum_modeledSavings (max 0) (fun _ hn => max_mem_grid (zero_mem _) hn) entries

theorem aggregate_negative (entries : List BillingEntry) :
    (aggregate (entries.map BillingEntry.input)).negativeModeledImpact =
      (entries.map fun e => min 0 e.billedSavings).sum :=
  sum_modeledSavings (min 0) (fun _ hn => min_mem_grid (zero_mem _) hn) entries

theorem aggregate_savings (entries : List BillingEntry) :
    (aggregate (entries.map BillingEntry.input)).positiveModeledSavings +
        (aggregate (entries.map BillingEntry.input)).negativeModeledImpact =
      (entries.map BillingEntry.billedSavings).sum := by
  rw [aggregate_positive, aggregate_negative, ← List.sum_map_add]
  congr 1
  apply List.map_congr_left
  intro e _
  rw [add_comm, min_add_max, zero_add]

theorem verifiedSavings_eq (entries : List BillingEntry) :
    ((entries.filter fun e => e.Verified).map fun e => e.savings).sum =
      (entries.map fun e => e.savings).sum := by
  induction entries with
  | nil => rfl
  | cons e entries ih =>
    by_cases hVerified : e.Verified
    · rw [List.filter_cons_of_pos (by simpa using hVerified), List.map_cons, List.sum_cons, ih,
        List.map_cons, List.sum_cons]
    · rw [List.filter_cons_of_neg (by simpa using hVerified), ih, List.map_cons, List.sum_cons,
        EngineResult.savings_of_not_verified hVerified, zero_add]

theorem billedSavings_add_bare (entries : List BillingEntry) :
    (entries.map BillingEntry.billedSavings).sum + bareSavings entries =
      (entries.map fun e => e.savings).sum := by
  induction entries with
  | nil => exact add_zero _
  | cons e entries ih =>
    unfold bareSavings at ih ⊢
    rw [List.map_cons, List.sum_cons, List.map_cons, List.sum_cons, ← ih,
      BillingEntry.billedSavings]
    cases hBare : e.bare with
    | false =>
      rw [List.filter_cons_of_neg (by simp [hBare]), if_neg Bool.false_ne_true, add_assoc]
    | true =>
      rw [List.filter_cons_of_pos hBare, List.map_cons, List.sum_cons, if_pos rfl, zero_add]
      ring

theorem aggregate_savings_sub (entries : List BillingEntry) :
    (aggregate (entries.map BillingEntry.input)).positiveModeledSavings +
        (aggregate (entries.map BillingEntry.input)).negativeModeledImpact -
      ((entries.filter fun e => e.Verified).map fun e => e.savings).sum = -bareSavings entries := by
  rw [aggregate_savings, verifiedSavings_eq, ← billedSavings_add_bare]
  ring

theorem aggregate_counts (entries : List BillingEntry) :
    (aggregate (entries.map BillingEntry.input)).runCount = entries.length ∧
    (aggregate (entries.map BillingEntry.input)).dataQuality.verifiedCount =
      (entries.countP fun e => e.result.calculationStatus = "verified_modeled") ∧
    (aggregate (entries.map BillingEntry.input)).dataQuality.insufficientCount = 0 ∧
    (aggregate (entries.map BillingEntry.input)).dataQuality.incompleteCount = 0 := by
  refine ⟨?_, count_lines _, (count_lines _).trans (count_none _ (by decide)),
    (count_lines _).trans (count_none _ (by decide))⟩
  change ((entries.map BillingEntry.input).map fromSavings).length = _
  rw [List.length_map, List.length_map]

/-- The aggregate partitions the entries exactly when all their results are verified, and the bare
ones among them have saved nothing together. -/
theorem aggregate_partitions_iff (entries : List BillingEntry) :
    Partitioned entries (aggregate (entries.map BillingEntry.input)) ↔
      (∀ e ∈ entries, e.Verified) ∧ |bareSavings entries| ≤ micro := by
  obtain ⟨hRuns, hVerified, hInsufficient, hIncomplete⟩ := aggregate_counts entries
  have hSavings := aggregate_savings_sub entries
  constructor
  · intro h
    constructor
    · have hTotal := h.total
      rw [hRuns, hVerified, hInsufficient, hIncomplete, Nat.add_zero] at hTotal
      intro e he
      exact of_decide_eq_true (List.countP_eq_length.mp hTotal e he)
    · have hSum := h.savings
      rwa [hSavings, abs_neg] at hSum
  · rintro ⟨hAll, hBare⟩
    have hOther (status : String) (hStatus : status ≠ "verified_modeled") :
        (entries.countP fun e => e.result.calculationStatus = status) = 0 := by
      apply List.countP_eq_zero.mpr
      intro e he hCase
      exact hStatus ((of_decide_eq_true hCase).symm.trans (hAll e he))
    constructor
    · rw [hRuns, hVerified, hInsufficient, hIncomplete, Nat.add_zero]
      apply List.countP_eq_length.mpr
      exact fun e he => decide_eq_true (hAll e he)
    · exact hVerified
    · rw [hInsufficient, hOther _ (by decide)]
    · rw [hIncomplete, hOther _ (by decide)]
    · exact count_outcomes "cost_increase"
    · exact count_outcomes "unchanged"
    · unfold aggregate
      dsimp only
      split_ifs with hEmpty
      · rw [List.isEmpty_iff.mp hEmpty]
        simp
      · rfl
    · rwa [hSavings, abs_neg]

def openEntry : BillingEntry where
  registry := fun _ => none
  run := some ⟨.executing, none, none, []⟩
  explicitReferenceModelId := none
  platformFeePct := .undefined
  bare := false

def bareEntry : BillingEntry where
  registry := twoModels
  run := some ⟨.completed, some "large", none, [⟨createModelCallRecord ⟨true, none,
    ⟨some 1000, some 500, none, none⟩, none, some (1 / 1000), none, none⟩, some 1,
    some "Provider Z", some "small", some largePricing⟩]⟩
  explicitReferenceModelId := none
  platformFeePct := .undefined
  bare := true

/-- The unfinished run is in no count, and the savings of the bare result in no sum. -/
theorem run_in_no_count :
    ¬ Partitioned [openEntry] (aggregate ([openEntry].map BillingEntry.input)) ∧
      ¬ Partitioned [bareEntry] (aggregate ([bareEntry].map BillingEntry.input)) := by
  constructor
  · intro h
    exact absurd h.total (by decide +kernel)
  · intro h
    exact absurd h.savings (by decide +kernel)

end Partition

end OrchestraAI.Economics
