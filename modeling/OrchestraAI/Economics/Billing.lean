import OrchestraAI.Economics.Savings

/-! # Billing

`fromSavings` and `aggregate` of `billing.js`, without periods and dates, and what they
make of results whose economics are unknown.
-/

namespace OrchestraAI.Economics

/-- The object that `fromSavings` reads. -/
structure SavingsInput where
  status : Option String
  calculationStatus : Option String
  economicOutcome : Option String
  economicsStatus : Option String
  invoiceStatus : Option String
  baselineCost : Field
  actualCost : Field
  savings : Field
  eligibleSavings : Field
  platformFeePct : Field
  platformFee : Field
  customerFinalCost : Field
  customerNetSavings : Field

def SavingsResult.asInput (r : SavingsResult) : SavingsInput where
  status := some r.status.text
  calculationStatus := some r.calculationStatus
  economicOutcome := r.economicOutcome
  economicsStatus := some r.economicsStatus
  invoiceStatus := some r.invoiceStatus
  baselineCost := .ofNullable r.baselineCost
  actualCost := .ofNullable r.actualCost
  savings := .ofNullable r.savings
  eligibleSavings := .value (some r.eligibleSavings)
  platformFeePct := .value (some r.platformFeePct)
  platformFee := .value (some r.platformFee)
  customerFinalCost := .ofNullable r.customerFinalCost
  customerNetSavings := .ofNullable r.customerNetSavings

structure BillingLine where
  status : String
  calculationStatus : String
  economicOutcome : Option String
  economicsStatus : String
  invoiceStatus : String
  baselineCost : Option ℚ
  optimizedProviderCost : Option ℚ
  eligibleSavings : Option ℚ
  modeledSavings : Option ℚ
  platformFeePct : ℚ
  platformFee : Option ℚ
  customerFinalCost : Option ℚ
  customerNetSavings : Option ℚ

def lineStatus (result : SavingsInput) : String :=
  match result.calculationStatus with
  | some "verified_modeled" => "verified_modeled"
  | some "insufficient_data" => "insufficient_data"
  | some "incomplete" => "incomplete"
  | _ =>
    if result.status = some "incomplete_run" then "incomplete"
    else if result.status = some "insufficient_pricing_data" then "insufficient_data"
    else "verified_modeled"

def fromSavings (result : SavingsInput) : BillingLine :=
  let fee := result.platformFee.toNumber
  let actual := result.actualCost.toNumber
  let finalCost :=
    match result.customerFinalCost.toNumber, actual, fee with
    | some n, _, _ => some n
    | none, some a, some f => some (a + f)
    | none, _, _ => none
  let calculationStatus := lineStatus result
  let modeledSavings := result.savings.toNumber
  { status := orText result.status "insufficient_pricing_data"
    calculationStatus := calculationStatus
    economicOutcome := (Recovery.truthy result.economicOutcome).or
      (if calculationStatus = "verified_modeled" then
        modeledSavings.map fun n =>
          if 0 < n then "saved" else if n < 0 then "cost_increase" else "unchanged"
      else none)
    economicsStatus := orText result.economicsStatus "not_eligible"
    invoiceStatus := orText result.invoiceStatus "not_invoice_reconciled"
    baselineCost := result.baselineCost.toNumber
    optimizedProviderCost := actual
    eligibleSavings := result.eligibleSavings.toNumber
    modeledSavings := modeledSavings
    platformFeePct := result.platformFeePct.toNumber.getD 0
    platformFee := fee
    customerFinalCost := finalCost.map round6
    customerNetSavings :=
      match result.customerNetSavings.toNumber, result.baselineCost.toNumber, finalCost with
      | some n, _, _ => some n
      | none, some b, some f => some (round6 (b - f))
      | none, _, _ => none }

structure DataQuality where
  verifiedCount : Nat
  insufficientCount : Nat
  incompleteCount : Nat
  noSavingsCount : Nat
  costIncreaseCount : Nat
  coverageRate : ℚ

structure BillingAggregate where
  runCount : Nat
  baselineCost : Option ℚ
  optimizedProviderCost : Option ℚ
  eligibleSavings : Option ℚ
  platformFee : Option ℚ
  customerFinalCost : Option ℚ
  customerNetSavings : Option ℚ
  savingsRate : Option ℚ
  dataQuality : DataQuality
  positiveModeledSavings : ℚ
  negativeModeledImpact : ℚ
  lineItems : List BillingLine

/-- The closure `sum`. -/
def sumOf (rows : List BillingLine) (key : BillingLine → Option ℚ) : Option ℚ :=
  let values := rows.filterMap fun row => (Field.ofNullable (key row)).toNumber
  if values.isEmpty then none else some (round6 values.sum)

/-- `aggregate` of what `entry.savings || entry` is for each entry. -/
def aggregate (entries : List SavingsInput) : BillingAggregate :=
  let rows := entries.map fromSavings
  let sum := sumOf rows
  let count := fun status : String => rows.countP fun row => row.calculationStatus = status
  let verifiedCount := count "verified_modeled"
  { runCount := rows.length
    baselineCost := sum (·.baselineCost)
    optimizedProviderCost := sum (·.optimizedProviderCost)
    eligibleSavings := sum (·.eligibleSavings)
    platformFee := sum (·.platformFee)
    customerFinalCost := sum (·.customerFinalCost)
    customerNetSavings := sum (·.customerNetSavings)
    savingsRate :=
      match sum (·.baselineCost), sum (·.eligibleSavings) with
      | some baseline, some eligible =>
        if 0 < baseline then some (round6 (eligible / baseline)) else none
      | _, _ => none
    dataQuality :=
      { verifiedCount := verifiedCount
        insufficientCount := count "insufficient_pricing_data"
        incompleteCount := count "incomplete_run"
        noSavingsCount := rows.countP fun row => row.economicOutcome = some "unchanged"
        costIncreaseCount := rows.countP fun row => row.economicOutcome = some "cost_increase"
        coverageRate := if rows.isEmpty then 0 else round6 (verifiedCount / rows.length) }
    positiveModeledSavings := round6 (rows.map fun row => max 0 (row.modeledSavings.getD 0)).sum
    negativeModeledImpact := round6 (rows.map fun row => min 0 (row.modeledSavings.getD 0)).sum
    lineItems := rows }

/-- `insufficient_data` or `incomplete`. -/
def unknownStatus (calculationStatus : String) : Bool :=
  calculationStatus = "insufficient_data" || calculationStatus = "incomplete"

def SavingsResult.amounts (r : SavingsResult) : List (Option ℚ) :=
  [r.baselineCost, r.actualCost, r.savings, r.customerFinalCost, r.customerNetSavings]

def BillingLine.amounts (l : BillingLine) : List (Option ℚ) :=
  [l.baselineCost, l.optimizedProviderCost, l.modeledSavings, l.customerFinalCost,
    l.customerNetSavings]

def BillingAggregate.sums (a : BillingAggregate) : List (Option ℚ) :=
  [a.baselineCost, a.optimizedProviderCost, a.customerFinalCost, a.customerNetSavings]

structure UnknownResult where
  registry : ModelRegistry
  run : Option RunUsage
  explicitReferenceModelId : Option String
  platformFeePct : Field
  unknown : unknownStatus (calculateSavingsForRun registry run explicitReferenceModelId
    platformFeePct).calculationStatus = true

def UnknownResult.result (u : UnknownResult) : SavingsResult :=
  calculateSavingsForRun u.registry u.run u.explicitReferenceModelId u.platformFeePct

@[simp] theorem toNumber_ofNullable (value : Option ℚ) :
    (Field.ofNullable value).toNumber = some (value.getD 0) := by
  cases value <;> rfl

@[simp] theorem round6_zero : round6 0 = 0 := RoundedGrid.toGrid_zero 1000000

theorem unknownStatus_addBillingFields (c : Calculated) (fee : Field) :
    unknownStatus (addBillingFields c fee).calculationStatus = true ↔ c.status.Unknown := by
  change unknownStatus (calculationStatusOf c.status) = true ↔ _
  unfold SavingsStatus.Unknown
  cases c.status <;> decide

theorem totalsResult_known (reference : ReferenceModel) (t : Totals) :
    ¬ (totalsResult reference t).status.Unknown := by
  unfold totalsResult determineSavingsStatus SavingsStatus.Unknown
  simp only
  split_ifs <;> decide

namespace UnknownResult

variable (u : UnknownResult)

theorem result_eq : ∃ status reference error, status.Unknown ∧
    u.result = addBillingFields (withoutAmounts status reference error) u.platformFeePct := by
  obtain h | ⟨_, reference, _, totals, _, _, h⟩ := calculateSavingsForRun_cases u.registry u.run
    u.explicitReferenceModelId u.platformFeePct
  · exact h
  · have hUnknown := u.unknown
    rw [h, unknownStatus_addBillingFields] at hUnknown
    exact absurd hUnknown (totalsResult_known reference totals)

theorem amounts_zero : u.result.amounts = List.replicate 5 (some 0) := by
  obtain ⟨status, reference, error, hStatus, h⟩ := u.result_eq
  rw [h]
  obtain rfl | rfl := hStatus <;>
    simp [SavingsResult.amounts, addBillingFields, withoutAmounts, amount]

theorem line_amounts_zero : (fromSavings u.result.asInput).amounts = List.replicate 5 (some 0) := by
  have h := u.amounts_zero
  simp only [SavingsResult.amounts, List.replicate, List.cons.injEq, and_true] at h
  obtain ⟨hBaseline, hActual, hSavings, hFinal, hNet⟩ := h
  simp [BillingLine.amounts, fromSavings, SavingsResult.asInput, hBaseline, hActual, hSavings,
    hFinal, hNet]

end UnknownResult

abbrev Entry := UnknownResult ⊕ SavingsInput

def Entry.input : Entry → SavingsInput
  | .inl u => u.result.asInput
  | .inr input => input

def withoutUnknown (entries : List Entry) : List Entry := entries.filter fun e => e.isRight

def aggregateOf (entries : List Entry) : BillingAggregate := aggregate (entries.map Entry.input)

theorem sumOf_eq (rows : List BillingLine) (key : BillingLine → Option ℚ) :
    sumOf rows key =
      if rows = [] then none else some (round6 (rows.map fun row => (key row).getD 0).sum) := by
  have hValues : (rows.filterMap fun row => (Field.ofNullable (key row)).toNumber) =
      rows.map fun row => (key row).getD 0 := by
    simp only [toNumber_ofNullable]
    exact congrFun List.filterMap_eq_map rows
  unfold sumOf
  rw [hValues]
  simp only [List.isEmpty_iff, List.map_eq_nil_iff]

/-- A key whose value is zero in the lines of the unknown results has the same total without
them. -/
theorem total_withoutUnknown {key : BillingLine → Option ℚ}
    (hKey : ∀ u : UnknownResult, key (fromSavings u.result.asInput) = some 0)
    (entries : List Entry) :
    ((withoutUnknown entries).map fun e => (key (fromSavings e.input)).getD 0).sum =
      (entries.map fun e => (key (fromSavings e.input)).getD 0).sum := by
  induction entries with
  | nil => rfl
  | cons e entries ih =>
    cases e with
    | inl u =>
      simp only [withoutUnknown, List.map_cons, List.sum_cons, Entry.input, hKey u,
        Option.getD_some, zero_add]
      exact ih
    | inr input =>
      have hCons : withoutUnknown (.inr input :: entries) =
          .inr input :: withoutUnknown entries := rfl
      rw [hCons, List.map_cons, List.sum_cons, List.map_cons, List.sum_cons, ih]

theorem sumOf_entries (key : BillingLine → Option ℚ) (entries : List Entry) :
    sumOf ((entries.map Entry.input).map fromSavings) key =
      if entries = [] then none
      else some (round6 (entries.map fun e => (key (fromSavings e.input)).getD 0).sum) := by
  rw [sumOf_eq]
  simp only [List.map_map, List.map_eq_nil_iff]
  rfl

theorem sum_withoutUnknown {key : BillingLine → Option ℚ}
    (hKey : ∀ u : UnknownResult, key (fromSavings u.result.asInput) = some 0)
    (entries : List Entry) :
    sumOf ((entries.map Entry.input).map fromSavings) key =
        sumOf (((withoutUnknown entries).map Entry.input).map fromSavings) key ↔
      withoutUnknown entries ≠ [] ∨ entries = [] := by
  rw [sumOf_entries, sumOf_entries, total_withoutUnknown hKey]
  by_cases hEntries : entries = []
  · subst hEntries
    simp [withoutUnknown]
  · rw [if_neg hEntries]
    split
    · rename_i hNone
      simp [hNone, hEntries]
    · rename_i hSome
      simp [hSome]

/-- A result with unknown economics and its billing line carry zeros; the sums of an aggregate
are those without such results exactly when an entry is left or there was none. -/
theorem unknown_amounts_are_zero (u : UnknownResult) (entries : List Entry) :
    (u.result.amounts = List.replicate 5 (some 0) ∧
      (fromSavings u.result.asInput).amounts = List.replicate 5 (some 0)) ∧
    ((aggregateOf entries).sums = (aggregateOf (withoutUnknown entries)).sums ↔
      withoutUnknown entries ≠ [] ∨ entries = []) := by
  refine ⟨⟨u.amounts_zero, u.line_amounts_zero⟩, ?_⟩
  have hLine (u : UnknownResult) := u.line_amounts_zero
  simp only [BillingLine.amounts, List.replicate, List.cons.injEq, and_true] at hLine
  simp only [BillingAggregate.sums, aggregateOf, aggregate, List.cons.injEq, and_true]
  rw [sum_withoutUnknown (fun u => (hLine u).1) entries,
    sum_withoutUnknown (fun u => (hLine u).2.1) entries,
    sum_withoutUnknown (fun u => (hLine u).2.2.2.1) entries,
    sum_withoutUnknown (fun u => (hLine u).2.2.2.2) entries]
  simp only [and_self]

def openRun : UnknownResult where
  registry := fun _ => none
  run := some ⟨.executing, none, none, []⟩
  explicitReferenceModelId := none
  platformFeePct := .undefined
  unknown := by decide +kernel

/-- The unfinished run costs nothing, and so does the aggregate of it alone. -/
theorem unknown_becomes_zero :
    ¬ ((∀ u : UnknownResult, u.result.amounts = List.replicate 5 none ∧
        (fromSavings u.result.asInput).amounts = List.replicate 5 none) ∧
      ∀ entries : List Entry,
        (aggregateOf entries).sums = (aggregateOf (withoutUnknown entries)).sums) := by
  rintro ⟨hResults, -⟩
  have hCost : openRun.result.baselineCost = none := (List.cons.inj (hResults openRun).1).1
  exact absurd hCost (by decide +kernel)

end OrchestraAI.Economics
