import OrchestraAI.Execution.CallsOnce
import OrchestraAI.Execution.ToolGate

/-! # A registry record that widens the gate

The canonical risk is laid over a record only where the record has none, and both ways of seeding the
registry give a record one. The flags are always laid over it.
-/

namespace OrchestraAI.Execution

def GateNeed.reach : GateNeed → Nat
  | .denied => 0
  | .approval => 1
  | .free => 2

def GateAnswer.reach : GateAnswer → Nat
  | .refused => 0
  | .allowed (some _) => 1
  | .allowed none => 2

namespace ToolGate

section Risk

variable {base : String} {rules : List (Bool × String)}

def raisedLevels : List String := ["MEDIUM", "HIGH", "CRITICAL"]

def highest : List (Bool × String) → Nat
  | [] => 0
  | r :: rules => max (if r.1 then (rank r.2).getD 0 else 0) (highest rules)

def Quiet (rules : List (Bool × String)) : Prop := ∀ r ∈ rules, r.1 = false

theorem raises_levels {name : String} {p : Json} {n : Nat} : ∀ r ∈ raises name p n, r.2 ∈ raisedLevels := by
  simp [raises, raisedLevels]

theorem rank_level {level : String} (h : level ∈ raisedLevels) :
    ∃ n, 0 < n ∧ rank level = some n := by
  simp only [raisedLevels, List.mem_cons, List.not_mem_nil, or_false] at h
  rcases h with rfl | rfl | rfl
  · exact ⟨1, by decide, by decide⟩
  · exact ⟨2, by decide, by decide⟩
  · exact ⟨3, by decide, by decide⟩

theorem raise_eq_low_iff {r : Bool × String} (hLevel : r.2 ∈ raisedLevels) :
    raise base r = "LOW" ↔ base = "LOW" ∧ r.1 = false := by
  obtain ⟨n, hPos, hOrder⟩ := rank_level hLevel
  have hLow : rank "LOW" = some 0 := by decide
  have hNot : r.2 ≠ "LOW" := by
    intro h
    rw [h, hLow] at hOrder
    cases hOrder
    exact absurd hPos (Nat.lt_irrefl 0)
  cases hFires : r.1 with
  | false => simp [raise, hFires]
  | true =>
    constructor
    · intro h
      rw [raise, hFires, Bool.true_and] at h
      split at h
      · exact absurd h hNot
      · rename_i hExceeds
        rw [h, exceeds, hOrder, hLow] at hExceeds
        exact absurd (decide_eq_true hPos) hExceeds
    · rintro ⟨-, h⟩
      cases h

theorem foldl_raise_eq_low_iff (hLevels : ∀ r ∈ rules, r.2 ∈ raisedLevels) :
    rules.foldl raise base = "LOW" ↔ base = "LOW" ∧ Quiet rules := by
  induction rules generalizing base with
  | nil => simp [Quiet]
  | cons r rules ih =>
    obtain ⟨hLevel, hLevels⟩ := List.forall_mem_cons.mp hLevels
    rw [List.foldl_cons, ih hLevels, raise_eq_low_iff hLevel, Quiet, Quiet, List.forall_mem_cons,
      and_assoc]

theorem foldl_raise_ne_empty (hLevels : ∀ r ∈ rules, r.2 ∈ raisedLevels) (hBase : base ≠ "") :
    rules.foldl raise base ≠ "" := by
  induction rules generalizing base with
  | nil => exact hBase
  | cons r rules ih =>
    obtain ⟨hLevel, hLevels⟩ := List.forall_mem_cons.mp hLevels
    apply ih hLevels
    rw [raise]
    split
    · intro h
      rw [h] at hLevel
      exact absurd hLevel (by decide)
    · exact hBase

theorem rank_foldl {m : Nat} (hLevels : ∀ r ∈ rules, r.2 ∈ raisedLevels)
    (hBase : rank base = some m) :
    rank (rules.foldl raise base) = some (max m (highest rules)) := by
  induction rules generalizing base m with
  | nil => rw [highest, Nat.max_zero]; exact hBase
  | cons r rules ih =>
    obtain ⟨hLevel, hLevels⟩ := List.forall_mem_cons.mp hLevels
    obtain ⟨n, -, hOrder⟩ := rank_level hLevel
    have hRaised : rank (raise base r) = some (max m (if r.1 then n else 0)) := by
      cases hFires : r.1 with
      | false => simpa [raise, hFires] using hBase
      | true =>
        rw [raise, hFires, Bool.true_and, exceeds, hOrder, hBase]
        by_cases hExceeds : m < n
        · simpa [hExceeds] using hOrder.trans (congrArg some (max_eq_right hExceeds.le).symm)
        · simpa [hExceeds] using hBase.trans (congrArg some (max_eq_left (not_lt.mp hExceeds)).symm)
    rw [List.foldl_cons, ih hLevels hRaised, highest, hOrder, Option.getD_some, max_assoc]

theorem highest_eq_zero_iff (hLevels : ∀ r ∈ rules, r.2 ∈ raisedLevels) :
    highest rules = 0 ↔ Quiet rules := by
  induction rules with
  | nil => simp [highest, Quiet]
  | cons r rules ih =>
    obtain ⟨hLevel, hLevels⟩ := List.forall_mem_cons.mp hLevels
    obtain ⟨n, hPos, hOrder⟩ := rank_level hLevel
    rw [highest, Nat.max_eq_zero_iff, ih hLevels, hOrder, Option.getD_some, Quiet, Quiet,
      List.forall_mem_cons]
    cases r.1 with
    | false => simp
    | true => simp [Nat.ne_of_gt hPos]

theorem riskOrder_of_rank {a : String} {m : Nat} (h : rank a = some m) : riskOrder a = m :=
  Option.some.inj (Option.ite_none_left_eq_some.mp h).2

theorem exceeds_iff {a b : String} :
    exceeds a b = true ↔ ∃ m n, rank a = some m ∧ rank b = some n ∧ n < m := by
  rw [exceeds]
  cases rank a <;> cases rank b <;> simp

end Risk

section Overlay

variable {toolName : String} {r : RegistryRecord} {d : ToolDefinition}

theorem canonical_spec (h : canonical toolName = some d) : d ∈ toolDefinitions ∧ d.name = toolName :=
  ⟨List.mem_of_find?_eq_some h, by simpa using List.find?_some h⟩

def wellDefined (d : ToolDefinition) : Bool :=
  d.riskLevel ∈ "LOW" :: raisedLevels &&
    (d.riskLevel ∉ ["HIGH", "CRITICAL"] || d.requiresApproval) &&
    (d.riskLevel ≠ "LOW" || !d.requiresApproval) && gatedDefinition d.name d.seedOne = d

theorem toolDefinitions_wellDefined : toolDefinitions.all wellDefined = true := by decide +kernel

theorem wellDefined_of_canonical (h : canonical toolName = some d) : wellDefined d = true :=
  List.all_eq_true.mp toolDefinitions_wellDefined d (canonical_spec h).1

theorem gatedDefinition_seedOne (h : canonical toolName = some d) : gatedDefinition toolName d.seedOne = d := by
  have hWell := wellDefined_of_canonical h
  rw [← (canonical_spec h).2]
  simp only [wellDefined, Bool.and_eq_true, decide_eq_true_eq] at hWell
  exact hWell.2

theorem riskLevel_levels (h : canonical toolName = some d) : d.riskLevel ∈ "LOW" :: raisedLevels := by
  have hWell := wellDefined_of_canonical h
  simp only [wellDefined, Bool.and_eq_true, decide_eq_true_eq] at hWell
  exact hWell.1.1.1

theorem requiresApproval_of_high (h : canonical toolName = some d)
    (hHigh : d.riskLevel ∈ ["HIGH", "CRITICAL"]) : d.requiresApproval = true := by
  have hWell := wellDefined_of_canonical h
  simp only [wellDefined, Bool.and_eq_true, Bool.or_eq_true, decide_eq_true_eq] at hWell
  exact hWell.1.1.2.resolve_left fun hNot => hNot hHigh

theorem riskLevel_of_required (h : canonical toolName = some d) (hRequired : d.requiresApproval = true) :
    d.riskLevel ∈ raisedLevels := by
  have hWell := wellDefined_of_canonical h
  simp only [wellDefined, Bool.and_eq_true, Bool.or_eq_true, decide_eq_true_eq, hRequired,
    Bool.not_true, Bool.false_eq_true, or_false] at hWell
  exact (List.mem_cons.mp (riskLevel_levels h)).resolve_left hWell.1.2

theorem gatedDefinition_eq (h : canonical toolName = some d) :
    gatedDefinition toolName r = overlay r (normalizeDefinition toolName r) d := by
  rw [gatedDefinition, h]

theorem orElse_eq_given (value : Option String) (fallback : String) :
    orElse value fallback = (given value).getD fallback := by
  cases value with
  | none => rfl
  | some s => by_cases h : s = "" <;> simp [orElse, given, Option.filter_some, h]

theorem inferRisk_levels (name : String) (permissions : List String) :
    inferRisk name permissions ∈ ["LOW", "MEDIUM", "HIGH"] := by
  rw [inferRisk]
  split
  · decide
  · split <;> decide

def LowerRisk (toolName : String) (r : RegistryRecord) (d : ToolDefinition) : Prop :=
  exceeds d.riskLevel (normalizeDefinition toolName r).riskLevel = true

theorem rank_le_one {k : Nat} (h : canonical toolName = some d) (hOrder : rank d.riskLevel = some k)
    (hFree : d.requiresApproval = false) : k ≤ 1 := by
  have hLevels := riskLevel_levels h
  have hHigh : d.riskLevel ∉ ["HIGH", "CRITICAL"] := by
    intro hHigh
    rw [requiresApproval_of_high h hHigh] at hFree
    cases hFree
  simp only [raisedLevels, List.mem_cons, List.not_mem_nil, or_false, not_or] at hLevels hHigh
  rcases hLevels with hRisk | hRisk | hRisk | hRisk
  · rw [hRisk, show rank "LOW" = some 0 by decide] at hOrder
    cases hOrder
    exact Nat.zero_le 1
  · rw [hRisk, show rank "MEDIUM" = some 1 by decide] at hOrder
    cases hOrder
    exact Nat.le_refl 1
  · exact absurd hRisk hHigh.1
  · exact absurd hRisk hHigh.2

theorem riskLevel_of_missing (h : canonical toolName = some d) (hLower : LowerRisk toolName r d)
    (hMissing : given r.riskLevel = none) : (gatedDefinition toolName r).riskLevel = d.riskLevel := by
  rw [gatedDefinition_eq h]
  simp only [overlay, hMissing, Option.isNone_none, Bool.true_and]
  exact if_pos hLower

theorem riskLevel_of_given {risk : String} (h : canonical toolName = some d)
    (hGiven : given r.riskLevel = some risk) :
    (gatedDefinition toolName r).riskLevel = risk ∧
      (normalizeDefinition toolName r).riskLevel = risk := by
  have hNormal : (normalizeDefinition toolName r).riskLevel = risk := by
    simp only [normalizeDefinition, orElse_eq_given, hGiven, Option.getD_some]
  rw [gatedDefinition_eq h]
  refine ⟨?_, hNormal⟩
  simp only [overlay, hGiven, Option.isNone_some, Bool.false_and]
  exact hNormal

theorem given_eq_some_iff {value : Option String} {s : String} :
    given value = some s ↔ value = some s ∧ s ≠ "" := by
  simp [given, Option.filter_eq_some_iff]

theorem riskLevel_eq_low (h : canonical toolName = some d) (hLevel : d.riskLevel ∈ raisedLevels)
    (hLow : (gatedDefinition toolName r).riskLevel = "LOW") : r.riskLevel = some "LOW" := by
  obtain ⟨n, hPos, hOrder⟩ := rank_level hLevel
  cases hGiven : given r.riskLevel with
  | some risk =>
    rw [(riskLevel_of_given h hGiven).1] at hLow
    rw [hLow] at hGiven
    exact (given_eq_some_iff.mp hGiven).1
  | none =>
    exfalso
    rw [gatedDefinition_eq h] at hLow
    simp only [overlay, hGiven, Option.isNone_none, Bool.true_and] at hLow
    split at hLow
    · rw [hLow] at hLevel
      exact absurd hLevel (by decide)
    · rename_i hLower
      apply hLower
      rw [hLow, exceeds_iff]
      exact ⟨n, 0, hOrder, by decide, hPos⟩

end Overlay

section Need

variable {g : GateContext} {toolName risk : String} {r : RegistryRecord} {d e : ToolDefinition}
  {params : Json}

def Free (mode : String) (requiresApproval : Bool) (risk : String) : Prop :=
  mode = "AUTO_APPROVE_LOW" ∧ risk = "LOW" ∨
    requiresApproval = false ∧ (mode = "APPROVE_WRITES" ∧ riskOrder risk < 1 ∨
      mode = "APPROVE_DANGEROUS" ∧ riskOrder risk < 2)

theorem asks_eq_false_iff {policy : ExecutionPolicy} (hRisk : risk ≠ "") :
    asks policy d risk = false ↔ Free policy.mode d.requiresApproval risk := by
  have hSame : orElse (some risk) (orElse (some d.riskLevel) "LOW") = risk := if_neg hRisk
  have hMedium : riskOrder "MEDIUM" = 1 := rfl
  have hHigh : riskOrder "HIGH" = 2 := rfl
  rw [asks, needsApproval, hSame, hMedium, hHigh]
  cases d.requiresApproval <;> simp only [Free, ExecutionPolicy.mode] <;> split_ifs <;> simp_all
  all_goals omega

theorem needOf_eq_free_iff : needOf g toolName d params = .free ↔
    refuses g toolName d params = false ∧
      ∃ risk, classifyRisk d params = some risk ∧ asks g.policy d risk = false := by
  rw [needOf]
  cases refuses g toolName d params <;> cases classifyRisk d params <;> simp

theorem needOf_eq_denied_iff : needOf g toolName d params = .denied ↔
    refuses g toolName d params = true ∨ classifyRisk d params = none := by
  rw [needOf]
  cases refuses g toolName d params with
  | true => simp
  | false =>
    cases classifyRisk d params with
    | none => simp
    | some risk =>
      cases hNeeds : asks g.policy d risk <;> simp [hNeeds]

variable {n : Nat}

theorem orElse_low {risk : String} (h : risk ≠ "") : orElse (some risk) "LOW" = risk := if_neg h

/-- Where the record has a lower risk, and no approval is asked for but would be by the canonical
definition. -/
theorem freed_iff (h : canonical toolName = some d) (hLower : LowerRisk toolName r d)
    {rules : List (Bool × String)} (hLevels : ∀ r ∈ rules, r.2 ∈ raisedLevels) {mode : String} :
    (Free mode (gatedDefinition toolName r).requiresApproval
        (rules.foldl raise (gatedDefinition toolName r).riskLevel) ∧
      ¬ Free mode d.requiresApproval (rules.foldl raise d.riskLevel)) ↔
    (given r.riskLevel).isSome ∧ Quiet rules ∧
      (mode = "AUTO_APPROVE_LOW" ∧ r.riskLevel = some "LOW" ∨
        mode = "APPROVE_WRITES" ∧ r.requiresApproval = false ∧ d.requiresApproval = false) := by
  obtain ⟨k, m, hk, hm, hLess⟩ := exceeds_iff.mp hLower
  have hRequires : (gatedDefinition toolName r).requiresApproval = false ↔
      r.requiresApproval = false ∧ d.requiresApproval = false := by
    rw [gatedDefinition_eq h]
    exact Bool.or_eq_false_iff
  have hOrder := rank_foldl hLevels hk
  have hMost := rank_le_one h hk
  have hNotLow : rules.foldl raise d.riskLevel ≠ "LOW" := by
    intro hLow
    have hZero : some 0 = some (max k (highest rules)) := by rw [← hOrder, hLow]; decide
    have := Option.some.inj hZero
    omega
  have hSame := riskOrder_of_rank hOrder
  cases hGiven : given r.riskLevel with
  | none =>
    rw [riskLevel_of_missing h hLower hGiven]
    constructor
    · rintro ⟨⟨-, hLow⟩ | ⟨hFlags, hMode⟩, hNot⟩
      · exact absurd hLow hNotLow
      · exact absurd (.inr ⟨(hRequires.mp hFlags).2, hMode⟩) hNot
    · rintro ⟨hSome, -⟩
      cases hSome
  | some risk =>
    obtain ⟨hGated, hNormal⟩ := riskLevel_of_given h hGiven
    rw [hNormal] at hm
    rw [hGated]
    have hRaised := riskOrder_of_rank (rank_foldl hLevels hm)
    constructor
    · rintro ⟨⟨hMode, hLow⟩ | ⟨hFlags, ⟨hMode, hNone⟩ | ⟨hMode, hNone⟩⟩, hNot⟩
      · obtain ⟨rfl, hQuiet⟩ := (foldl_raise_eq_low_iff hLevels).mp hLow
        exact ⟨rfl, hQuiet, .inl ⟨hMode, (given_eq_some_iff.mp hGiven).1⟩⟩
      · rw [hRaised] at hNone
        have hQuiet := (highest_eq_zero_iff hLevels).mp (by omega)
        exact ⟨rfl, hQuiet, .inr ⟨hMode, hRequires.mp hFlags⟩⟩
      · rw [hRaised] at hNone
        have hFlag := (hRequires.mp hFlags).2
        have hLeast := hMost hFlag
        refine absurd (.inr ⟨hFlag, .inr ⟨hMode, ?_⟩⟩) hNot
        rw [hSame]
        omega
    · rintro ⟨-, hQuiet, ⟨rfl, hLow⟩ | ⟨rfl, hFlags⟩⟩
      · obtain rfl : "LOW" = risk := Option.some.inj (hLow.symm.trans (given_eq_some_iff.mp hGiven).1)
        refine ⟨.inl ⟨rfl, (foldl_raise_eq_low_iff hLevels).mpr ⟨rfl, hQuiet⟩⟩, ?_⟩
        rintro (⟨-, hLow⟩ | ⟨-, ⟨hMode, -⟩ | ⟨hMode, -⟩⟩)
        · exact hNotLow hLow
        · exact absurd hMode (by decide)
        · exact absurd hMode (by decide)
      · have hZero := (highest_eq_zero_iff hLevels).mpr hQuiet
        have hLeast := hMost hFlags.2
        constructor
        · refine .inr ⟨hRequires.mpr hFlags, .inl ⟨rfl, ?_⟩⟩
          rw [hRaised]
          omega
        · rintro (⟨hMode, -⟩ | ⟨-, ⟨-, hNone⟩ | ⟨hMode, -⟩⟩)
          · exact absurd hMode (by decide)
          · rw [hSame] at hNone
            omega
          · exact absurd hMode (by decide)

/-- The canonical definition refuses what the record lets pass just if the record hides a
deployment. -/
theorem refuses_canonical_iff (h : canonical toolName = some d)
    (hPasses : refuses g toolName (gatedDefinition toolName r) params = false) :
    refuses g toolName d params = true ↔ d.category = "deployment" ∧ g.policy.allowDeploy = false := by
  have hDisabled : d.disabled = true → (gatedDefinition toolName r).disabled = true := by
    intro hDisabled
    rw [gatedDefinition_eq h]
    exact Bool.or_eq_true_iff.mpr (.inr hDisabled)
  simp only [refuses, Bool.or_eq_false_iff] at hPasses
  obtain ⟨⟨⟨hProduction, hRun⟩, hPolicy⟩, hConstraints⟩ := hPasses
  simp only [refuses, hProduction, hRun, hConstraints, Bool.false_or, Bool.or_false]
  simp only [isToolAllowedByPolicy] at hPolicy ⊢
  split_ifs at hPolicy ⊢ <;> simp_all

/-- The record lets a call pass that the canonical definition would refuse, or frees one that would
need an approval. -/
def Widened (g : GateContext) (toolName : String) (r : RegistryRecord) (params : Json) : Prop :=
  ∃ d n, canonical toolName = some d ∧ LowerRisk toolName r d ∧
    refuses g toolName (gatedDefinition toolName r) params = false ∧
    chars toolName (orEmpty (some params)) = some n ∧
    (d.category = "deployment" ∧ g.policy.allowDeploy = false ∨
      (given r.riskLevel).isSome ∧ Quiet (raises toolName (orEmpty (some params)) n) ∧
        (g.policy.mode = "AUTO_APPROVE_LOW" ∧ r.riskLevel = some "LOW" ∨
          g.policy.mode = "APPROVE_WRITES" ∧ r.requiresApproval = false ∧ d.requiresApproval = false))

theorem gatedDefinition_name (toolName : String) (r : RegistryRecord) :
    (gatedDefinition toolName r).name = toolName := by
  rw [gatedDefinition]
  split <;> rfl

theorem canonical_ne_empty (h : canonical toolName = some d) : d.riskLevel ≠ "" := by
  intro hEmpty
  have hLevels := riskLevel_levels h
  rw [hEmpty] at hLevels
  exact absurd hLevels (by decide)

theorem gated_ne_empty (h : canonical toolName = some d) : (gatedDefinition toolName r).riskLevel ≠ "" := by
  rw [gatedDefinition_eq h]
  simp only [overlay, normalizeDefinition, orElse_eq_given]
  split
  · exact canonical_ne_empty h
  · cases hGiven : given r.riskLevel with
    | some risk => exact (given_eq_some_iff.mp hGiven).2
    | none =>
      intro hEmpty
      have hLevels := inferRisk_levels toolName r.permissions
      rw [Option.getD_none] at hEmpty
      rw [hEmpty] at hLevels
      exact absurd hLevels (by decide)

theorem needOf_eq {n : Nat} (hName : d.name = toolName) (hRisk : d.riskLevel ≠ "")
    (hPasses : refuses g toolName d params = false)
    (hChars : chars toolName (orEmpty (some params)) = some n) :
    needOf g toolName d params = .approval ∧
        ¬ Free g.policy.mode d.requiresApproval
          ((raises toolName (orEmpty (some params)) n).foldl raise d.riskLevel) ∨
      needOf g toolName d params = .free ∧
        Free g.policy.mode d.requiresApproval
          ((raises toolName (orEmpty (some params)) n).foldl raise d.riskLevel) := by
  have hClassify : classifyRisk d params =
      some ((raises toolName (orEmpty (some params)) n).foldl raise d.riskLevel) := by
    rw [classifyRisk, hName, hChars, orElse_low hRisk]
    rfl
  have hLevels : ∀ r ∈ raises toolName (orEmpty (some params)) n, r.2 ∈ raisedLevels := raises_levels
  have hFree : asks g.policy d _ = false ↔ _ := asks_eq_false_iff (foldl_raise_ne_empty hLevels hRisk)
  rw [← hFree, needOf, hPasses, hClassify]
  cases hNeeds : asks g.policy d ((raises toolName (orEmpty (some params)) n).foldl raise d.riskLevel) <;>
    simp [hNeeds]

theorem needOf_of_unread (hName : d.name = toolName)
    (hChars : chars toolName (orEmpty (some params)) = none) : needOf g toolName d params = .denied := by
  rw [needOf_eq_denied_iff, classifyRisk, hName, hChars]
  exact .inr rfl

theorem reach_lt_iff (h : canonical toolName = some d) (hLower : LowerRisk toolName r d) :
    (needOf g toolName d params).reach < (needOf g toolName (gatedDefinition toolName r) params).reach ↔
      Widened g toolName r params := by
  have hName := (canonical_spec h).2
  constructor
  · intro hLess
    have hNotDenied : needOf g toolName (gatedDefinition toolName r) params ≠ .denied := by
      intro hDenied
      rw [hDenied] at hLess
      exact absurd hLess (Nat.not_lt_zero _)
    have hPasses : refuses g toolName (gatedDefinition toolName r) params = false :=
      Bool.not_eq_true _ ▸ fun hRefuses => hNotDenied (needOf_eq_denied_iff.mpr (.inl hRefuses))
    cases hChars : chars toolName (orEmpty (some params)) with
    | none => exact absurd (needOf_of_unread (gatedDefinition_name toolName r) hChars) hNotDenied
    | some n =>
      refine ⟨d, n, h, hLower, hPasses, hChars, ?_⟩
      by_cases hRefuses : refuses g toolName d params = true
      · exact .inl ((refuses_canonical_iff h hPasses).mp hRefuses)
      · right
        rw [← freed_iff h hLower raises_levels]
        rcases needOf_eq hName (canonical_ne_empty h) (Bool.not_eq_true _ ▸ hRefuses) hChars with
          ⟨hNeed, hNot⟩ | ⟨hNeed, -⟩
        · rcases needOf_eq (gatedDefinition_name toolName r) (gated_ne_empty h) hPasses hChars with
            ⟨hGated, -⟩ | ⟨-, hFree⟩
          · rw [hNeed, hGated] at hLess
            exact absurd hLess (Nat.lt_irrefl _)
          · exact ⟨hFree, hNot⟩
        · rw [hNeed] at hLess
          cases hGated : needOf g toolName (gatedDefinition toolName r) params <;> rw [hGated] at hLess <;>
            exact absurd hLess (by decide)
  · rintro ⟨e, n, hCanonical, -, hPasses, hChars, hWhy⟩
    obtain rfl : d = e := Option.some.inj (h.symm.trans hCanonical)
    have hGated := needOf_eq (gatedDefinition_name toolName r) (gated_ne_empty h) hPasses hChars
    rcases hWhy with hHidden | hFreed
    · rw [needOf_eq_denied_iff.mpr (.inl ((refuses_canonical_iff h hPasses).mpr hHidden))]
      rcases hGated with ⟨hGated, -⟩ | ⟨hGated, -⟩ <;> rw [hGated] <;> decide
    · obtain ⟨hFree, hNot⟩ := (freed_iff h hLower raises_levels).mpr hFreed
      have hFull := (hGated.resolve_left fun hAsked => hAsked.2 hFree).1
      rw [hFull]
      cases hRefuses : refuses g toolName d params with
      | true =>
        rw [needOf_eq_denied_iff.mpr (.inl hRefuses)]
        decide
      | false =>
        have hAsked := needOf_eq hName (canonical_ne_empty h) hRefuses hChars
        rw [(hAsked.resolve_right fun hFreed => hNot hFreed.2).1]
        decide

end Need

section Answers

open ApprovalStore (Admits checkAndConsume_cases checkAndConsume_ok_iff)

variable {η : Type} {sha : Text → η} {clock : Nat → Int} {a b : ApprovalRun η} {c : ExecuteCall}
  {id newId : ApprovalId}

def Consumed (sha : Text → η) (clock : Nat → Int) (a b : ApprovalRun η) (c : ExecuteCall)
    (id : ApprovalId) : Prop :=
  ∃ r n, a.store.approvals.get id = some r ∧ Admits sha (clock n) c.action r ∧
    b.store.approvals.get id = some { r with consumed := true }

theorem sweep_eq_of_admits {r : Approval η} {t t' : Int} {act : GatedAction}
    (h : Admits sha t act (ApprovalStore.sweep t' r)) : ApprovalStore.sweep t' r = r := by
  unfold ApprovalStore.sweep at h ⊢
  split at h
  · cases h.approved
  · rename_i hStays
    exact if_neg hStays

variable [DecidableEq η]

theorem consume_ok {r' : Approval η} (h : consume sha clock a c id = (b, .ok r')) :
    Consumed sha clock a b c id := by
  obtain ⟨hRun, hResult⟩ := Prod.mk.inj h
  obtain ⟨t, result, hCall, ⟨-, e, rfl⟩ | ⟨r, hGet, ⟨-, -, ⟨e, rfl⟩, -⟩ | ⟨hStore, rfl, hAdmits⟩⟩⟩ :=
    checkAndConsume_cases sha clock a.store c.action id
  · rw [hCall] at hResult
    cases hResult
  · rw [hCall] at hResult
    cases hResult
  · rw [ApprovalStore.sweepExpired, OrderedMap.get_mapValues] at hGet
    obtain ⟨r₀, hHad, hSwept⟩ := Option.map_eq_some_iff.mp hGet
    rw [← hSwept] at hAdmits
    rw [← hSwept, sweep_eq_of_admits hAdmits] at hStore
    rw [sweep_eq_of_admits hAdmits] at hAdmits
    refine ⟨r₀, _, hHad, hAdmits, ?_⟩
    rw [← hRun, ApprovalRun.after, hCall, hStore]
    exact OrderedMap.get_set_self _ _ _

theorem Consumed.of_peek {act : GatedAction}
    (h : Consumed sha clock { a with store := (a.store.peek sha clock act).1 } b c id) :
    Consumed sha clock a b c id := by
  obtain ⟨r, n, hGet, hAdmits, hAfter⟩ := h
  rw [ApprovalStore.peek, ApprovalStore.sweepExpired, OrderedMap.get_mapValues] at hGet
  obtain ⟨r₀, hHad, rfl⟩ := Option.map_eq_some_iff.mp hGet
  have hSame := sweep_eq_of_admits hAdmits
  rw [hSame] at hAdmits hAfter
  exact ⟨r₀, n, hHad, hAdmits, hAfter⟩

theorem preGate_consumed {approval : Option ApprovalId}
    (h : preGate sha clock a c .approval newId = (b, .allowed approval)) :
    ∃ id, approval = some id ∧ Consumed sha clock a b c id := by
  unfold preGate at h
  dsimp only at h
  split at h
  · split at h
    · rename_i hConsume
      cases h
      exact ⟨_, rfl, consume_ok hConsume⟩
    · cases h
  · split at h
    · split at h
      · rename_i hConsume
        cases h
        exact ⟨_, rfl, (consume_ok hConsume).of_peek⟩
      · cases h
    · cases h

theorem preGate_reach_le (a : ApprovalRun η) (c : ExecuteCall) (need : GateNeed) (newId : ApprovalId) :
    (preGate sha clock a c need newId).2.reach ≤ need.reach := by
  cases need with
  | denied => exact Nat.le_refl 0
  | free => exact Nat.le_refl 2
  | approval =>
    rcases hAnswer : preGate sha clock a c .approval newId with ⟨b, answer⟩
    cases answer with
    | refused => exact Nat.zero_le 1
    | allowed approval =>
      obtain ⟨id, rfl, -⟩ := preGate_consumed hAnswer
      exact Nat.le_refl 1

theorem preGate_reach_mono {n m : GateNeed} (h : n.reach ≤ m.reach) :
    (preGate sha clock a c n newId).2.reach ≤ (preGate sha clock a c m newId).2.reach := by
  cases n with
  | denied => exact Nat.zero_le _
  | approval =>
    cases m with
    | denied => exact absurd h (by decide)
    | approval => exact Nat.le_refl _
    | free => exact (preGate_reach_le a c .approval newId).trans (Nat.le_succ 1)
  | free =>
    cases m with
    | denied => exact absurd h (by decide)
    | approval => exact absurd h (by decide)
    | free => exact Nat.le_refl _

def approvedRecord (sha : Text → η) (clock : Nat → Int) (toolName : String) (params : Json) :
    Approval η where
  id := "approval"
  runId := "run"
  actionType := toolName
  title := toolName
  description := ""
  riskLevel := "MEDIUM"
  requestedAt := 0
  expiresAt := max (clock 0) (clock 1) + 1
  affectedResources := []
  proposedAction := none
  paramsFingerprint := fingerprintParams sha toolName (some params)
  estimatedCost := .null
  estimatedChanges := .null
  status := .approved
  decidedAt := none
  decidedBy := none
  consumed := false

def approvedRun (sha : Text → η) (clock : Nat → Int) (toolName : String) (params : Json) :
    ApprovalRun η where
  store := ⟨OrderedMap.empty.set "approval" (approvedRecord sha clock toolName params), 0, 0, 0⟩
  history := []

def approvedCall (toolName : String) (params : Json) : ExecuteCall :=
  ⟨"run", toolName, params, some "approval", none⟩

theorem preGate_approved (need : GateNeed) (toolName : String) (params : Json) :
    (preGate sha clock (approvedRun sha clock toolName params) (approvedCall toolName params) need
      "request").2.reach = need.reach := by
  cases need with
  | denied => rfl
  | free => rfl
  | approval =>
    have hStays : ApprovalStore.sweep (clock 0) (approvedRecord sha clock toolName params) =
        approvedRecord sha clock toolName params := by
      apply if_neg
      rintro ⟨-, hLate⟩
      have := le_max_left (clock 0) (clock 1)
      simp only [approvedRecord] at hLate
      omega
    have hAdmits : Admits sha (clock 1) (approvedCall toolName params).action
        (approvedRecord sha clock toolName params) := by
      refine ⟨rfl, rfl, ?_, rfl, rfl, .inl rfl⟩
      have := le_max_right (clock 0) (clock 1)
      simp only [approvedRecord]
      omega
    have hHas : ((approvedRun sha clock toolName params).store.sweepExpired clock).approvals.get
        "approval" = some (approvedRecord sha clock toolName params) := by
      rw [ApprovalStore.sweepExpired, OrderedMap.get_mapValues]
      exact congrArg some hStays
    obtain ⟨r, hOk⟩ := checkAndConsume_ok_iff.mpr ⟨_, hHas, hAdmits⟩
    have hConsume : (consume sha clock (approvedRun sha clock toolName params)
        (approvedCall toolName params) "approval").2 = .ok r := hOk
    have hId : (approvedCall toolName params).approvalId.filter (fun id => id ≠ "") =
        some "approval" := rfl
    rw [preGate, hId]
    dsimp only
    rcases hBoth : consume sha clock (approvedRun sha clock toolName params)
      (approvedCall toolName params) "approval" with ⟨b, result⟩
    rw [hBoth] at hConsume
    obtain rfl : result = .ok r := hConsume
    rfl

/-- A call of a tool that is dangerous, or that requires approval, passes only with an approval. -/
def PassesApproved (sha : Text → η) (clock : Nat → Int) (g : GateContext) (toolName : String)
    (r : RegistryRecord) (params : Json) : Prop :=
  ∀ d, canonical toolName = some d → d.riskLevel ∈ ["HIGH", "CRITICAL"] ∨ d.requiresApproval = true →
    asks g.policy d d.riskLevel = true →
    ∀ (a b : ApprovalRun η) (c : ExecuteCall) (newId : ApprovalId) (approval : Option ApprovalId),
      c.toolName = toolName → c.params = params →
      gate sha clock g a c r newId = (b, .allowed approval) →
        ∃ id, approval = some id ∧ Consumed sha clock a b c id

def NeverWider (sha : Text → η) (clock : Nat → Int) (g : GateContext) (toolName : String)
    (r : RegistryRecord) (params : Json) : Prop :=
  ∀ d, canonical toolName = some d → LowerRisk toolName r d →
    ∀ (a : ApprovalRun η) (c : ExecuteCall) (newId : ApprovalId),
      c.toolName = toolName → c.params = params →
      (gate sha clock g a c r newId).2.reach ≤ (gate sha clock g a c d.seedOne newId).2.reach

theorem widened_of_free {g : GateContext} {toolName : String} {r : RegistryRecord} {params : Json}
    {d : ToolDefinition} (h : canonical toolName = some d) (hRequired : d.requiresApproval = true)
    (hFree : needOf g toolName (gatedDefinition toolName r) params = .free) :
    Widened g toolName r params := by
  obtain ⟨hPasses, risk, hClassify, hNeeds⟩ := needOf_eq_free_iff.mp hFree
  have hGated : (gatedDefinition toolName r).requiresApproval = true := by
    rw [gatedDefinition_eq h]
    exact Bool.or_eq_true_iff.mpr (.inr hRequired)
  rw [classifyRisk, gatedDefinition_name, orElse_low (gated_ne_empty h)] at hClassify
  obtain ⟨n, hChars, rfl⟩ := Option.map_eq_some_iff.mp hClassify
  rw [asks_eq_false_iff (foldl_raise_ne_empty raises_levels (gated_ne_empty h)), Free,
    hGated] at hNeeds
  obtain ⟨hMode, hLow⟩ | ⟨hFlag, -⟩ := hNeeds
  · obtain ⟨hBase, hQuiet⟩ := (foldl_raise_eq_low_iff raises_levels).mp hLow
    have hLevel := riskLevel_of_required h hRequired
    obtain ⟨k, hPos, hOrder⟩ := rank_level hLevel
    have hNamed := riskLevel_eq_low h hLevel hBase
    have hGiven : given r.riskLevel = some "LOW" := given_eq_some_iff.mpr ⟨hNamed, by decide⟩
    refine ⟨d, n, h, ?_, hPasses, hChars, .inr ⟨?_, hQuiet, .inl ⟨hMode, hNamed⟩⟩⟩
    · rw [LowerRisk, (riskLevel_of_given h hGiven).2, exceeds_iff]
      exact ⟨k, 0, hOrder, by decide, hPos⟩
    · rw [hGiven]
      rfl
  · cases hFlag

theorem gate_narrow_iff (g : GateContext) (toolName : String) (r : RegistryRecord) (params : Json) :
    PassesApproved sha clock g toolName r params ∧ NeverWider sha clock g toolName r params ↔
      ¬ Widened g toolName r params := by
  constructor
  · rintro ⟨-, hNever⟩ hWidened
    have hSame := hWidened
    obtain ⟨d, -, h, hLower, -⟩ := hSame
    have hAnswers := hNever d h hLower (approvedRun sha clock toolName params)
      (approvedCall toolName params) "request" rfl rfl
    have hTool : (approvedCall toolName params).toolName = toolName := rfl
    rw [gate, gate, hTool, gatedDefinition_seedOne h, preGate_approved, preGate_approved] at hAnswers
    exact absurd ((reach_lt_iff h hLower).mpr hWidened) (Nat.not_lt.mpr hAnswers)
  · intro hNot
    constructor
    · intro d h hDangerous _ a b c newId approval hTool hParams hGate
      have hRequired : d.requiresApproval = true :=
        hDangerous.elim (requiresApproval_of_high h) id
      rw [gate, hTool, hParams] at hGate
      cases hNeed : needOf g toolName (gatedDefinition toolName r) params with
      | denied =>
        rw [hNeed] at hGate
        cases hGate
      | free => exact absurd (widened_of_free h hRequired hNeed) hNot
      | approval =>
        rw [hNeed] at hGate
        exact preGate_consumed hGate
    · intro d h hLower a c newId hTool hParams
      rw [gate, gate, hTool, hParams, gatedDefinition_seedOne h]
      apply preGate_reach_mono
      exact Nat.not_lt.mp fun hLess => hNot ((reach_lt_iff h hLower).mp hLess)

def patchTool : ToolDefinition := ⟨"apply_patch", "code", "MEDIUM", true, false⟩

def legacyPatch : RegistryRecord :=
  (RegistryRecord.seeded ⟨none, none, [], false, false, none⟩).seedCatalog patchTool

def lowApproving : GateContext :=
  ⟨defaultPolicy none (some "AUTO_APPROVE_LOW") none none, .empty, fun _ => true, false, none⟩

def smallPatch : Json :=
  .obj [("path", .str "a.txt"),
    ("edits", .arr [.obj [("oldText", .str "1"), ("newText", .str "2")]])]

theorem legacy_patch_free :
    ¬ (PassesApproved (fun t => t) (fun n => n) lowApproving "apply_patch" legacyPatch smallPatch ∧
      NeverWider (fun t => t) (fun n => n) lowApproving "apply_patch" legacyPatch smallPatch) := by
  rintro ⟨hPasses, -⟩
  have hFree : needOf lowApproving "apply_patch" (gatedDefinition "apply_patch" legacyPatch)
      smallPatch = .free := by decide +kernel
  let idle : ApprovalRun Text := ⟨ApprovalStore.create none none, []⟩
  let call : ExecuteCall := ⟨"run", "apply_patch", smallPatch, none, none⟩
  have hGate : gate (fun t => t) (fun n => n) lowApproving idle call legacyPatch "request" =
      (idle, .allowed none) := by
    rw [gate, hFree]
    rfl
  obtain ⟨_, hNone, -⟩ := hPasses patchTool (by decide +kernel) (.inr rfl) (by decide +kernel)
    idle idle call "request" none rfl rfl hGate
  cases hNone

end Answers

end ToolGate

end OrchestraAI.Execution
