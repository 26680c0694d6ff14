import OrchestraAI.Economics.ProviderCharge
import OrchestraAI.Economics.Savings

/-! # Usage that a provider does not report

What the adapters of `providers/provider-adapter.js` make of the usage in a provider's
payload, and where a missing count goes from there: into the record of `_callModel`
and into the results of the savings engine.
-/

namespace OrchestraAI.Economics

open OrchestraAI.Recovery (truthy)

inductive Count
  | prompt
  | completion

def Usage.count (u : Usage) : Count → Field
  | .prompt => u.inputTokens
  | .completion => u.outputTokens

def ObservedUsage.count (u : ObservedUsage) : Count → Option ℚ
  | .prompt => u.inputTokens
  | .completion => u.outputTokens

/-- A field of a provider's JSON, with the finite number that `Number` makes of a value. The
empty text is a value that counts as missing in one place and as zero in others. -/
inductive WireField
  | undefined
  | null
  | empty
  | value (number : Option ℚ)
  deriving DecidableEq

namespace WireField

def missing : WireField → Bool
  | undefined | null => true
  | empty | value _ => false

/-- `a ?? b`. -/
def orElse (a b : WireField) : WireField := if a.missing then b else a

/-- `Number(field)`, unless it is not finite. -/
def toNumber : WireField → Option ℚ
  | undefined => none
  | null | empty => some 0
  | value number => number

/-- The closure `numberOrNull`. -/
def numberOrNull : WireField → Option ℚ
  | undefined | null | empty => none
  | value number => number.filter (0 ≤ ·)

/-- `field ?? null` as a value of the language. -/
def orNull : WireField → Field
  | undefined | null => .null
  | empty => .value (some 0)
  | value number => .value number

end WireField

/-- The usage of an OpenAI-style payload; the details are those of the object that is read. -/
structure UsagePayload where
  promptTokens : WireField
  inputTokens : WireField
  completionTokens : WireField
  outputTokens : WireField
  detailCachedTokens : WireField
  cachedTokens : WireField
  detailReasoningTokens : WireField
  reasoningTokens : WireField
  cost : WireField
  costUsdSnake : WireField
  costUsd : WireField

namespace UsagePayload

/-- `data.usage` that is not there. -/
def absent : UsagePayload :=
  ⟨.undefined, .undefined, .undefined, .undefined, .undefined, .undefined, .undefined, .undefined,
    .undefined, .undefined, .undefined⟩

def count (u : UsagePayload) : Count → WireField
  | .prompt => u.promptTokens.orElse u.inputTokens
  | .completion => u.completionTokens.orElse u.outputTokens

def anyCost (u : UsagePayload) : WireField := u.cost.orElse (u.costUsdSnake.orElse u.costUsd)

end UsagePayload

def normalizedUsage (u : UsagePayload) : Usage where
  inputTokens := .ofNullable (u.count .prompt).numberOrNull
  outputTokens := .ofNullable (u.count .completion).numberOrNull
  cachedTokens := .ofNullable (u.detailCachedTokens.orElse u.cachedTokens).numberOrNull
  reasoningTokens := .ofNullable (u.detailReasoningTokens.orElse u.reasoningTokens).numberOrNull
  costUsd :=
    match u.anyCost.toNumber with
    | some n => .value (some n)
    | none => .undefined

/-- The usage of `_normalizeCompletion`: reasoning tokens are passed on when there are any. -/
def completionUsage (u : UsagePayload) : Usage :=
  let usage := normalizedUsage u
  { usage with
    reasoningTokens :=
      match usage.reasoningTokens with
      | .value (some n) => if n = 0 then .undefined else .value (some n)
      | _ => .undefined }

/-- The usage of `stream`: that of the last frame that has one. -/
def streamUsage (frames : List UsagePayload) : Usage :=
  match frames.getLast? with
  | some u => normalizedUsage u
  | none => ⟨.undefined, .undefined, .undefined, .undefined, .undefined⟩

structure AnthropicPayload where
  inputTokens : WireField
  outputTokens : WireField
  cacheReadInputTokens : WireField
  detailReasoningTokens : WireField
  reasoningTokens : WireField
  cost : WireField

def AnthropicPayload.count (u : AnthropicPayload) : Count → WireField
  | .prompt => u.inputTokens
  | .completion => u.outputTokens

def anthropicUsage (u : AnthropicPayload) : Usage where
  inputTokens := u.inputTokens.orNull
  outputTokens := u.outputTokens.orNull
  cachedTokens := u.cacheReadInputTokens.orNull
  reasoningTokens := (u.detailReasoningTokens.orElse u.reasoningTokens).orNull
  costUsd :=
    match u.cost.toNumber with
    | some n => .value (some n)
    | none => .undefined

inductive AnthropicEvent
  | messageStart (inputTokens : WireField)
  | messageDelta (outputTokens : WireField) (reasoningTokens : WireField)

def AnthropicEvent.count : AnthropicEvent → Count → Option WireField
  | .messageStart inputTokens, .prompt => some inputTokens
  | .messageDelta outputTokens _, .completion => some outputTokens
  | _, _ => none

def takeCount (field : WireField) (count : Option ℚ) : Option ℚ :=
  match field.toNumber with
  | some n => if 0 ≤ n then some n else count
  | none => count

structure AnthropicCounts where
  inputTokens : Option ℚ
  outputTokens : Option ℚ
  reasoningTokens : Option ℚ

def AnthropicCounts.count (c : AnthropicCounts) : Count → Option ℚ
  | .prompt => c.inputTokens
  | .completion => c.outputTokens

def AnthropicCounts.read (c : AnthropicCounts) : AnthropicEvent → AnthropicCounts
  | .messageStart inputTokens => { c with inputTokens := takeCount inputTokens c.inputTokens }
  | .messageDelta outputTokens reasoningTokens =>
    { c with
      outputTokens := takeCount outputTokens c.outputTokens
      reasoningTokens := takeCount reasoningTokens c.reasoningTokens }

def anthropicStreamUsage (events : List AnthropicEvent) : Usage :=
  let c := events.foldl AnthropicCounts.read ⟨none, none, none⟩
  { inputTokens := .ofNullable c.inputTokens
    outputTokens := .ofNullable c.outputTokens
    cachedTokens := .null
    reasoningTokens := .ofNullable c.reasoningTokens
    costUsd := .undefined }

inductive ProviderAnswer
  | completion (usage : UsagePayload)
  /-- The frames of a stream that have a usage. -/
  | stream (frames : List UsagePayload)
  | anthropic (usage : AnthropicPayload)
  | anthropicStream (events : List AnthropicEvent)

namespace ProviderAnswer

def usage : ProviderAnswer → Usage
  | completion u => completionUsage u
  | stream frames => streamUsage frames
  | anthropic u => anthropicUsage u
  | anthropicStream events => anthropicStreamUsage events

def Missing (count : Count) : ProviderAnswer → Prop
  | completion u => (u.count count).missing = true
  | stream frames => ∀ u ∈ frames.getLast?, (u.count count).missing = true
  | anthropic u => (u.count count).missing = true
  | anthropicStream events => ∀ e ∈ events, ∀ f ∈ e.count count, f.missing = true

def CostMissing : ProviderAnswer → Prop
  | completion u => u.anyCost.missing = true
  | stream frames => ∀ u ∈ frames.getLast?, u.anyCost.missing = true
  | anthropic u => u.cost.missing = true
  | anthropicStream _ => True

def response (a : ProviderAnswer) : ModelResponse := ⟨a.usage, .undefined, none⟩

def Unmetered (a : ProviderAnswer) : Prop := a = stream []

end ProviderAnswer

/-- A call of `_callModel` with its answer: the adapter names the provider, and a model is
always named. -/
structure AnsweredCall where
  answer : ProviderAnswer
  pricing : Option Pricing
  promptTokens : ℚ
  step : Option Nat
  provider : String
  model : String
  provider_named : provider ≠ ""
  model_named : model ≠ ""

namespace AnsweredCall

def providerCall (c : AnsweredCall) : ProviderCall := ⟨c.pricing, c.promptTokens, c.answer.response⟩

def record (c : AnsweredCall) : ModelCall :=
  { c.providerCall.record with
    step := c.step
    provider := some c.provider
    model := some c.model
    pricingSnapshot := some (c.pricing.getD ⟨none, none, none⟩) }

end AnsweredCall

namespace WireField

variable {f : WireField}

theorem numberOrNull_of_missing (h : f.missing = true) : f.numberOrNull = none := by
  cases f with
  | undefined | null => rfl
  | empty | value _ => cases h

theorem orNull_of_missing (h : f.missing = true) : f.orNull = .null := by
  cases f with
  | undefined | null => rfl
  | empty | value _ => cases h

theorem takeCount_of_missing (h : f.missing = true) {count : Option ℚ}
    (hCount : count.getD 0 = 0) : (takeCount f count).getD 0 = 0 := by
  cases f with
  | undefined => exact hCount
  | null => rfl
  | empty | value _ => cases h

end WireField

theorem observed_ofNullable (count : Option ℚ) (h : count.getD 0 = 0) :
    (Field.ofNullable count).observed = some 0 := by
  cases count with
  | none => rfl
  | some n =>
    cases h
    rfl

theorem anthropic_count {count : Count} {events : List AnthropicEvent} {c : AnthropicCounts}
    (hMissing : ∀ e ∈ events, ∀ f ∈ e.count count, f.missing = true)
    (hCount : (c.count count).getD 0 = 0) :
    ((events.foldl AnthropicCounts.read c).count count).getD 0 = 0 := by
  induction events generalizing c with
  | nil => exact hCount
  | cons e events ih =>
    refine ih (fun e he => hMissing e (List.mem_cons_of_mem _ he)) ?_
    have hHead := hMissing e List.mem_cons_self
    cases e with
    | messageStart f =>
      cases count with
      | prompt => exact WireField.takeCount_of_missing (hHead f rfl) hCount
      | completion => exact hCount
    | messageDelta f g =>
      cases count with
      | prompt => exact hCount
      | completion => exact WireField.takeCount_of_missing (hHead f rfl) hCount

theorem normalizedUsage_count (u : UsagePayload) (count : Count) :
    (normalizedUsage u).count count = .ofNullable (u.count count).numberOrNull := by
  cases count <;> rfl

theorem completionUsage_count (u : UsagePayload) (count : Count) :
    (completionUsage u).count count = .ofNullable (u.count count).numberOrNull := by
  cases count <;> rfl

theorem anthropicUsage_count (u : AnthropicPayload) (count : Count) :
    (anthropicUsage u).count count = (u.count count).orNull := by
  cases count <;> rfl

theorem anthropicStreamUsage_count (events : List AnthropicEvent) (count : Count) :
    (anthropicStreamUsage events).count count =
      .ofNullable ((events.foldl AnthropicCounts.read ⟨none, none, none⟩).count count) := by
  cases count <;> rfl

namespace ProviderAnswer

variable {a : ProviderAnswer} {count : Count}

theorem observed_of_missing (h : a.Missing count) :
    a.Unmetered ∧ (a.usage.count count).observed = none ∨
      ¬ a.Unmetered ∧ (a.usage.count count).observed = some 0 := by
  have hOther {b : ProviderAnswer} (hb : ∀ frames, b ≠ stream frames) : ¬ b.Unmetered := hb []
  have hNull {f : WireField} (hf : f.missing = true) :
      (Field.ofNullable f.numberOrNull).observed = some 0 :=
    observed_ofNullable _ (by rw [WireField.numberOrNull_of_missing hf]; rfl)
  cases a with
  | completion u =>
    refine .inr ⟨hOther (by simp), ?_⟩
    rw [usage, completionUsage_count]
    exact hNull h
  | stream frames =>
    cases hLast : frames.getLast? with
    | none =>
      rw [List.getLast?_eq_none_iff] at hLast
      subst hLast
      exact .inl ⟨rfl, by cases count <;> rfl⟩
    | some u =>
      refine .inr ⟨?_, ?_⟩
      · rintro ⟨⟩
        cases hLast
      · simp only [usage, streamUsage, hLast, normalizedUsage_count]
        exact hNull (h u hLast)
  | anthropic u =>
    refine .inr ⟨hOther (by simp), ?_⟩
    rw [usage, anthropicUsage_count, WireField.orNull_of_missing h]
    rfl
  | anthropicStream events =>
    refine .inr ⟨hOther (by simp), ?_⟩
    rw [usage, anthropicStreamUsage_count]
    exact observed_ofNullable _ (anthropic_count h (by cases count <;> rfl))

end ProviderAnswer

namespace AnsweredCall

variable {c : AnsweredCall} {count : Count}

theorem record_count :
    c.record.usage.count count = (c.answer.usage.count count).observed := by
  have hIdem (f : Field) : nullableNonNegative f.observed = f.observed := by
    simp only [nullableNonNegative, Field.observed, Option.filter_filter, Bool.and_self]
  cases count with
  | prompt => exact hIdem _
  | completion => exact hIdem _

theorem record_canonical_of_unmetered (h : c.answer.Unmetered) :
    c.record.canonicalCostUsd = none := by
  have hUsage : c.answer.response = ProviderAnswer.response (.stream []) := by rw [h]
  have hRecord : c.record.canonicalCostUsd = c.providerCall.record.canonicalCostUsd := rfl
  rw [hRecord, providerCall, hUsage]
  rfl

end AnsweredCall

theorem stepTokens_of_unknown {step : Step} (h : step.inputTokens = none ∨ step.outputTokens = none) :
    ∃ e, stepTokens step = .error e := by
  have hNull : tokenValue step.inputTokens true = .null ∨
      tokenValue step.outputTokens true = .null := h.imp (by simp [tokenValue, ·]) (by simp [tokenValue, ·])
  unfold stepTokens
  split
  · rename_i hInput hOutput _ _
    obtain h | h := hNull
    · rw [h] at hInput
      cases hInput
    · rw [h] at hOutput
      cases hOutput
  · split
    · exact ⟨_, rfl⟩
    · exact ⟨_, rfl⟩

theorem addStep_of_unknown {registry : ModelRegistry} {pricing : Pricing} {id : String} {step : Step}
    (hNamed : (truthy step.model).isSome ∧ (truthy step.provider).isSome)
    (h : step.inputTokens = none ∨ step.outputTokens = none) (t : Totals) :
    ∃ e, addStep registry pricing id t step = .error e := by
  obtain ⟨model, hModel⟩ := Option.isSome_iff_exists.mp hNamed.1
  obtain ⟨provider, hProvider⟩ := Option.isSome_iff_exists.mp hNamed.2
  obtain ⟨e, hTokens⟩ := stepTokens_of_unknown h
  unfold addStep
  simp only [hModel, hProvider, calculateStepBaselineCost, hTokens]
  exact ⟨_, rfl⟩

theorem foldlM_error {α β ε : Type} {f : β → α → Except ε β} {a : α}
    (hf : ∀ b, ∃ e, f b a = .error e) {l : List α} (ha : a ∈ l) (b : β) :
    ∃ e, l.foldlM f b = .error e := by
  induction l generalizing b with
  | nil => cases ha
  | cons x l ih =>
    rw [List.foldlM_cons]
    cases hx : f b x with
    | error e => exact ⟨e, rfl⟩
    | ok b' =>
      obtain rfl | ha := List.mem_cons.mp ha
      · obtain ⟨e, he⟩ := hf b
        rw [hx] at he
        cases he
      · exact ih ha b'

/-- A completed run with an unknown count among its calls is priced by no reference model. -/
theorem savings_of_unknown {registry : ModelRegistry} {run : RunUsage} {call : ModelCall}
    (hCompleted : run.status = .completed) (hCall : call ∈ run.modelCalls)
    (hProvider : call.providerCall = true)
    (hNamed : (truthy call.model).isSome ∧ (truthy call.provider).isSome)
    (h : call.usage.inputTokens = none ∨ call.usage.outputTokens = none)
    (explicit : Option String) (fee : Field) :
    (calculateSavingsForRun registry (some run) explicit fee).calculationStatus =
      "insufficient_data" := by
  obtain ⟨step, hStep, hStepNamed, hStepUnknown⟩ : ∃ step ∈ extractStepsFromRun run,
      ((truthy step.model).isSome ∧ (truthy step.provider).isSome) ∧
        (step.inputTokens = none ∨ step.outputTokens = none) :=
    ⟨_, List.mem_map_of_mem (List.mem_filter.mpr ⟨hCall, hProvider⟩), hNamed, h⟩
  have hCalculated (reference : Option ReferenceModel) :
      (calculateSavings registry reference (extractStepsFromRun run) run.referencePricingSnapshot
        fee).calculationStatus = "insufficient_data" := by
    obtain ⟨ref, error, hEq⟩ | ⟨ref, pricing, totals, _, _, hTotals, _⟩ :=
      calculated_cases registry reference (extractStepsFromRun run)
        run.referencePricingSnapshot
    · rw [calculateSavings, hEq]
      rfl
    · obtain ⟨e, hError⟩ := foldlM_error (addStep_of_unknown hStepNamed hStepUnknown) hStep
        Totals.zero
      rw [hTotals] at hError
      cases hError
  have hSteps : (extractStepsFromRun run).isEmpty = false := by
    cases hEmpty : extractStepsFromRun run with
    | nil =>
      rw [hEmpty] at hStep
      cases hStep
    | cons _ _ => rfl
  unfold calculateSavingsForRun
  simp only [hCompleted, ne_eq, not_true_eq_false, if_false, hSteps, Bool.false_eq_true]
  split
  · exact hCalculated none
  · exact hCalculated (some _)

theorem savings_of_incomplete {registry : ModelRegistry} {run : RunUsage}
    (h : run.status ≠ .completed) (explicit : Option String) (fee : Field) :
    (calculateSavingsForRun registry (some run) explicit fee).calculationStatus = "incomplete" := by
  unfold calculateSavingsForRun
  simp only [if_pos h]
  rfl

/-- What is unknown in the answer is unknown in the record and in every result of a run that
has the record. -/
def StaysUnknown (c : AnsweredCall) (run : RunUsage) : Prop :=
  (∀ count, c.answer.Missing count → c.record.usage.count count = none) ∧
    c.record.canonicalCostUsd = none ∧
    ∀ (registry : ModelRegistry) (explicit : Option String) (fee : Field),
      (calculateSavingsForRun registry (some run) explicit fee).calculationStatus =
        "insufficient_data"

/-- Whatever cost is given, a missing count is recorded as zero unless the answer is a stream
without any usage; then it stays unknown up to the results of the run, which are insufficient
once it is completed. -/
theorem staysUnknown_iff (c : AnsweredCall) (hMissing : ∃ count, c.answer.Missing count)
    (run : RunUsage) (hCall : c.record ∈ run.modelCalls) :
    StaysUnknown c run ↔ c.answer.Unmetered ∧ run.status = .completed := by
  constructor
  · rintro ⟨hCounts, -, hResults⟩
    constructor
    · obtain ⟨count, hCount⟩ := hMissing
      obtain ⟨hUnmetered, -⟩ | ⟨-, hZero⟩ := ProviderAnswer.observed_of_missing hCount
      · exact hUnmetered
      · have hNone := hCounts count hCount
        rw [AnsweredCall.record_count, hZero] at hNone
        cases hNone
    · by_contra hStatus
      have hInsufficient := hResults (fun _ => none) none .undefined
      rw [savings_of_incomplete hStatus] at hInsufficient
      exact absurd hInsufficient (by decide)
  · rintro ⟨hUnmetered, hCompleted⟩
    have hNone (count : Count) (hCount : c.answer.Missing count) :
        c.record.usage.count count = none := by
      obtain ⟨-, h⟩ | ⟨hNot, -⟩ := ProviderAnswer.observed_of_missing hCount
      · rw [AnsweredCall.record_count, h]
      · exact absurd hUnmetered hNot
    refine ⟨hNone, AnsweredCall.record_canonical_of_unmetered hUnmetered, fun registry explicit fee =>
      savings_of_unknown hCompleted hCall rfl ?_ ?_ explicit fee⟩
    · exact ⟨by simp [AnsweredCall.record, truthy, c.model_named],
        by simp [AnsweredCall.record, truthy, c.provider_named]⟩
    · obtain ⟨count, hCount⟩ := hMissing
      cases count with
      | prompt => exact .inl (hNone .prompt hCount)
      | completion => exact .inr (hNone .completion hCount)

theorem model_m_named : "m" ≠ "" := by decide

def unmeteredCall : AnsweredCall where
  answer := .stream []
  pricing := none
  promptTokens := 0
  step := some 1
  provider := "openrouter"
  model := "m"
  provider_named := by decide
  model_named := model_m_named

theorem staysUnknown_unmetered :
    (∃ count, unmeteredCall.answer.Missing count) ∧
      StaysUnknown unmeteredCall ⟨.completed, none, none, [unmeteredCall.record]⟩ := by
  have hMissing : unmeteredCall.answer.Missing .prompt := fun u hu => by cases hu
  exact ⟨⟨_, hMissing⟩,
    (staysUnknown_iff unmeteredCall ⟨_, hMissing⟩ _ List.mem_cons_self).mpr ⟨rfl, rfl⟩⟩

def freeCall : AnsweredCall where
  answer := .completion { UsagePayload.absent with completionTokens := .value (some 1000) }
  pricing := some ⟨some 1, some 0, none⟩
  promptTokens := 1000
  step := some 1
  provider := "openai"
  model := "m"
  provider_named := by decide
  model_named := model_m_named

/-- An unmetered prompt at a dollar per thousand tokens is recorded as free. -/
theorem unknown_recorded_as_free :
    ¬ ∀ c : AnsweredCall, (∃ count, c.answer.Missing count) → c.answer.CostMissing →
      ∀ run : RunUsage, c.record ∈ run.modelCalls → StaysUnknown c run := by
  intro h
  have hKept := (h freeCall ⟨.prompt, rfl⟩ rfl ⟨.completed, none, none, [freeCall.record]⟩
    List.mem_cons_self).2.1
  exact absurd hKept (by decide +kernel)

end OrchestraAI.Economics
