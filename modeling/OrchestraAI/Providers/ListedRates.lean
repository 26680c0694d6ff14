import Mathlib.Algebra.Order.Ring.Rat
import OrchestraAI.Library.LabelledSystem
import OrchestraAI.Library.OrderedMap

/-! # The rates of the registry under refreshes

A rate gets into the registry by a new model or by a price update. Of a new model no price is
validated, of a known one the listed cached rate is not, and a value that `Number` turns into a
number is stored as it is.

`refreshOnce` of `providers/model-discovery.js` over the registry of `impl/model-registry.js`, for any
listing that an adapter returns, and `normalizeModel` of the adapter that lists its prices. What
`Number` makes of a text is a parameter.
-/

namespace OrchestraAI.Providers

inductive Rate
  | undefined
  | null
  | number (x : ℚ)
  | nan
  | infinite (negative : Bool)
  | text (s : String)
  | boolean (b : Bool)
  /-- An object, by its identity, with what `Number` makes of it. -/
  | object (id : Nat) (number : Option ℚ)
  deriving DecidableEq

variable (numberOf : String → Option ℚ)

namespace Rate

/-- `Number(v)`, where it is finite. -/
def toNumber : Rate → Option ℚ
  | .undefined | .nan | .infinite _ => none
  | .null => some 0
  | .number x => some x
  | .text s => numberOf s
  | .boolean b => some (if b then 1 else 0)
  | .object _ n => n

/-- Neither `null` nor `undefined`. -/
def present : Rate → Bool
  | .undefined | .null => false
  | _ => true

/-- `a ?? b`. -/
def orElse (a b : Rate) : Rate := if a.present then a else b

/-- `a === b`. -/
def same (a b : Rate) : Bool := a = b && a ≠ .nan

def Valid (r : Rate) : Prop := ∃ x, 0 ≤ x ∧ r = .number x

instance (r : Rate) : Decidable r.Valid :=
  match r with
  | .number x => decidable_of_iff (0 ≤ x) ⟨fun h => ⟨x, h, rfl⟩, fun ⟨_, h, hx⟩ => number.inj hx ▸ h⟩
  | .undefined | .null | .nan | .infinite _ | .text _ | .boolean _ | .object _ _ =>
    .isFalse fun ⟨_, _, h⟩ => nomatch h

end Rate

structure ListedPricing where
  inputPer1k : Rate
  outputPer1k : Rate
  cachedPer1k : Rate

structure Capabilities where
  tools : Bool
  structuredOutput : Bool
  vision : Bool

structure ListedModel where
  id : String
  name : String
  contextWindow : Nat
  pricing : Option ListedPricing
  capabilities : Capabilities

/-- `validPricing` for the pricing of a listing. -/
def validPricing (p : ListedPricing) : Bool :=
  [p.inputPer1k, p.outputPer1k].all fun v => !v.present || (v.toNumber numberOf).any (0 ≤ ·)

/-- `perToken` of the adapter, for a price that is missing or a text. -/
def perToken : Option String → Rate
  | none | some "" => .null
  | some v => ((numberOf v).map fun x => Rate.number (x * 1000)).getD .nan

/-- A model as the provider lists it, with the prices of a token as texts. -/
structure RawModel where
  id : String
  name : String
  contextLength : Nat
  prompt : Option String
  completion : Option String
  inputCacheRead : Option String
  capabilities : Capabilities

/-- `OpenRouterAdapter.normalizeModel`. -/
def RawModel.normalizeModel (raw : RawModel) : ListedModel where
  id := raw.id
  name := if raw.name = "" then raw.id else raw.name
  contextWindow := raw.contextLength
  pricing := some
    { inputPer1k := perToken numberOf raw.prompt
      outputPer1k := perToken numberOf raw.completion
      cachedPer1k := perToken numberOf raw.inputCacheRead }
  capabilities := raw.capabilities

structure RegisteredModel where
  id : String
  name : String
  provider : String
  contextWindow : Nat
  contextSource : String
  inputPer1k : Rate
  outputPer1k : Rate
  cachedPer1k : Rate
  pricingSource : String
  /-- 0 if there is none. -/
  pricingVersion : Nat
  capabilities : List String

abbrev ModelRegistry := OrderedMap String RegisteredModel

/-- `getPricing`. -/
def RegisteredModel.getPricing (m : RegisteredModel) : ListedPricing where
  inputPer1k := m.inputPer1k.orElse .null
  outputPer1k := m.outputPer1k.orElse .null
  cachedPer1k := m.cachedPer1k.orElse .null

/-- A rate that is written unless it is `undefined`. -/
def assigned (new old : Rate) : Rate := if new = .undefined then old else new

/-- `updatePrice`. -/
def RegisteredModel.updatePrice (m : RegisteredModel) (pricing : ListedPricing) (source : String) :
    RegisteredModel :=
  { m with
    inputPer1k := assigned pricing.inputPer1k m.inputPer1k
    outputPer1k := assigned pricing.outputPer1k m.outputPer1k
    cachedPer1k := assigned pricing.cachedPer1k m.cachedPer1k
    pricingSource := source
    pricingVersion := (if m.pricingVersion = 0 then 1 else m.pricingVersion) + 1 }

/-- A price that `toRegistryShape` takes over; none if there is no pricing. -/
def ListedModel.listed (n : ListedModel) (field : ListedPricing → Rate) : Rate :=
  n.pricing.elim .undefined field

def toRegistryShape (n : ListedModel) (providerId : String) : RegisteredModel where
  id := n.id
  name := if n.name = "" then n.id else n.name
  provider := providerId
  contextWindow := n.contextWindow
  contextSource := if n.contextWindow = 0 then "unknown" else "provider"
  inputPer1k := (n.listed (·.inputPer1k)).orElse .null
  outputPer1k := (n.listed (·.outputPer1k)).orElse .null
  cachedPer1k := (n.listed (·.cachedPer1k)).orElse ((n.listed (·.inputPer1k)).orElse .null)
  pricingSource :=
    if n.pricing.any fun p => p.inputPer1k ≠ .null || p.outputPer1k ≠ .null then "provider"
    else "unknown"
  pricingVersion := 0
  capabilities := "text" :: (if n.capabilities.tools then ["tools"] else []) ++
    (if n.capabilities.structuredOutput then ["structured"] else []) ++
    (if n.capabilities.vision then ["vision"] else [])

def RegisteredModel.patched (m : RegisteredModel) (n : ListedModel) : RegisteredModel :=
  let windowed :=
    if n.contextWindow ≠ 0 ∧ n.contextWindow ≠ m.contextWindow then
      { m with contextWindow := n.contextWindow, contextSource := "provider" }
    else m
  if n.name ≠ "" ∧ n.name ≠ m.name then { windowed with name := n.name } else windowed

def unchanged (prev p : ListedPricing) : Bool :=
  prev.inputPer1k.same p.inputPer1k && prev.outputPer1k.same p.outputPer1k

def RegisteredModel.refreshed (m : RegisteredModel) (n : ListedModel) : RegisteredModel :=
  match n.pricing with
  | none => m.patched n
  | some p =>
    let prev := m.getPricing
    if !validPricing numberOf p || unchanged prev p then m.patched n
    else
      (m.patched n).updatePrice
        { inputPer1k := p.inputPer1k.orElse prev.inputPer1k
          outputPer1k := p.outputPer1k.orElse prev.outputPer1k
          cachedPer1k := p.cachedPer1k.orElse prev.cachedPer1k } "discovery"

/-- One turn of the loop of `refreshOnce`. -/
def refreshItem (providerId : String) (registry : ModelRegistry) : Option ListedModel → ModelRegistry
  | none => registry
  | some n =>
    if n.id = "" then registry
    else
      match registry.get n.id with
      | none => registry.set n.id (toRegistryShape n providerId)
      | some m => registry.set n.id (m.refreshed numberOf n)

/-- A call of `refreshOnce`, with what the adapter lists for it. -/
structure Refresh where
  providerId : String
  /-- There is none in demo mode, without credentials and if `listModels` fails. -/
  listing : Option (List (Option ListedModel))

def refreshAll (providerId : String) (registry : ModelRegistry)
    (items : List (Option ListedModel)) : ModelRegistry :=
  items.foldl (refreshItem numberOf providerId) registry

def refreshOnce (registry : ModelRegistry) (r : Refresh) : ModelRegistry :=
  refreshAll numberOf r.providerId registry (r.listing.getD [])

open LabelledSystem

variable {numberOf} {providerId : String} {registry : ModelRegistry}
  {items : List (Option ListedModel)} {n : ListedModel} {m : RegisteredModel} {p : ListedPricing}

def Rate.Stored (r : Rate) : Prop := r = .null ∨ r.Valid

def Rate.Clean (r : Rate) : Prop := r.present = false ∨ r.Valid

instance (r : Rate) : Decidable r.Stored := inferInstanceAs (Decidable (_ ∨ _))

instance (r : Rate) : Decidable r.Clean := inferInstanceAs (Decidable (_ ∨ _))

def ListedPricing.Clean (p : ListedPricing) : Prop :=
  p.inputPer1k.Clean ∧ p.outputPer1k.Clean ∧ p.cachedPer1k.Clean

instance (p : ListedPricing) : Decidable p.Clean := inferInstanceAs (Decidable (_ ∧ _))

def ListedPricing.Full (p : ListedPricing) : Prop :=
  p.Clean ∧ p.inputPer1k.present ∧ p.outputPer1k.present

structure RegisteredModel.Priced (m : RegisteredModel) : Prop where
  input : m.inputPer1k.Stored
  output : m.outputPer1k.Stored
  cached : m.cachedPer1k.Stored

def Priced (registry : ModelRegistry) : Prop :=
  ∀ id m, registry.get id = some m → m.Priced

def ratesOf (m : Option RegisteredModel) : Rate × Rate × Rate :=
  m.elim (.null, .null, .null) fun m => (m.inputPer1k, m.outputPer1k, m.cachedPer1k)

/-- The rates of a listed model before and after the refresh. -/
structure InStep (before after : Option RegisteredModel) (n : ListedModel) : Prop where
  exact : ∀ p ∈ n.pricing, p.Full → ∃ m ∈ after, m.inputPer1k = p.inputPer1k ∧
    m.outputPer1k = p.outputPer1k ∧ (p.cachedPer1k.present → m.cachedPer1k = p.cachedPer1k)
  left : ∀ p ∈ n.pricing, ¬ p.Clean → ratesOf after = ratesOf before

def Again (n : ListedModel) (rest : List (Option ListedModel)) : Prop :=
  ∃ n', some n' ∈ rest ∧ n'.id = n.id

/-- The registry is priced after every entry of a listing, and in step with each model at the end;
of several entries for a model the last counts. -/
def KeepsPrices (numberOf : String → Option ℚ) (providerId : String) :
    ModelRegistry → List (Option ListedModel) → Prop
  | _, [] => True
  | registry, item :: rest =>
    let next := refreshItem numberOf providerId registry item
    Priced next ∧
      (∀ n ∈ item, n.id ≠ "" → ¬ Again n rest →
        InStep (registry.get n.id) ((refreshAll numberOf providerId next rest).get n.id) n) ∧
      KeepsPrices numberOf providerId next rest

def TakesOver (numberOf : String → Option ℚ) (m : Option RegisteredModel) (p : ListedPricing) :
    Prop :=
  ∀ known ∈ m, validPricing numberOf p ∧ unchanged known.getPricing p = false

def CachedFollows (m : Option RegisteredModel) (p : ListedPricing) : Prop :=
  ∀ known ∈ m, p.Full → unchanged known.getPricing p → p.cachedPer1k.present →
    p.cachedPer1k = known.cachedPer1k

/-- Prices are taken over only where all are missing or valid, and no cached rate changes alone. -/
def HarmlessListing (numberOf : String → Option ℚ) (providerId : String) :
    ModelRegistry → List (Option ListedModel) → Prop
  | _, [] => True
  | registry, item :: rest =>
    (∀ n ∈ item, n.id ≠ "" → ∀ p ∈ n.pricing,
      (TakesOver numberOf (registry.get n.id) p → p.Clean) ∧
        (¬ Again n rest → CachedFollows (registry.get n.id) p)) ∧
      HarmlessListing numberOf providerId (refreshItem numberOf providerId registry item) rest

section Rates

variable {a b : Rate}

theorem Rate.Valid.present (h : a.Valid) : a.present = true := by
  obtain ⟨x, -, rfl⟩ := h
  rfl

theorem Rate.Clean.valid (h : a.Clean) (hPresent : a.present = true) : a.Valid :=
  h.resolve_left fun hMissing => Bool.false_ne_true (hMissing.symm.trans hPresent)

theorem Rate.Stored.clean (h : a.Stored) : a.Clean := h.imp_left fun hNull => by rw [hNull]; rfl

/-- A stored rate is what `getPricing` returns of it. -/
theorem Rate.Stored.orElse_null (h : a.Stored) : a.orElse .null = a := by
  obtain rfl | hValid := h
  · rfl
  · rw [Rate.orElse, if_pos hValid.present]

theorem Rate.stored_orElse_iff (hb : b.Stored) : (a.orElse b).Stored ↔ a.Clean := by
  rw [Rate.orElse]
  cases hPresent : a.present with
  | false => exact iff_of_true hb (.inl hPresent)
  | true =>
    rw [if_pos rfl]
    constructor
    · exact Rate.Stored.clean
    · exact fun h => .inr (h.valid hPresent)

theorem Rate.orElse_ne_undefined (hb : b ≠ .undefined) : a.orElse b ≠ .undefined := by
  rw [Rate.orElse]
  split
  · rintro rfl
    contradiction
  · exact hb

theorem Rate.Stored.ne_undefined (h : a.Stored) : a ≠ .undefined := by
  rintro rfl
  obtain h | ⟨_, _, h⟩ := h <;> cases h

theorem Rate.same_iff (ha : a.Stored) : a.same b = true ↔ a = b := by
  have hNan : a ≠ .nan := by
    rintro rfl
    obtain h | ⟨_, _, h⟩ := ha <;> cases h
  simp [Rate.same, hNan]

/-- Clean prices pass `validPricing`. -/
theorem validPricing_of_clean (h : p.Clean) : validPricing numberOf p = true := by
  have hPass {v : Rate} (hv : v.Clean) : (!v.present || (v.toNumber numberOf).any (0 ≤ ·)) = true := by
    obtain hMissing | ⟨x, hx, rfl⟩ := hv
    · rw [hMissing]
      rfl
    · simpa [Rate.toNumber, Rate.present] using hx
  simp only [validPricing, List.all_cons, List.all_nil, Bool.and_true, Bool.and_eq_true]
  exact ⟨hPass h.1, hPass h.2.1⟩

end Rates

section Entry

theorem RegisteredModel.patched_rates (m : RegisteredModel) (n : ListedModel) :
    (m.patched n).inputPer1k = m.inputPer1k ∧ (m.patched n).outputPer1k = m.outputPer1k ∧
      (m.patched n).cachedPer1k = m.cachedPer1k := by
  rw [patched]
  split <;> split <;> exact ⟨rfl, rfl, rfl⟩

theorem RegisteredModel.Priced.patched (h : m.Priced) (n : ListedModel) : (m.patched n).Priced := by
  obtain ⟨hInput, hOutput, hCached⟩ := m.patched_rates n
  exact ⟨hInput ▸ h.input, hOutput ▸ h.output, hCached ▸ h.cached⟩

theorem priced_toRegistryShape (n : ListedModel) (providerId : String) :
    (toRegistryShape n providerId).Priced ↔ ∀ p ∈ n.pricing, p.Clean := by
  have hNull : Rate.null.Stored := .inl rfl
  cases hPricing : n.pricing with
  | none =>
    have hMissing (field : ListedPricing → Rate) : n.listed field = .undefined := by
      rw [ListedModel.listed, hPricing]
      rfl
    refine iff_of_true ?_ fun _ h => nomatch h
    constructor <;> simp only [toRegistryShape, hMissing] <;> exact .inl rfl
  | some p =>
    have hListed (field : ListedPricing → Rate) : n.listed field = field p := by
      rw [ListedModel.listed, hPricing]
      rfl
    constructor
    · rintro ⟨hInput, hOutput, hCached⟩ q hq
      obtain rfl := Option.some.inj hq
      simp only [toRegistryShape, hListed] at hInput hOutput hCached
      exact ⟨(Rate.stored_orElse_iff hNull).mp hInput, (Rate.stored_orElse_iff hNull).mp hOutput,
        (Rate.stored_orElse_iff hInput).mp hCached⟩
    · intro h
      obtain ⟨hInput, hOutput, hCached⟩ := h p rfl
      have hInput := (Rate.stored_orElse_iff hNull).mpr hInput
      constructor <;> simp only [toRegistryShape, hListed]
      · exact hInput
      · exact (Rate.stored_orElse_iff hNull).mpr hOutput
      · exact (Rate.stored_orElse_iff hInput).mpr hCached

theorem RegisteredModel.Priced.getPricing (h : m.Priced) :
    m.getPricing = ⟨m.inputPer1k, m.outputPer1k, m.cachedPer1k⟩ := by
  rw [RegisteredModel.getPricing, h.input.orElse_null, h.output.orElse_null, h.cached.orElse_null]

theorem takesOver_some : TakesOver numberOf (some m) p ↔
    validPricing numberOf p ∧ unchanged m.getPricing p = false := by
  simp [TakesOver]

theorem rates_of_takesOver (h : m.Priced) (hPricing : n.pricing = some p)
    (hTaken : TakesOver numberOf (some m) p) : ratesOf (m.refreshed numberOf n) =
      (p.inputPer1k.orElse m.inputPer1k, p.outputPer1k.orElse m.outputPer1k,
        p.cachedPer1k.orElse m.cachedPer1k) := by
  obtain ⟨hValid, hChanged⟩ := takesOver_some.mp hTaken
  have hKept {a b : Rate} (hb : b.Stored) (c : Rate) : assigned (a.orElse b) c = a.orElse b :=
    if_neg (Rate.orElse_ne_undefined hb.ne_undefined)
  rw [h.getPricing] at hChanged
  simp [RegisteredModel.refreshed, hPricing, hValid, hChanged, ratesOf,
    RegisteredModel.updatePrice, h.getPricing, hKept h.input, hKept h.output, hKept h.cached]

theorem rates_of_not_takesOver (hPricing : n.pricing = some p)
    (hLeft : ¬ TakesOver numberOf (some m) p) :
    ratesOf (m.refreshed numberOf n) = (m.inputPer1k, m.outputPer1k, m.cachedPer1k) := by
  obtain ⟨hInput, hOutput, hCached⟩ := m.patched_rates n
  have hSkips : (!validPricing numberOf p || unchanged m.getPricing p) = true := by
    rw [takesOver_some, not_and, Bool.not_eq_false] at hLeft
    cases hValid : validPricing numberOf p with
    | false => rfl
    | true => exact hLeft hValid
  simp [RegisteredModel.refreshed, hPricing, hSkips, ratesOf, hInput, hOutput, hCached]

theorem priced_iff_rates : m.Priced ↔ (ratesOf m).1.Stored ∧ (ratesOf m).2.1.Stored ∧
    (ratesOf m).2.2.Stored :=
  ⟨fun h => ⟨h.input, h.output, h.cached⟩, fun h => ⟨h.1, h.2.1, h.2.2⟩⟩

theorem priced_refreshed (h : m.Priced) : (m.refreshed numberOf n).Priced ↔
    ∀ p ∈ n.pricing, TakesOver numberOf (some m) p → p.Clean := by
  cases hPricing : n.pricing with
  | none =>
    refine iff_of_true ?_ fun _ hp => nomatch hp
    rw [RegisteredModel.refreshed, hPricing]
    exact h.patched n
  | some p =>
    rw [priced_iff_rates]
    by_cases hTaken : TakesOver numberOf (some m) p
    · rw [rates_of_takesOver h hPricing hTaken]
      constructor
      · rintro ⟨hInput, hOutput, hCached⟩ q hq -
        obtain rfl := Option.some.inj hq
        exact ⟨(Rate.stored_orElse_iff h.input).mp hInput,
          (Rate.stored_orElse_iff h.output).mp hOutput, (Rate.stored_orElse_iff h.cached).mp hCached⟩
      · intro hClean
        obtain ⟨hInput, hOutput, hCached⟩ := hClean p rfl hTaken
        exact ⟨(Rate.stored_orElse_iff h.input).mpr hInput,
          (Rate.stored_orElse_iff h.output).mpr hOutput, (Rate.stored_orElse_iff h.cached).mpr hCached⟩
    · rw [rates_of_not_takesOver hPricing hTaken]
      refine iff_of_true ⟨h.input, h.output, h.cached⟩ fun q hq hTakes => ?_
      obtain rfl := Option.some.inj hq
      exact absurd hTakes hTaken

theorem Rate.orElse_of_present {a : Rate} (h : a.present = true) (b : Rate) : a.orElse b = a :=
  if_pos h

theorem inStep_new (hClean : ∀ p ∈ n.pricing, p.Clean) (providerId : String) :
    InStep none (some (toRegistryShape n providerId)) n where
  exact p hp hFull := by
    have hListed (field : ListedPricing → Rate) : n.listed field = field p := by
      rw [ListedModel.listed, Option.mem_def.mp hp]
      rfl
    obtain ⟨-, hInput, hOutput⟩ := hFull
    refine ⟨_, rfl, ?_, ?_, fun hCached => ?_⟩ <;> simp only [toRegistryShape, hListed]
    · exact Rate.orElse_of_present hInput _
    · exact Rate.orElse_of_present hOutput _
    · exact Rate.orElse_of_present hCached _
  left p hp hNot := absurd (hClean p hp) hNot

theorem inStep_known (h : m.Priced) (hClean : ∀ p ∈ n.pricing, TakesOver numberOf (some m) p → p.Clean) :
    InStep (some m) (some (m.refreshed numberOf n)) n ↔
      ∀ p ∈ n.pricing, CachedFollows (some m) p := by
  cases hPricing : n.pricing with
  | none =>
    refine iff_of_true ⟨?_, ?_⟩ fun _ hp => nomatch hp <;>
    · intro p hp
      rw [hPricing] at hp
      cases hp
  | some p =>
    have hOnly {q : ListedPricing} (hq : q ∈ n.pricing) : p = q :=
      Option.some.inj (hPricing.symm.trans hq)
    by_cases hTaken : TakesOver numberOf (some m) p
    · -- all three prices are missing or valid, and go over the rates
      obtain ⟨hInput, hRates⟩ := Prod.mk.inj (rates_of_takesOver h hPricing hTaken)
      obtain ⟨hOutput, hCached⟩ := Prod.mk.inj hRates
      refine iff_of_true ⟨fun q hq hFull => ?_, fun q hq hNot => ?_⟩ fun q hq known hKnown _ hSame => ?_
      · obtain rfl := hOnly hq
        refine ⟨_, rfl, ?_, ?_, fun hPresent => ?_⟩
        · exact hInput.trans (Rate.orElse_of_present hFull.2.1 _)
        · exact hOutput.trans (Rate.orElse_of_present hFull.2.2 _)
        · exact hCached.trans (Rate.orElse_of_present hPresent _)
      · obtain rfl := hOnly hq
        exact absurd (hClean p hPricing hTaken) hNot
      · obtain rfl := Option.some.inj hq
        obtain rfl := Option.some.inj hKnown
        have hChanged := (takesOver_some.mp hTaken).2
        rw [hSame] at hChanged
        cases hChanged
    · have hRates := rates_of_not_takesOver hPricing hTaken
      obtain ⟨hInput, hRest⟩ := Prod.mk.inj hRates
      obtain ⟨hOutput, hCached⟩ := Prod.mk.inj hRest
      constructor
      · rintro ⟨hExact, -⟩ q hq known hKnown hFull - hPresent
        obtain rfl := Option.some.inj hq
        obtain rfl := Option.some.inj hKnown
        obtain ⟨m', hm', -, -, hListed⟩ := hExact p hPricing hFull
        obtain rfl := Option.some.inj hm'
        exact (hListed hPresent).symm.trans hCached
      · intro hFollows
        refine ⟨fun q hq hFull => ?_, fun q hq _ => hRates⟩
        obtain rfl := hOnly hq
        have hSame : unchanged m.getPricing p = true := by
          by_contra hNot
          exact hTaken (takesOver_some.mpr ⟨validPricing_of_clean hFull.1, Bool.eq_false_iff.mpr hNot⟩)
        have hBoth := Bool.and_eq_true_iff.mp hSame
        rw [h.getPricing] at hBoth
        refine ⟨_, rfl, ?_, ?_, fun hPresent => ?_⟩
        · exact hInput.trans ((Rate.same_iff h.input).mp hBoth.1)
        · exact hOutput.trans ((Rate.same_iff h.output).mp hBoth.2)
        · exact hCached.trans (hFollows p rfl m rfl hFull hSame hPresent).symm

def entryAfter (numberOf : String → Option ℚ) (providerId : String) (n : ListedModel)
    (m : Option RegisteredModel) : RegisteredModel :=
  m.elim (toRegistryShape n providerId) fun m => m.refreshed numberOf n

theorem refreshItem_some (hId : n.id ≠ "") : refreshItem numberOf providerId registry (some n) =
    registry.set n.id (entryAfter numberOf providerId n (registry.get n.id)) := by
  simp only [refreshItem, if_neg hId]
  cases registry.get n.id <;> rfl

theorem priced_refreshItem (h : Priced registry) (hId : n.id ≠ "") :
    Priced (refreshItem numberOf providerId registry (some n)) ↔
      ∀ p ∈ n.pricing, TakesOver numberOf (registry.get n.id) p → p.Clean := by
  have hEntry : (entryAfter numberOf providerId n (registry.get n.id)).Priced ↔
      ∀ p ∈ n.pricing, TakesOver numberOf (registry.get n.id) p → p.Clean := by
    cases hGet : registry.get n.id with
    | none =>
      rw [entryAfter, Option.elim_none, priced_toRegistryShape]
      refine forall₂_congr fun p _ => ?_
      exact ⟨fun hClean _ => hClean, fun hClean => hClean fun _ hKnown => nomatch hKnown⟩
    | some m => exact priced_refreshed (h n.id m hGet)
  rw [refreshItem_some hId, ← hEntry]
  constructor
  · exact fun hPriced => hPriced n.id _ (registry.get_set_self n.id _)
  · intro hPriced id m hGet
    rw [OrderedMap.get_set] at hGet
    split at hGet
    · exact Option.some.inj hGet ▸ hPriced
    · exact h id m hGet

theorem inStep_refreshItem (h : Priced registry) (hId : n.id ≠ "")
    (hClean : ∀ p ∈ n.pricing, TakesOver numberOf (registry.get n.id) p → p.Clean) :
    InStep (registry.get n.id) ((refreshItem numberOf providerId registry (some n)).get n.id) n ↔
      ∀ p ∈ n.pricing, CachedFollows (registry.get n.id) p := by
  rw [refreshItem_some hId, OrderedMap.get_set_self]
  cases hGet : registry.get n.id with
  | none =>
    rw [hGet] at hClean
    refine iff_of_true (inStep_new (fun p hp => ?_) providerId) fun _ _ _ hKnown => nomatch hKnown
    exact hClean p hp fun _ hKnown => nomatch hKnown
  | some m =>
    rw [hGet] at hClean
    exact inStep_known (h n.id m hGet) hClean

theorem get_refreshAll (items : List (Option ListedModel)) {id : String}
    (hOther : ∀ n, some n ∈ items → n.id ≠ id) :
    (refreshAll numberOf providerId registry items).get id = registry.get id := by
  induction items generalizing registry with
  | nil => rfl
  | cons item items ih =>
    have hRest := @ih (refreshItem numberOf providerId registry item) fun n hn =>
      hOther n (List.mem_cons_of_mem item hn)
    refine hRest.trans ?_
    cases item with
    | none => rfl
    | some n =>
      by_cases hId : n.id = ""
      · rw [refreshItem, if_pos hId]
      · rw [refreshItem_some hId]
        exact registry.get_set_ne _ (hOther n List.mem_cons_self).symm

end Entry

theorem refreshItem_skipped {item : Option ListedModel} (hSkip : ∀ n ∈ item, n.id = "") :
    refreshItem numberOf providerId registry item = registry := by
  cases item with
  | none => rfl
  | some n => rw [refreshItem, if_pos (hSkip n rfl)]

theorem entry_iff (h : Priced registry) (item : Option ListedModel)
    (rest : List (Option ListedModel)) :
    (Priced (refreshItem numberOf providerId registry item) ∧
      (∀ n ∈ item, n.id ≠ "" → ¬ Again n rest → InStep (registry.get n.id)
        ((refreshAll numberOf providerId (refreshItem numberOf providerId registry item) rest).get
          n.id) n)) ↔
      ∀ n ∈ item, n.id ≠ "" → ∀ p ∈ n.pricing,
        (TakesOver numberOf (registry.get n.id) p → p.Clean) ∧
          (¬ Again n rest → CachedFollows (registry.get n.id) p) := by
  by_cases hSkip : ∀ n ∈ item, n.id = ""
  · rw [refreshItem_skipped hSkip]
    refine iff_of_true ⟨h, fun n hn hId => ?_⟩ fun n hn hId => ?_ <;> exact absurd (hSkip n hn) hId
  simp only [not_forall] at hSkip
  obtain ⟨n, hn, hId⟩ := hSkip
  obtain rfl := Option.mem_def.mp hn
  have hLast (hOnce : ¬ Again n rest) :
      (refreshAll numberOf providerId (refreshItem numberOf providerId registry (some n)) rest).get
        n.id = (refreshItem numberOf providerId registry (some n)).get n.id :=
    get_refreshAll rest fun n' hn' hSame => hOnce ⟨n', hn', hSame⟩
  rw [priced_refreshItem h hId]
  constructor
  · rintro ⟨hClean, hStep⟩ n' hn' - p hp
    obtain rfl := Option.some.inj hn'
    refine ⟨hClean p hp, fun hOnce => ?_⟩
    have hInStep := hStep n rfl hId hOnce
    rw [hLast hOnce] at hInStep
    exact (inStep_refreshItem h hId hClean).mp hInStep p hp
  · intro hBoth
    have hClean (p : ListedPricing) (hp : p ∈ n.pricing) := (hBoth n rfl hId p hp).1
    refine ⟨hClean, fun n' hn' _ hOnce => ?_⟩
    obtain rfl := Option.some.inj hn'
    rw [hLast hOnce]
    exact (inStep_refreshItem h hId hClean).mpr fun p hp => (hBoth n rfl hId p hp).2 hOnce

theorem keepsPrices_iff (h : Priced registry) (items : List (Option ListedModel)) :
    KeepsPrices numberOf providerId registry items ↔
      HarmlessListing numberOf providerId registry items := by
  induction items generalizing registry with
  | nil => rfl
  | cons item rest ih =>
    rw [KeepsPrices, HarmlessListing, ← entry_iff h item rest, ← and_assoc]
    refine and_congr_right fun hEntry => ?_
    exact ih hEntry.1

theorem KeepsPrices.priced (h : Priced registry) {items : List (Option ListedModel)}
    (hKeeps : KeepsPrices numberOf providerId registry items) :
    Priced (refreshAll numberOf providerId registry items) := by
  induction items generalizing registry with
  | nil => exact h
  | cons item rest ih => exact ih hKeeps.1 hKeeps.2.2

def discover (numberOf : String → Option ℚ) (registry : ModelRegistry) (r : Refresh) :
    Option ModelRegistry :=
  some (refreshOnce numberOf registry r)

/-- The rates of the registry stay valid and in step with the provider exactly as long as no
refresh takes an invalid price over, and none changes the cached rate alone. -/
theorem rates_in_step_iff (h : Priced registry) (refreshes : List Refresh) :
    Along (discover numberOf)
        (fun registry r => KeepsPrices numberOf r.providerId registry (r.listing.getD []))
        registry refreshes ↔
      Along (discover numberOf)
        (fun registry r => HarmlessListing numberOf r.providerId registry (r.listing.getD []))
        registry refreshes := by
  refine along_congr (I := Priced) (fun s r hs => ⟨keepsPrices_iff hs _, ?_⟩) h refreshes
  rintro _ ⟨⟩ hKeeps
  exact hKeeps.priced hs

def priceText : String → Option ℚ
  | "-1" => some (-1)
  | "0.000002" => some (1 / 500000)
  | _ => none

def rawModel (prompt completion : String) : RawModel where
  id := "vendor/model"
  name := "Model"
  contextLength := 8000
  prompt := some prompt
  completion := some completion
  inputCacheRead := none
  capabilities := ⟨true, false, false⟩

def refreshOf (prompt completion : String) : Refresh where
  providerId := "openrouter"
  listing := some [some ((rawModel prompt completion).normalizeModel priceText)]

theorem priced_empty : Priced OrderedMap.empty := fun _ _ h => nomatch h

theorem rates_in_step_new : Along (discover priceText)
    (fun registry r => KeepsPrices priceText r.providerId registry (r.listing.getD []))
    OrderedMap.empty [refreshOf "0.000002" "0.000002"] := by
  refine (rates_in_step_iff priced_empty _).mpr ⟨⟨fun n hn _ p hp => ?_, trivial⟩, trivial⟩
  obtain rfl := Option.some.inj hn
  obtain rfl := Option.some.inj hp
  exact ⟨fun _ => by decide +kernel, fun _ _ hKnown => nomatch hKnown⟩

/-- A new model is listed for -1 dollar a token, as a provider lists a model without a fixed price:
its rates of -1000 dollars per thousand tokens get into the registry. -/
theorem negative_rate_registered : ¬ Along (discover priceText)
    (fun registry r => KeepsPrices priceText r.providerId registry (r.listing.getD []))
    OrderedMap.empty [refreshOf "-1" "-1"] := by
  rintro ⟨⟨hPriced, -⟩, -⟩
  have hInput := (hPriced "vendor/model" _ rfl).input
  exact absurd hInput (by decide +kernel)

end OrchestraAI.Providers
