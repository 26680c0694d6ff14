import OrchestraAI.Economics.Billing
import OrchestraAI.Library.GroupedFold

/-! # Analytics

`buildAnalytics` of `analytics.js` and `periodFor` of `billing.js`. What the platform makes of a date
and how it compares texts are parameters.
-/

namespace OrchestraAI.Economics

open GroupedFold
open OrchestraAI.Recovery (truthy)

/-- `Date` and `localeCompare`. -/
structure Calendar where
  /-- The time of `new Date(text)`, if it is a date. -/
  time : String → Option ℤ
  /-- The year and the month, counted from zero, of a time in UTC. -/
  month : ℤ → ℤ × Nat
  now : ℤ
  le : String → String → Bool

structure AnalyticsStep where
  actualModel : Option String
  provider : Option String
  actualCost : Field
  baselineCost : Field
  inputTokens : Field
  outputTokens : Field
  cachedTokens : Field
  reasoningTokens : Field

structure AnalyticsEconomics extends SavingsInput where
  steps : List AnalyticsStep

def StepBreakdown.read (s : StepBreakdown) : AnalyticsStep where
  actualModel := some s.actualModel
  provider := some s.provider
  actualCost := .value (some s.actualCost)
  baselineCost := .value (some s.baselineCost)
  inputTokens := .undefined
  outputTokens := .undefined
  cachedTokens := .undefined
  reasoningTokens := .undefined

def SavingsResult.analytics (r : SavingsResult) : AnalyticsEconomics :=
  { r.asInput with steps := r.steps.map StepBreakdown.read }

/-- The cache of a stored snapshot: its counters, and the types of its recent events. -/
structure CacheCounters where
  hits : Field
  misses : Field
  recent : List String

structure AnalyticsRun where
  id : String
  title : Option String
  updatedAt : Option String
  createdAt : Option String
  cache : CacheCounters

structure AnalyticsOptions where
  start : Option String
  stop : Option String

variable (cal : Calendar)

def AnalyticsRun.date (run : AnalyticsRun) : Option String :=
  (truthy run.updatedAt).or run.createdAt

def periodOf (time : ℤ) : String :=
  let (year, month) := cal.month time
  s!"{year}-" ++ (if month + 1 < 10 then "0" else "") ++ toString (month + 1)

def periodFor (date : Option String) : String :=
  match date with
  | none => periodOf cal cal.now
  | some text => ((cal.time text).map (periodOf cal)).getD "unknown"

def withinRange (run : AnalyticsRun) (options : AnalyticsOptions) : Bool :=
  match (truthy run.date).elim (some 0) cal.time with
  | none => false
  | some ts =>
    !(truthy options.start).any (fun text => (cal.time text).any (ts < ·)) &&
      !(truthy options.stop).any (fun text => (cal.time text).any (· < ts))

structure BreakdownRow where
  model : Option String
  provider : String
  cost : ℚ
  baseline : ℚ
  runs : Nat

structure TrendRow where
  period : String
  baseline : ℚ
  optimized : ℚ
  savings : ℚ
  negativeImpact : ℚ
  runs : Nat

structure StatusCounts where
  verified : Nat
  insufficient : Nat
  incomplete : Nat
  noSavings : Nat
  costIncrease : Nat

structure AnalyticsRow where
  runId : String
  title : String
  date : Option String
  savings : AnalyticsEconomics

structure Accumulated where
  rows : List AnalyticsRow
  modelBreakdown : OrderedMap String BreakdownRow
  providerBreakdown : OrderedMap String BreakdownRow
  tokenComposition : TokenCounts
  trend : OrderedMap String TrendRow
  cacheHits : ℚ
  cacheMisses : ℚ
  statusCounts : StatusCounts

def Accumulated.zero : Accumulated :=
  ⟨[], .empty, .empty, ⟨0, 0, 0, 0⟩, .empty, 0, 0, ⟨0, 0, 0, 0, 0⟩⟩

/-- `Number(field) || 0`. -/
def Field.orZero (f : Field) : ℚ := f.toNumber.getD 0

def AnalyticsStep.modelKey (s : AnalyticsStep) : String := orText s.actualModel "unknown"

def AnalyticsStep.providerKey (s : AnalyticsStep) : String := orText s.provider "unknown"

/-- A row with the costs of one more step; a new row starts as `blank`. -/
def BreakdownRow.addStep (blank : BreakdownRow) (row : Option BreakdownRow) (s : AnalyticsStep) :
    BreakdownRow :=
  let row := row.getD blank
  { row with
    cost := row.cost + s.actualCost.orZero
    baseline := row.baseline + s.baselineCost.orZero
    runs := row.runs + 1 }

def modelRow (row : Option BreakdownRow) (s : AnalyticsStep) : BreakdownRow :=
  BreakdownRow.addStep ⟨some s.modelKey, s.providerKey, 0, 0, 0⟩ row s

def providerRow (row : Option BreakdownRow) (s : AnalyticsStep) : BreakdownRow :=
  BreakdownRow.addStep ⟨none, s.providerKey, 0, 0, 0⟩ row s

def TokenCounts.addStep (t : TokenCounts) (s : AnalyticsStep) : TokenCounts :=
  ⟨t.input + s.inputTokens.orZero, t.output + s.outputTokens.orZero,
    t.cached + s.cachedTokens.orZero, t.reasoning + s.reasoningTokens.orZero⟩

def Accumulated.addStep (a : Accumulated) (s : AnalyticsStep) : Accumulated :=
  { a with
    modelBreakdown := a.modelBreakdown.set s.modelKey (modelRow (a.modelBreakdown.get s.modelKey) s)
    providerBreakdown := a.providerBreakdown.set s.providerKey
      (providerRow (a.providerBreakdown.get s.providerKey) s)
    tokenComposition := a.tokenComposition.addStep s }

def StatusCounts.add (c : StatusCounts) (e : AnalyticsEconomics) : StatusCounts :=
  if e.status = some "incomplete_run" then { c with incomplete := c.incomplete + 1 }
  else if e.status = some "insufficient_pricing_data" then
    { c with insufficient := c.insufficient + 1 }
  else if e.status = some "cost_increase" then { c with costIncrease := c.costIncrease + 1 }
  else if e.status = some "no_savings" ∨ e.economicOutcome = some "unchanged" then
    { c with noSavings := c.noSavings + 1 }
  else if e.calculationStatus = some "verified_modeled" then { c with verified := c.verified + 1 }
  else c

def TrendRow.add (t : TrendRow) (e : AnalyticsEconomics) : TrendRow :=
  { t with
    baseline := t.baseline + e.baselineCost.orZero
    optimized := t.optimized + e.actualCost.orZero
    savings := t.savings + max 0 e.savings.orZero
    negativeImpact := t.negativeImpact + min 0 e.savings.orZero
    runs := t.runs + 1 }

def trendRow (t : Option TrendRow) (row : AnalyticsRow) : TrendRow :=
  (t.getD ⟨periodFor cal row.date, 0, 0, 0, 0, 0⟩).add row.savings

def CacheCounters.hitsAndMisses (c : CacheCounters) : ℚ × ℚ :=
  if c.hits.toNumber.isSome || c.misses.toNumber.isSome then (c.hits.orZero, c.misses.orZero)
  else
    ((c.recent.countP (· = "cache.hit") : ℕ), (c.recent.countP (· = "cache.miss") : ℕ))

def Accumulated.addRun (a : Accumulated) (run : AnalyticsRun) (economics : AnalyticsEconomics) :
    Accumulated :=
  let line : AnalyticsRow := ⟨run.id, orText run.title "Untitled task", run.date, economics⟩
  let period := periodFor cal line.date
  let stepped := economics.steps.foldl Accumulated.addStep a
  let (hits, misses) := run.cache.hitsAndMisses
  { stepped with
    rows := a.rows ++ [line]
    statusCounts := a.statusCounts.add economics
    trend := a.trend.set period (trendRow cal (a.trend.get period) line)
    cacheHits := a.cacheHits + hits
    cacheMisses := a.cacheMisses + misses }

structure NormalizedRow extends BreakdownRow where
  modeledSavings : ℚ

def normalizeRow (row : BreakdownRow) : NormalizedRow :=
  { row with
    cost := round6 row.cost
    baseline := round6 row.baseline
    modeledSavings := round6 (row.baseline - row.cost) }

def breakdown (m : OrderedMap String BreakdownRow) : List NormalizedRow :=
  (m.values.map normalizeRow).mergeSort fun a b => b.cost ≤ a.cost

def TrendRow.rounded (t : TrendRow) : TrendRow :=
  { t with
    baseline := round6 t.baseline
    optimized := round6 t.optimized
    savings := round6 t.savings
    negativeImpact := round6 t.negativeImpact }

structure SavingsPoint where
  period : String
  savings : ℚ
  rate : ℚ

structure CacheImpact where
  hits : ℚ
  misses : ℚ
  hitRate : ℚ

structure RecentRun where
  runId : String
  title : String
  date : Option String
  status : Option String
  calculationStatus : Option String
  economicOutcome : Option String
  baselineCost : Field
  optimizedProviderCost : Field
  platformFee : Field
  customerNetSavings : Field

structure AnalyticsQuality where
  totalRuns : Nat
  verifiedCount : Nat
  insufficientCount : Nat
  incompleteCount : Nat
  noSavingsCount : Nat
  costIncreaseCount : Nat
  coverageRate : ℚ
  label : String

structure Analytics where
  summary : BillingAggregate
  spendTrend : List TrendRow
  savingsTrend : List SavingsPoint
  modelBreakdown : List NormalizedRow
  providerBreakdown : List NormalizedRow
  tokenComposition : TokenCounts
  cacheImpact : CacheImpact
  recentRuns : List RecentRun
  dataQuality : AnalyticsQuality

def AnalyticsRow.recent (r : AnalyticsRow) : RecentRun where
  runId := r.runId
  title := r.title
  date := r.date
  status := r.savings.status
  calculationStatus := truthy r.savings.calculationStatus
  economicOutcome := truthy r.savings.economicOutcome
  baselineCost := r.savings.baselineCost
  optimizedProviderCost := r.savings.actualCost
  platformFee := r.savings.platformFee
  customerNetSavings := r.savings.customerNetSavings

def accumulate (selected : List (AnalyticsRun × AnalyticsEconomics)) : Accumulated :=
  selected.foldl (fun a run => a.addRun cal run.1 run.2) .zero

def selectRuns (runs : List AnalyticsRun)
    (economicsByRun : String → Option AnalyticsEconomics) (options : AnalyticsOptions) :
    List (AnalyticsRun × AnalyticsEconomics) :=
  (runs.filter fun run => withinRange cal run options).filterMap fun run =>
    (economicsByRun run.id).map fun economics => (run, economics)

def buildAnalytics (runs : List AnalyticsRun)
    (economicsByRun : String → Option AnalyticsEconomics) (options : AnalyticsOptions) :
    Analytics :=
  let a := accumulate cal (selectRuns cal runs economicsByRun options)
  let spendTrend :=
    (a.trend.values.mergeSort fun t u => cal.le t.period u.period).map TrendRow.rounded
  let counts := a.statusCounts
  { summary := aggregate (a.rows.map fun row => row.savings.toSavingsInput)
    spendTrend := spendTrend
    savingsTrend := spendTrend.map fun t =>
      ⟨t.period, t.savings, if 0 < t.baseline then round6 (t.savings / t.baseline) else 0⟩
    modelBreakdown := breakdown a.modelBreakdown
    providerBreakdown := breakdown a.providerBreakdown
    tokenComposition := a.tokenComposition
    cacheImpact :=
      ⟨a.cacheHits, a.cacheMisses,
        if 0 < a.cacheHits + a.cacheMisses then
          round6 (a.cacheHits / (a.cacheHits + a.cacheMisses))
        else 0⟩
    recentRuns := (a.rows.rtake 20).reverse.map AnalyticsRow.recent
    dataQuality :=
      { totalRuns := a.rows.length
        verifiedCount := counts.verified
        insufficientCount := counts.insufficient
        incompleteCount := counts.incomplete
        noSavingsCount := counts.noSavings
        costIncreaseCount := counts.costIncrease
        coverageRate := if a.rows.isEmpty then 0 else round6 (counts.verified / a.rows.length)
        label :=
          if counts.verified = a.rows.length ∧ 0 < a.rows.length then "verified_modeled"
          else "mixed_or_insufficient" } }

end OrchestraAI.Economics
