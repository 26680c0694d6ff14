import Mathlib.Data.List.Sort
import OrchestraAI.Core.Run
import OrchestraAI.Economics.ModelCallRecord
import OrchestraAI.Library.JsonText
import OrchestraAI.Library.NewestWindow
import OrchestraAI.Library.OrderedMap
import OrchestraAI.Library.RoundedGrid

/-! # The performance store

`ModelPerformanceStore` of `intelligence/performance-store.js`: what is counted of an outcome, and
the estimates that are made of the counts. The average of the quality scores, which no estimate
reads, is left out.
-/

namespace OrchestraAI.Intelligence

open OrchestraAI.Core (cut)
open OrchestraAI.Economics (Field)
open OrchestraAI.Recovery (truthy)
open RoundedGrid (toGrid)

def MIN_SAMPLES_FOR_OBSERVED : Nat := 3
def DEFAULT_PRIOR_SUCCESS : ℚ := 7 / 10
def DEFAULT_PRIOR_SAMPLES : ℚ := 4
@[irreducible] def MAX_LATENCY_SAMPLES : Nat := 40

def percentile (sortedAsc : List ℤ) (p : Nat) : Option ℤ :=
  sortedAsc[min (sortedAsc.length - 1) ((p * sortedAsc.length + 99) / 100 - 1)]?

structure LatencyStats where
  count : Nat
  p50 : Option ℤ
  p75 : Option ℤ
  p95 : Option ℤ
  mean : Option ℤ
  deriving DecidableEq

def latencyStats (samples : List ℤ) : LatencyStats :=
  let nums := (samples.filter fun v => 0 ≤ v).insertionSort (· ≤ ·)
  if nums = [] then ⟨0, none, none, none, none⟩
  else
    { count := nums.length
      p50 := percentile nums 50
      p75 := percentile nums 75
      p95 := percentile nums 95
      mean := some (round ((nums.sum : ℚ) / nums.length)) }

inductive Confidence
  | none
  | low
  | medium
  | high
  deriving DecidableEq

def confidenceFor (n : Nat) : Confidence :=
  if 100 ≤ n then .high
  else if 20 ≤ n then .medium
  else if MIN_SAMPLES_FOR_OBSERVED ≤ n then .low
  else .none

inductive ToolProfile
  | absent
  | names (names : List String)
  | text (text : String)

structure Workload where
  contextTokens : Field
  toolProfile : ToolProfile

def contextBucket (contextTokens : Field) : Option String :=
  match contextTokens.toNumber with
  | none => none
  | some n =>
    if n < 0 then none
    else if n ≤ 2000 then some "s"
    else if n ≤ 16000 then some "m"
    else some "l"

def toolProfileKey : ToolProfile → Option String
  | .absent => none
  | .names names =>
    let names := (names.filter (· ≠ "")).insertionSort fun a b => codeUnits a ≤ codeUnits b
    if names = [] then some "tools:none" else some ("tools:" ++ ",".intercalate names)
  | .text text => if text = "" then none else some ("tools:" ++ cut 120 text)

def workloadKey (workload : Workload) : Option String :=
  match contextBucket workload.contextTokens, toolProfileKey workload.toolProfile with
  | none, none => none
  | ctx, tools => some (ctx.getD "ctx:?" ++ "|" ++ tools.getD "tools:?")

/-- The outcomes with a known success, of a category or of a workload in it. -/
structure Slice where
  attempts : Nat
  successes : Nat
  deriving DecidableEq

def Slice.add (w : Slice) (success : Bool) : Slice :=
  ⟨w.attempts + 1, if success then w.successes + 1 else w.successes⟩

structure Record where
  modelId : String
  category : String
  tenantId : Option String
  counts : Slice
  latencySamples : List ℤ
  workloads : OrderedMap String Slice

structure Reliability where
  modelId : String
  tenantId : Option String
  samples : Nat
  failures : Nat
  byError : OrderedMap String Nat

structure ModelPerformanceStore where
  /-- By model, tenant and category. -/
  records : OrderedMap String Record
  /-- By model and tenant. -/
  reliability : OrderedMap String Reliability

/-- An outcome, with the arguments that it is recorded under. -/
structure Outcome where
  modelId : String
  category : String
  tenantId : Option String
  orgId : Option String
  /-- `true`, `false`, or neither. -/
  success : Option Bool
  latencyMs : Field
  errorCode : Option String
  workload : Workload

def Outcome.tenant (o : Outcome) : Option String := o.tenantId.or (truthy o.orgId)

def tenantOf (tenantId : Option String) : String := cut 128 (tenantId.getD "")

def orGeneral (category : String) : String := if category = "" then "general" else category

/-- `_key`. -/
def recordKey (modelId category : String) (tenantId : Option String) : String :=
  modelId ++ "::" ++ tenantOf tenantId ++ "::" ++ orGeneral category

def reliabilityKey (modelId : String) (tenantId : Option String) : String :=
  modelId ++ "::" ++ tenantOf tenantId

def Outcome.sample (o : Outcome) : Option ℤ := o.latencyMs.observed.map round

/-- What `_record` creates. -/
def newRecord (o : Outcome) : Record where
  modelId := o.modelId
  category := orGeneral o.category
  tenantId := truthy (some (tenantOf o.tenant))
  counts := ⟨0, 0⟩
  latencySamples := []
  workloads := .empty

def Record.countSuccess (r : Record) (o : Outcome) : Record :=
  match o.success with
  | none => r
  | some success =>
    { r with
      counts := r.counts.add success
      workloads :=
        match workloadKey o.workload with
        | none => r.workloads
        | some key => r.workloads.set key (((r.workloads.get key).getD ⟨0, 0⟩).add success) }

def Record.countLatency (r : Record) (o : Outcome) : Record :=
  { r with latencySamples := (r.latencySamples ++ o.sample.toList).rtake MAX_LATENCY_SAMPLES }

def addOutcome (r : Option Record) (o : Outcome) : Record :=
  ((r.getD (newRecord o)).countSuccess o).countLatency o

/-- `_recordReliability`. -/
def addReliability (rel : Option Reliability) (o : Outcome) : Reliability :=
  let rel := rel.getD ⟨o.modelId, truthy (some (tenantOf o.tenant)), 0, 0, .empty⟩
  let rel := { rel with samples := rel.samples + 1 }
  if o.success = some false then
    let code := cut 64 ((truthy o.errorCode).getD "unknown")
    { rel with
      failures := rel.failures + 1
      byError := rel.byError.set code ((rel.byError.get code).getD 0 + 1) }
  else rel

namespace ModelPerformanceStore

def new : ModelPerformanceStore := ⟨.empty, .empty⟩

def recordOutcome (s : ModelPerformanceStore) (o : Outcome) : ModelPerformanceStore :=
  if o.modelId = "" then s
  else
    let key := recordKey o.modelId o.category o.tenant
    { records := s.records.set key (addOutcome (s.records.get key) o)
      reliability :=
        if (truthy o.errorCode).isSome then
          let rkey := reliabilityKey o.modelId o.tenant
          s.reliability.set rkey (addReliability (s.reliability.get rkey) o)
        else s.reliability }

structure WorkloadNote where
  key : String
  attempts : Nat
  successes : Nat
  /-- There is enough evidence of the workload itself. -/
  sufficient : Bool
  deriving DecidableEq

structure Prediction where
  predicted : ℚ
  observed : Option ℚ
  attempts : Nat
  successes : Nat
  confidence : Confidence
  workload : Option WorkloadNote
  deriving DecidableEq

def predictFrom (r : Option Record) (workload : Option Workload) : Prediction :=
  let counts := (r.map Record.counts).getD ⟨0, 0⟩
  let smoothed := (counts.successes + DEFAULT_PRIOR_SUCCESS * DEFAULT_PRIOR_SAMPLES) /
    (counts.attempts + DEFAULT_PRIOR_SAMPLES)
  let out : Prediction :=
    { predicted := toGrid 1000 smoothed
      observed :=
        if MIN_SAMPLES_FOR_OBSERVED ≤ counts.attempts then
          some (toGrid 1000 (counts.successes / counts.attempts))
        else none
      attempts := counts.attempts
      successes := counts.successes
      confidence := confidenceFor counts.attempts
      workload := none }
  match workload.bind workloadKey with
  | none => out
  | some key =>
    let slice := ((r.bind fun r => r.workloads.get key)).getD ⟨0, 0⟩
    if 2 ≤ slice.attempts then
      { out with
        predicted := toGrid 1000 ((slice.successes + smoothed * 2) / (slice.attempts + 2))
        workload := some ⟨key, slice.attempts, slice.successes, true⟩ }
    else { out with workload := some ⟨key, slice.attempts, slice.successes, false⟩ }

structure ReliabilityFigure where
  samples : Nat
  failureRate : ℚ
  byError : OrderedMap String Nat

def reliabilityFrom (rel : Option Reliability) : Option ReliabilityFigure :=
  rel.bind fun rel =>
    if rel.samples < MIN_SAMPLES_FOR_OBSERVED then none
    else some ⟨rel.samples, toGrid 1000 (rel.failures / rel.samples), rel.byError⟩

variable (s : ModelPerformanceStore) (modelId category : String) (tenantId : Option String)

def predictedSuccess (workload : Option Workload) : Prediction :=
  predictFrom (s.records.get (recordKey modelId category tenantId)) workload

def latency : LatencyStats :=
  latencyStats (((s.records.get (recordKey modelId category tenantId)).map
    Record.latencySamples).getD [])

def reliabilityFor : Option ReliabilityFigure :=
  reliabilityFrom (s.reliability.get (reliabilityKey modelId tenantId))

end ModelPerformanceStore

end OrchestraAI.Intelligence
