import OrchestraAI.Library.LabelledSystem
import OrchestraAI.Memory.Records

/-! # The memory manager

`impl/memory-manager.js`: the working and the long-term store that all runs share, what each write
does to them and what a read returns.
-/

namespace OrchestraAI.Memory

open LabelledSystem

structure Identity where
  orgId : Field
  projectId : Field
  userId : Field
  ownerId : Field

/-- `userId || ownerId || null`. -/
def Identity.user (who : Identity) : Option Text := (who.userId.or who.ownerId).given

def MemoryRecord.owner (m : MemoryRecord) : Option Text := (m.userId.or m.ownerId).given

structure Runtime where
  runId : RunId
  identity : Identity
  objective : Text
  /-- `policy.allowDurableMemory !== false`. -/
  allowDurableMemory : Bool

abbrev Store := OrderedMap Text MemoryRecord

/-- The condition of `_visibleItems`. -/
def visibleTo (runtime : Runtime) (i : MemoryRecord) : Bool :=
  let orgId := runtime.identity.orgId.or .null
  let projectId := runtime.identity.projectId.or .null
  if ∃ owner ∈ i.owner, ∃ user ∈ runtime.identity.user, owner ≠ user then false
  else if i.runId = runtime.runId.field then true
  else if i.runId.given.isSome ∧ i.runId ≠ .text shared then
    i.orgId = orgId ∧
      (projectId.given = none ∨ i.projectId.given = none ∨ i.projectId = projectId)
  else i.orgId.given = none ∨ orgId.given = none ∨ i.orgId = orgId

/-- The comparison of `_visibleItems`: own records first, then by importance and confidence. -/
def comesFirst (runtime : Runtime) (a b : MemoryRecord) : Bool :=
  let aOwn := a.runId = runtime.runId.field
  let bOwn := b.runId = runtime.runId.field
  if aOwn ↔ bOwn then b.importance * b.confidence ≤ a.importance * a.confidence else aOwn

def visibleItems (store : Store) (runtime : Runtime) : List MemoryRecord :=
  ((store.values.filter (·.status = .active)).filter (visibleTo runtime)).insertionSort
    fun a b => comesFirst runtime a b

/-- `_rankByQuery(items, query, options)`: the items with their scores. -/
def rankByQuery (tools : TextTools) (query now : Text) (runtime : Runtime)
    (items : List MemoryRecord) : List MemoryRecord :=
  if query = [] then items
  else
    let limit := if items.length = 0 then 10 else items.length
    let ranked := rankMemories tools query runtime.objective now limit items
    let scored := items.filterMap fun item =>
      match ranked.find? (·.1.id = item.id) with
      | none => none
      | some (_, score) =>
        if score ≤ 0 then none
        else
          let score := if item.conflictWith.isSome then RoundedGrid.toGrid 1000 (score * (7 / 10))
            else score
          some (item, score)
    let ordered := scored.insertionSort fun a b =>
      b.2 < a.2 ∨ b.2 = a.2 ∧
        let aOwn := a.1.runId = runtime.runId.field
        let bOwn := b.1.runId = runtime.runId.field
        if aOwn ↔ bOwn then tools.localeLe a.1.id b.1.id else aOwn
    ordered.map fun x => { x.1 with retrievalScore := some x.2 }

structure Answered where
  runtime : Runtime
  scope : Scope
  stored : List MemoryRecord
  visible : List MemoryRecord
  returned : List MemoryRecord

structure MemoryManager where
  maxWorkingItems : Nat
  maxLongTermItems : Nat
  duplicateThreshold : ℚ
  workingMemory : Store
  longTermMemory : Store
  /-- All reads there have been. -/
  answered : List Answered

namespace MemoryManager

def store (s : MemoryManager) : Scope → Store
  | .working => s.workingMemory
  | .longterm => s.longTermMemory

def withStore (s : MemoryManager) (store : Store) : Scope → MemoryManager
  | .working => { s with workingMemory := store }
  | .longterm => { s with longTermMemory := store }

/-- `_toRecord(item, scope, runId, runtimeState)`. -/
def toRecord (runtime : Runtime) (newId now : Text) (scope : Scope) (item : MemoryItem) :
    MemoryRecord :=
  let base := createMemoryRecord newId now scope
    { item with
      sourceRunId := runtime.runId.field
      runId := runtime.runId.field
      orgId := (runtime.identity.orgId.or item.orgId).or .null
      projectId := (runtime.identity.projectId.or item.projectId).or .null }
  { base with runId := item.runId.or runtime.runId.field, writers := [runtime.runId] }

def sanitizeInput (tools : TextTools) (item : MemoryItem) : MemoryItem :=
  { item with
    title := item.title.map fun t => Text.sliceUnits 300 (tools.redactSecrets t)
    snippet := item.snippet.map fun t => Text.sliceUnits 2000 (tools.redactSecrets t)
    content := item.content.map fun t => Text.sliceUnits 4000 (tools.redactSecrets t) }

def oldest (store : Store) : Option MemoryRecord :=
  store.values.foldl (fun oldest item =>
    if item.status ≠ .active then oldest
    else
      match oldest with
      | none => some item
      | some o => if item.lastUsedAt.before o.lastUsedAt then some item else some o) none

def evictOldest (store : Store) (status : MemoryStatus) : Store :=
  match oldest store with
  | none => store
  | some o => store.set o.id { o with status := status }

def insert (store : Store) (cap : Nat) (status : MemoryStatus) (m : MemoryRecord) : Store :=
  let added := store.set m.id m
  if cap < added.size then evictOldest added status else added

/-- `writeWorkingMemory(runtimeState, item)`. -/
def writeWorkingMemory (tools : TextTools) (s : MemoryManager) (runtime : Runtime)
    (item : MemoryItem) (newId now : Text) : MemoryManager :=
  let clean := sanitizeInput tools item
  let classification := classifyMemoryCandidate tools clean false
  let m := toRecord runtime newId now .working
    { clean with confidence := clean.confidence.or (some classification.confidence) }
  { s with
    workingMemory := insert s.workingMemory s.maxWorkingItems .evicted
      { m with title := clean.title, snippet := clean.snippet } }

inductive Proposal
  | reject
  | quarantine (classification : Classification) (sanitized : MemoryItem)
  | persist (classification : Classification) (sanitized : MemoryItem)

/-- `proposeMemory` with the long-term store as the target. -/
def proposeMemory (tools : TextTools) (runtime : Runtime) (item : MemoryItem) (explicit : Bool) :
    Proposal :=
  let clean := sanitizeInput tools item
  if clean.title.given = none ∧ clean.snippet.given = none then .reject
  else
    let explicit := explicit || item.durable || item.candidateApproved
    let classification := classifyMemoryCandidate tools clean explicit
    if ¬ explicit ∧ (¬ runtime.allowDurableMemory ∨ classification.kind = .secretOrUnsafe ∨
        classification.kind = .unvettedModelOutput) then
      .quarantine classification clean
    else .persist classification clean

/-- `writeLongTermMemory(runtimeState, item, options)` with the record that it returns; `none` where
it throws. -/
def writeLongTermMemory (tools : TextTools) (s : MemoryManager) (runtime : Runtime)
    (item : MemoryItem) (explicit : Bool) (newId now : Text) :
    Option (MemoryManager × MemoryRecord) :=
  match proposeMemory tools runtime item explicit with
  | .reject => none
  | .quarantine classification clean =>
    let m := toRecord runtime newId now .working
      { clean with confidence := some (min (item.confidence.getD (1 / 2)) classification.confidence) }
    let m := { m with title := clean.title, snippet := clean.snippet }
    some ({ s with workingMemory := s.workingMemory.set m.id m }, m)
  | .persist classification clean =>
    let m := toRecord runtime newId now .longterm
      { clean with confidence := clean.confidence.or (some classification.confidence) }
    let m := { m with title := clean.title, snippet := clean.snippet }
    some ({ s with
      longTermMemory := insert s.longTermMemory s.maxLongTermItems .archived m }, m)

def approveMemoryCandidate (tools : TextTools) (s : MemoryManager) (runtime : Runtime)
    (item : MemoryItem) (newId now : Text) : Option (MemoryManager × MemoryRecord) :=
  writeLongTermMemory tools s runtime { item with candidateApproved := true } true newId now

/-- What `writeLongTermConsolidated` decides; `none` where deciding throws. -/
def consolidate (tools : TextTools) (s : MemoryManager) (runtime : Runtime) (item : MemoryItem)
    (candidateId now : Text) : Option Consolidation :=
  consolidateCandidate tools s.duplicateThreshold now
    (createMemoryRecord candidateId now .longterm item) (visibleItems s.longTermMemory runtime)

def markConflict (s : MemoryManager) (m target : MemoryRecord) : MemoryManager :=
  match (s.store m.scope).get m.id with
  | none => s
  | some found =>
    s.withStore ((s.store m.scope).set m.id { found with conflictWith := some target.id }) m.scope

/-- `writeLongTermConsolidated(runtimeState, item)`. A record that conflicts is marked with the
write: only the rank of later reads depends on it. -/
def writeLongTermConsolidated (tools : TextTools) (s : MemoryManager) (runtime : Runtime)
    (item : MemoryItem) (candidateId newId now : Text) : Option MemoryManager :=
  match consolidate tools s runtime item candidateId now with
  | none => none
  | some (.merge target merged _) =>
    some { s with
      longTermMemory := s.longTermMemory.set target.id
        { merged with lastUsedAt := .text now, writers := merged.writers ++ [runtime.runId] } }
  | some (.conflict target _) =>
    (writeLongTermMemory tools s runtime item false newId now).map fun written =>
      markConflict written.1 written.2 target
  | some (.create _) => (writeLongTermMemory tools s runtime item false newId now).map Prod.fst

def evictMemory (s : MemoryManager) (itemId : Text) (scope : Scope) (now : Text) : MemoryManager :=
  match (s.store scope).get itemId with
  | none => s
  | some item =>
    s.withStore ((s.store scope).set itemId
      { item with status := .evicted, lastUsedAt := .text now }) scope

def purgeRun (s : MemoryManager) (runId : RunId) : MemoryManager :=
  let kept (item : MemoryRecord) : Bool :=
    item.runId ≠ runId.field ∧ item.sourceRunId ≠ runId.field
  { s with
    workingMemory := s.workingMemory.keepIf kept
    longTermMemory := s.longTermMemory.keepIf kept }

def seed (scope : Scope) (item : MemoryRecord) : MemoryRecord :=
  { item with
    scope := scope
    status := .active
    runId := item.runId.or (.text shared)
    writers := (RunId.ofField item.runId).toList
    seeded := (RunId.ofField item.runId).isNone }

def seedMemory (s : MemoryManager) (working longterm : List MemoryRecord) : MemoryManager :=
  { s with
    workingMemory := s.workingMemory.setAll (·.id) (working.map (seed .working))
    longTermMemory := s.longTermMemory.setAll (·.id) (longterm.map (seed .longterm)) }

/-- `readWorkingMemory` and `readLongTermMemory`: the ranked records keep their scores. -/
def readMemory (tools : TextTools) (s : MemoryManager) (runtime : Runtime) (scope : Scope)
    (query : Text) (limit : Nat) (now : Text) : MemoryManager :=
  let visible := visibleItems (s.store scope) runtime
  let items := rankByQuery tools query now runtime visible
  let answer : Answered := ⟨runtime, scope, (s.store scope).values, visible, items.take limit⟩
  { s.withStore ((s.store scope).setAll (·.id) items) scope with answered := s.answered ++ [answer] }

inductive Call
  | writeWorkingMemory (item : MemoryItem)
  | writeLongTermMemory (item : MemoryItem) (explicit : Bool)
  | approveMemoryCandidate (item : MemoryItem)
  | writeLongTermConsolidated (item : MemoryItem) (candidateId : Text)
  | readMemory (scope : Scope) (query : Text) (limit : Nat)

/-- A call of a run with the id that it would give a record, a seeding, an eviction or the purge of
a run. -/
inductive Label
  | call (runId : RunId) (objective : Text) (allowDurableMemory : Bool) (call : Call) (newId now : Text)
  | evictMemory (itemId : Text) (scope : Scope) (now : Text)
  | purgeRun (runId : RunId)
  | seedMemory (working longterm : List MemoryRecord)

variable (tools : TextTools) (runs : RunId → Identity)

def perform (s : MemoryManager) (runtime : Runtime) (newId now : Text) : Call → MemoryManager
  | .writeWorkingMemory item => writeWorkingMemory tools s runtime item newId now
  | .writeLongTermMemory item explicit =>
    ((writeLongTermMemory tools s runtime item explicit newId now).map Prod.fst).getD s
  | .approveMemoryCandidate item =>
    ((approveMemoryCandidate tools s runtime item newId now).map Prod.fst).getD s
  | .writeLongTermConsolidated item candidateId =>
    (writeLongTermConsolidated tools s runtime item candidateId newId now).getD s
  | .readMemory scope query limit => readMemory tools s runtime scope query limit now

def step (s : MemoryManager) : Label → Option MemoryManager
  | .call runId objective allowDurableMemory call newId now =>
    some (perform tools s ⟨runId, runs runId, objective, allowDurableMemory⟩ newId now call)
  | .evictMemory itemId scope now => some (evictMemory s itemId scope now)
  | .purgeRun runId => some (purgeRun s runId)
  | .seedMemory working longterm => some (seedMemory s working longterm)

def Start (s : MemoryManager) : Prop :=
  s.workingMemory = .empty ∧ s.longTermMemory = .empty ∧ s.answered = []

end MemoryManager

end OrchestraAI.Memory
