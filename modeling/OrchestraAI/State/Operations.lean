import OrchestraAI.State.RuntimeState

/-! # Operations on a live runtime state

The mutators of `state/runtime-state.js`. An operation is described by its
effect: the objects it replaces, the objects it creates and the new live state.
Addresses handed in by callers may be any address of the heap.
-/

namespace OrchestraAI.State

open ObjectHeap
open OrchestraAI.Core (TaskStatus)

structure Effect where
  writes : List (Addr × Obj)
  allocs : List Obj
  live : RuntimeState

def Effect.heap (e : Effect) (h : Heap) : Heap := writeAll h e.writes ++ e.allocs

inductive Op
  /-- A caller builds an object of its own. -/
  | newObject (o : Obj)
  | addItem (item : Addr)
  | removeItem (itemId : String)
  | compressItem (itemId : String) (compressedTokens : ℚ)
  | addCandidate (model : Addr)
  | addModelCall (record : Addr) (now : ℚ)
  | startStep (stepInfo : List (String × Val)) (now : ℚ)
  | completeStep (result : Val) (now : ℚ)
  | failStep (error : Val) (now : ℚ)
  | addWorkingMemory (ref : Addr)
  | addPersistentMemory (ref : Addr)
  /-- `state.metadata[key] = value`. -/
  | setMetadata (key : String) (value : Val)
  /-- `state.task.metadata[key] = value`. -/
  | setTaskMetadata (key : String) (value : Val)
  | setCurrentModel (modelId : String) (provider : Option String) (reason : String) (now : ℚ)
  | addCost (category : String) (amount : ℚ) (metadata : List (String × Val)) (now : ℚ)
  | updateStatus (status : TaskStatus) (now : ℚ)

def recordAt (h : Heap) (a : Addr) : Option (List (String × Val)) :=
  match h[a]? with
  | some (.record fields) => some fields
  | _ => none

def arrayAt (h : Heap) (a : Addr) : Option (List Val) :=
  match h[a]? with
  | some (.array elems) => some elems
  | _ => none

/-- `v.key`, missing when the value is no record or has no such field. -/
def property (h : Heap) (v : Val) (key : String) : Option Val :=
  match v with
  | .ref a => (recordAt h a).bind (OrderedMap.lookup key)
  | _ => none

def numberAt (h : Heap) (v : Val) (key : String) : Option ℚ :=
  match property h v key with
  | some (.num q) => some q
  | _ => none

/-- `Object.assign(target, source)` on the fields. -/
def assign (target source : List (String × Val)) : List (String × Val) :=
  source.foldl (fun fields f => OrderedMap.write f.1 f.2 fields) target

/-- `array.push(v)`. -/
def pushTo (h : Heap) (a : Addr) (v : Val) : Option (Addr × Obj) :=
  (arrayAt h a).map fun elems => (a, .array (elems ++ [v]))

/-- `object[key] = value`. -/
def setField (h : Heap) (v : Val) (key : String) (value : Val) : Option (Addr × Obj) :=
  match v with
  | .ref a => (recordAt h a).map fun fields => (a, .record (OrderedMap.write key value fields))
  | _ => none

def unchanged (live : RuntimeState) : Effect := ⟨[], [], live⟩

namespace RuntimeState

def addItem (h : Heap) (s : RuntimeState) (item : Addr) : Option Effect := do
  let tokens ← numberAt h (.ref item) "tokens"
  let push ← pushTo h s.context.contextItems (.ref item)
  return ⟨[push], [],
    { s with
      context :=
        { s.context with
          currentTokens := s.context.currentTokens + tokens
          contextVersion := s.context.contextVersion + 1 } }⟩

/-- `contextItems.findIndex(i => i.id === itemId)`. -/
def findItem (h : Heap) (items : List Val) (itemId : String) : Option Nat :=
  items.findIdx? fun i => property h i "id" = some (.str itemId)

def removeItem (h : Heap) (s : RuntimeState) (itemId : String) : Option Effect := do
  let items ← arrayAt h s.context.contextItems
  match findItem h items itemId with
  | none => return unchanged s
  | some idx =>
    let item ← items[idx]?
    let tokens ← numberAt h item "tokens"
    let splice := (s.context.contextItems, Obj.array (items.eraseIdx idx))
    let push ← pushTo (writeAll h [splice]) s.context.discardedItems item
    return ⟨[splice, push], [],
      { s with
        context :=
          { s.context with
            currentTokens := s.context.currentTokens - tokens
            contextVersion := s.context.contextVersion + 1 } }⟩

def compressItem (h : Heap) (s : RuntimeState) (itemId : String) (compressedTokens : ℚ) :
    Option Effect := do
  let items ← arrayAt h s.context.contextItems
  match findItem h items itemId with
  | none => return unchanged s
  | some idx =>
    match ← items[idx]? with
    | .ref item =>
      let fields ← recordAt h item
      let tokens ← numberAt h (.ref item) "tokens"
      let reclaimed := tokens - compressedTokens
      let smaller := assign fields
        [("tokens", .num compressedTokens), ("status", .str "COMPRESSED")]
      let push ← pushTo h s.context.compressedItems (.ref h.length)
      return ⟨[(item, .record smaller), push],
        [.record (OrderedMap.write "reclaimedTokens" (.num reclaimed) smaller)],
        { s with
          context :=
            { s.context with
              currentTokens := s.context.currentTokens - reclaimed
              contextVersion := s.context.contextVersion + 1 } }⟩
    | _ => none

def addCandidate (h : Heap) (s : RuntimeState) (model : Addr) : Option Effect := do
  let fields ← recordAt h model
  let candidates ← arrayAt h s.model.candidateModels
  match candidates.find? fun c => property h c "id" = property h (.ref model) "id" with
  | some (.ref existing) =>
    let old ← recordAt h existing
    return ⟨[(existing, .record (assign old fields))], [], s⟩
  | some _ => none
  | none =>
    let push ← pushTo h s.model.candidateModels (.ref model)
    return ⟨[push], [], s⟩

def addModelCall (h : Heap) (s : RuntimeState) (record : Addr) (now : ℚ) : Option Effect := do
  let _ ← recordAt h record
  let calls := s.modelCalls ++ [.ref record]
  return unchanged
    { s with modelCalls := if calls.length > 200 then calls.tail else calls, updatedAt := now }

def startStep (h : Heap) (s : RuntimeState) (stepInfo : List (String × Val)) (now : ℚ) : Effect :=
  let currentStep := s.execution.currentStep + 1
  ⟨[],
    [.record (assign stepInfo
      [("step", .num currentStep), ("startedAt", .num now), ("status", .str "running")])],
    { s with
      execution :=
        { s.execution with
          currentStep := currentStep
          stepHistory := s.execution.stepHistory ++ [.ref h.length] } }⟩

def settleStep (h : Heap) (s : RuntimeState) (updates : List (String × Val)) :
    Option (List (Addr × Obj)) :=
  match s.execution.stepHistory.getLast? with
  | none => some []
  | some (.ref step) => (recordAt h step).map fun fields => [(step, .record (assign fields updates))]
  | some _ => none

def completeStep (h : Heap) (s : RuntimeState) (result : Val) (now : ℚ) : Option Effect := do
  let writes ← s.settleStep h
    [("completedAt", .num now), ("status", .str "completed"), ("result", result)]
  return ⟨writes, [], s⟩

def failStep (h : Heap) (s : RuntimeState) (error : Val) (now : ℚ) : Option Effect := do
  let writes ← s.settleStep h
    [("completedAt", .num now), ("status", .str "failed"), ("error", error)]
  return ⟨writes, [],
    { s with execution := { s.execution with failures := s.execution.failures + 1 } }⟩

def addMemory (h : Heap) (s : RuntimeState) (refs ref : Addr) : Option Effect := do
  let _ ← recordAt h ref
  let push ← pushTo h refs (.ref ref)
  return ⟨[push], [], s⟩

def addWorkingMemory (h : Heap) (s : RuntimeState) (ref : Addr) : Option Effect :=
  s.addMemory h s.memory.workingMemoryRefs ref

def addPersistentMemory (h : Heap) (s : RuntimeState) (ref : Addr) : Option Effect :=
  s.addMemory h s.memory.persistentMemoryRefs ref

def setMetadata (h : Heap) (s : RuntimeState) (key : String) (value : Val) : Option Effect := do
  let write ← setField h s.metadata key value
  return ⟨[write], [], s⟩

def setTaskMetadata (h : Heap) (s : RuntimeState) (key : String) (value : Val) :
    Option Effect := do
  let write ← setField h s.task.metadata key value
  return ⟨[write], [], s⟩

def setCurrentModel (s : RuntimeState) (modelId : String) (provider : Option String)
    (reason : String) (now : ℚ) : Effect :=
  let switched := s.model.currentModel.any (· ≠ modelId)
  unchanged
    { s with
      model :=
        { s.model with
          currentModel := some modelId
          currentProvider := provider
          modelSelectionReason := reason
          lastModelChange := some now
          modelSwitchCount := s.model.modelSwitchCount + if switched then 1 else 0 } }

def addCost (h : Heap) (s : RuntimeState) (category : String) (amount : ℚ)
    (metadata : List (String × Val)) (now : ℚ) : Effect :=
  ⟨[],
    [.record (assign
      [("category", .str category), ("amount", .num amount), ("timestamp", .num now)] metadata)],
    { s with
      budget :=
        { s.budget with
          currentSpend := s.budget.currentSpend + amount
          costBreakdown :=
            s.budget.costBreakdown.set category
              ((s.budget.costBreakdown.get category).getD 0 + amount)
          costHistory := s.budget.costHistory ++ [.ref h.length] } }⟩

def updateStatus (s : RuntimeState) (status : TaskStatus) (now : ℚ) : Effect :=
  unchanged
    { s with status := status, task := { s.task with status := status, updatedAt := now },
             updatedAt := now }

end RuntimeState

/-- What an operation does; `none` where an argument has not the type the code expects. -/
def effect (h : Heap) (s : RuntimeState) : Op → Option Effect
  | .newObject o => some ⟨[], [o], s⟩
  | .addItem item => s.addItem h item
  | .removeItem itemId => s.removeItem h itemId
  | .compressItem itemId compressedTokens => s.compressItem h itemId compressedTokens
  | .addCandidate model => s.addCandidate h model
  | .addModelCall record now => s.addModelCall h record now
  | .startStep stepInfo now => some (s.startStep h stepInfo now)
  | .completeStep result now => s.completeStep h result now
  | .failStep error now => s.failStep h error now
  | .addWorkingMemory ref => s.addWorkingMemory h ref
  | .addPersistentMemory ref => s.addPersistentMemory h ref
  | .setMetadata key value => s.setMetadata h key value
  | .setTaskMetadata key value => s.setTaskMetadata h key value
  | .setCurrentModel modelId provider reason now =>
    some (s.setCurrentModel modelId provider reason now)
  | .addCost category amount metadata now => some (s.addCost h category amount metadata now)
  | .updateStatus status now => some (s.updateStatus status now)

end OrchestraAI.State
