import Mathlib.Algebra.Order.Floor.Semiring
import Mathlib.Data.Rat.Floor
import OrchestraAI.Library.LabelledSystem
import OrchestraAI.Library.NewestWindow
import OrchestraAI.Library.OrderedMap
import OrchestraAI.Library.TextUnits

/-! # Reuse of cached answers

`set`, `storeSemantic`, `lookupSemantic` and `resolveReuse` of `impl/cache-manager.js` over one
cache that runs of several tenants and projects share.

The semantic index is `SemanticCacheIndex` of `intelligence/semantic-cache.js`. Ids, hashes and fingerprints are texts,
and the empty text is an absent one. The hash of a task and the overlap of two tasks are
parameters: nothing below depends on them.
-/

namespace OrchestraAI.Cache

structure Writer where
  runId : Text
  tenantId : Text
  projectId : Text
  deriving DecidableEq

structure Stored where
  serial : Nat
  writer : Writer
  time : Nat
  tools : List Text
  fingerprint : Text
  /-- The age up to which the value may be used. -/
  maxAge : Option Nat
  deriving DecidableEq

structure SemanticEntry (β : Type) where
  taskText : Text
  taskHash : Text
  fingerprint : Text
  modelId : Text
  tools : List Text
  result : β
  /-- What `Date.parse` makes of it. -/
  createdAt : Option Nat
  workspaceRev : Text
  tenantId : Text
  projectId : Text
  runId : Text
  pureAnswer : Bool
  /-- A positive finite number. -/
  maxAgeMs : Option Nat
  /-- The store that the entry is of. -/
  origin : Stored

/-- What is passed to `storeSemantic`, without the ids of the run. -/
structure StoreOptions (β : Type) where
  taskText : Text
  result : β
  fingerprint : Text
  modelId : Text
  tools : List Text
  workspaceRev : Text
  pureAnswer : Bool
  maxAgeMs : Option Nat
  /-- The time that the caller gives, as `Date.parse` reads it. -/
  cachedAt : Option (Option Nat)

structure Query where
  key : Text
  runId : Text
  tenantId : Text
  projectId : Text
  taskText : Text
  fingerprint : Text
  tools : Option (List Text)
  modelId : Text
  requireSameModel : Bool
  requiresPureAnswer : Bool
  workspaceRev : Text
  /-- 0 where the query does not say. -/
  nowMs : Nat

structure SemanticIndex (β : Type) where
  max : Nat
  similarityThreshold : ℚ
  maxAgeMs : Nat
  entries : List (SemanticEntry β)

inductive LookupResult (β : Type)
  | emptyIndex
  | belowThreshold (similarity : ℚ)
  | stale (similarity : ℚ)
  | contextChanged (similarity : ℚ)
  | workspaceChanged (similarity : ℚ)
  | toolsDiffer (similarity : ℚ)
  | hit (entry : SemanticEntry β) (similarity : ℚ)

variable {β : Type} (hash : Text → Text) (overlap : Text → Text → ℚ)

def covers (tenantId projectId tenant project : Text) : Bool :=
  (tenantId = [] || tenant = tenantId) && (projectId = [] || project = projectId)

namespace SemanticIndex

def store (idx : SemanticIndex β) (now : Nat) (origin : Stored) (options : StoreOptions β) :
    SemanticIndex β :=
  let entry : SemanticEntry β :=
    { taskText := Text.sliceUnits 4000 options.taskText
      taskHash := hash options.taskText
      fingerprint := options.fingerprint
      modelId := options.modelId
      tools := options.tools.take 20
      result := options.result
      createdAt := options.cachedAt.getD (some now)
      workspaceRev := options.workspaceRev
      tenantId := origin.writer.tenantId
      projectId := origin.writer.projectId
      runId := origin.writer.runId
      pureAnswer := options.pureAnswer
      maxAgeMs := options.maxAgeMs
      origin := origin }
  { idx with entries := (idx.entries ++ [entry]).rtake idx.max }

def similarity (query : Query) (e : SemanticEntry β) : ℚ :=
  if e.taskHash = hash query.taskText then 1 else overlap query.taskText e.taskText

def closest (query : Query) (entries : List (SemanticEntry β)) : Option (SemanticEntry β × ℚ) :=
  entries.foldl (fun best e =>
    if (query.tenantId ≠ [] ∧ e.tenantId ≠ query.tenantId) ∨
        (query.projectId ≠ [] ∧ e.projectId ≠ query.projectId) then best
    else
      let sim := similarity hash overlap query e
      if (best.elim 0 Prod.snd) < sim then some (e, sim) else best) none

/-- `Math.round(x * 1000) / 1000`. -/
def round3 (x : ℚ) : ℚ := ⌊x * 1000 + 1 / 2⌋ / 1000

def sameTools (a b : List Text) : Bool := a.all (· ∈ b) && b.all (· ∈ a)

/-- The time that an entry is aged from: one that is not a time, or 0, counts as now. -/
def agedFrom (e : SemanticEntry β) (nowMs : Nat) : Nat :=
  match e.createdAt with
  | some created => if created = 0 then nowMs else created
  | none => nowMs

def entryMaxAge (idx : SemanticIndex β) (e : SemanticEntry β) : Nat := e.maxAgeMs.getD idx.maxAgeMs

def queryTime (now : Nat) (query : Query) : Nat := if query.nowMs = 0 then now else query.nowMs

def lookup (idx : SemanticIndex β) (now : Nat) (query : Query) : LookupResult β :=
  let nowMs := queryTime now query
  match closest hash overlap query idx.entries with
  | none => .emptyIndex
  | some (best, bestSim) =>
    let similarity := round3 bestSim
    if similarity < idx.similarityThreshold then .belowThreshold similarity
    else if agedFrom best nowMs + entryMaxAge idx best < nowMs then .stale similarity
    else if query.fingerprint ≠ [] ∧ best.fingerprint ≠ [] ∧
        query.fingerprint ≠ best.fingerprint then .contextChanged similarity
    else if query.workspaceRev ≠ [] ∧ best.workspaceRev ≠ [] ∧
        query.workspaceRev ≠ best.workspaceRev ∧ best.tools ≠ [] then .workspaceChanged similarity
    else if query.tools.any fun tools => !sameTools tools best.tools then .toolsDiffer similarity
    else .hit best similarity

def clearScope (idx : SemanticIndex β) (tenantId projectId : Text) : SemanticIndex β :=
  { idx with entries := idx.entries.filter fun e => !covers tenantId projectId e.tenantId e.projectId }

def dump (idx : SemanticIndex β) : List (SemanticEntry β) := idx.entries.rtake idx.max

def load (idx : SemanticIndex β) (items : List (SemanticEntry β)) : SemanticIndex β :=
  { idx with entries := (items.filter fun e => e.taskText ≠ []).rtake idx.max }

variable {hash overlap} {idx : SemanticIndex β} {query : Query} {now : Nat} {e : SemanticEntry β}
  {similarity : ℚ}

theorem closest_mem {entries : List (SemanticEntry β)} {sim : ℚ}
    (h : closest hash overlap query entries = some (e, sim)) : e ∈ entries ∧
      (query.tenantId ≠ [] → e.tenantId = query.tenantId) ∧
      (query.projectId ≠ [] → e.projectId = query.projectId) := by
  induction entries using List.reverseRecOn generalizing e sim with
  | nil => cases h
  | append_singleton entries last ih =>
    rw [closest, List.foldl_append, List.foldl_cons, List.foldl_nil] at h
    split at h
    · exact (ih h).imp_left (List.mem_append_left _)
    · rename_i hScope
      dsimp only at h
      split at h
      · cases h
        rw [not_or, not_and_not_right, not_and_not_right] at hScope
        exact ⟨List.mem_append_right _ (List.mem_singleton_self _), hScope⟩
      · exact (ih h).imp_left (List.mem_append_left _)

theorem sameTools_iff {a b : List Text} : sameTools a b = true ↔ ∀ t, t ∈ a ↔ t ∈ b := by
  simp only [sameTools, Bool.and_eq_true, List.all_eq_true, decide_eq_true_eq]
  exact ⟨fun h t => ⟨h.1 t, h.2 t⟩, fun h => ⟨fun t => (h t).mp, fun t => (h t).mpr⟩⟩

theorem lookup_hit (h : idx.lookup hash overlap now query = .hit e similarity) :
    e ∈ idx.entries ∧ (query.tenantId ≠ [] → e.tenantId = query.tenantId) ∧
      (query.projectId ≠ [] → e.projectId = query.projectId) ∧
      queryTime now query ≤ agedFrom e (queryTime now query) + entryMaxAge idx e ∧
      (query.fingerprint = [] ∨ e.fingerprint = [] ∨ query.fingerprint = e.fingerprint) ∧
      ∀ tools ∈ query.tools, ∀ t, t ∈ tools ↔ t ∈ e.tools := by
  unfold lookup at h
  split at h
  · cases h
  rename_i best bestSim hClosest
  obtain ⟨hMem, hTenant, hProject⟩ := closest_mem hClosest
  dsimp only at h
  split at h
  · cases h
  split at h
  · cases h
  rename_i hFresh
  split at h
  · cases h
  rename_i hContext
  split at h
  · cases h
  split at h
  · cases h
  rename_i hTools
  cases h
  refine ⟨hMem, hTenant, hProject, Nat.le_of_not_lt hFresh, ?_, ?_⟩
  · by_cases hQuery : query.fingerprint = []
    · exact .inl hQuery
    · by_cases hEntry : e.fingerprint = []
      · exact .inr (.inl hEntry)
      · exact .inr (.inr (not_not.mp fun hOther => hContext ⟨hQuery, hEntry, hOther⟩))
  · intro tools hSome
    rw [Option.mem_def.mp hSome] at hTools
    exact sameTools_iff.mp (by simpa using hTools)

end SemanticIndex

open LabelledSystem

structure ExactEntry (β : Type) where
  value : β
  cachedAt : Nat
  expiresAt : Option Nat
  lastAccessed : Nat
  accessCount : Nat
  runId : Text
  /-- The call of `set` that the entry is of. -/
  origin : Stored

inductive Reuse (β : Type)
  | localExact (entry : ExactEntry β)
  | scopedExact (entry : ExactEntry β)
  | semanticProject (entry : SemanticEntry β) (similarity : ℚ)
  | semanticMiss (reason : LookupResult β)
  | modelIncompatible (entry : SemanticEntry β) (similarity : ℚ)
  | notPure (entry : SemanticEntry β) (similarity : ℚ)
  | nothingAsked

/-- An answer with the time it was given at and the stores that had been cleared by then. -/
structure Answered (β : Type) where
  query : Query
  time : Nat
  cleared : List Stored
  /-- The maximum age of an entry that does not have its own. -/
  maxAgeMs : Nat
  reuse : Reuse β

structure CacheManager (β : Type) where
  now : Nat
  maxSize : Nat
  cache : OrderedMap Text (ExactEntry β)
  semantic : SemanticIndex β
  dumps : List (List (SemanticEntry β))
  /-- All stores there have been. -/
  stores : List Stored
  /-- The stores that a later `clearScope` of their tenant and project was meant for. -/
  cleared : List Stored
  answered : List (Answered β)

namespace CacheManager

def scopedKey (id key : Text) : Text := if id = [] then key else id ++ ':' :: key

def oldest (entries : List (Text × ExactEntry β)) : Option (Text × ExactEntry β) :=
  entries.foldl (fun oldest e =>
    match oldest with
    | some o => if e.2.lastAccessed < o.2.lastAccessed then some e else some o
    | none => some e) none

def evictOldest (cache : OrderedMap Text (ExactEntry β)) : OrderedMap Text (ExactEntry β) :=
  match oldest cache.entries with
  | some (key, _) => if key = [] then cache else cache.delete key
  | none => cache

def newStore (s : CacheManager β) (writer : Writer) (tools : List Text) (fingerprint : Text)
    (maxAge : Option Nat) : Stored :=
  ⟨s.stores.length, writer, s.now, tools, fingerprint, maxAge⟩

/-- `set(key, value, ttl, runId)`. -/
def set (s : CacheManager β) (writer : Writer) (key : Text) (value : β) (ttl : Nat) :
    CacheManager β :=
  let origin := s.newStore writer [] [] (if 0 < ttl then some ttl else none)
  let cache := if s.maxSize ≤ s.cache.size then evictOldest s.cache else s.cache
  let entry : ExactEntry β :=
    ⟨value, s.now, if 0 < ttl then some (s.now + ttl) else none, s.now, 0, writer.runId, origin⟩
  { s with cache := cache.set key entry, stores := s.stores ++ [origin] }

def storeSemantic (s : CacheManager β) (writer : Writer) (options : StoreOptions β) :
    CacheManager β :=
  let origin := s.newStore writer options.tools options.fingerprint options.maxAgeMs
  { s with
    semantic := s.semantic.store hash s.now origin options
    stores := s.stores ++ [origin] }

def liveEntry (s : CacheManager β) (key : Text) : Option (ExactEntry β) :=
  (s.cache.get key).filter fun entry => entry.expiresAt.all (s.now ≤ ·)

def touch (s : CacheManager β) (key : Text) (entry : ExactEntry β) : CacheManager β :=
  { s with
    cache := s.cache.set key
      { entry with lastAccessed := s.now, accessCount := entry.accessCount + 1 } }

def scopedKeys (query : Query) : List Text :=
  ([query.runId, query.projectId].filter (· ≠ [])).map (scopedKey · query.key)

def firstLive (s : CacheManager β) (keys : List Text) : Option (Text × ExactEntry β) :=
  keys.findSome? fun key => (s.liveEntry key).map fun entry => (key, entry)

def semanticReuse (s : CacheManager β) (query : Query) : Reuse β :=
  if query.taskText = [] then .nothingAsked
  else
    match s.semantic.lookup hash overlap s.now query with
    | .hit entry similarity =>
      if query.requireSameModel ∧ query.modelId ≠ [] ∧ entry.modelId ≠ [] ∧
          entry.modelId ≠ query.modelId then .modelIncompatible entry similarity
      else if query.requiresPureAnswer ∧ !entry.pureAnswer then .notPure entry similarity
      else .semanticProject entry similarity
    | miss => .semanticMiss miss

def resolveReuse (s : CacheManager β) (query : Query) : Reuse β × CacheManager β :=
  match if query.key = [] then none else s.firstLive [query.key] with
  | some (key, entry) => (.localExact entry, s.touch key entry)
  | none =>
    match if query.key = [] then none else s.firstLive (scopedKeys query) with
    | some (key, entry) => (.scopedExact entry, s.touch key entry)
    | none => (s.semanticReuse hash overlap query, s)

/-- `lookupSemantic`, with its answer. -/
def lookupSemantic (s : CacheManager β) (query : Query) : Reuse β :=
  match s.semantic.lookup hash overlap s.now query with
  | .hit entry similarity => .semanticProject entry similarity
  | miss => .semanticMiss miss

def record (s : CacheManager β) (query : Query) (reuse : Reuse β) : CacheManager β :=
  { s with answered := s.answered ++ [⟨query, s.now, s.cleared, s.semantic.maxAgeMs, reuse⟩] }

inductive Label (β : Type)
  | passes (ms : Nat)
  | set (writer : Writer) (key : Text) (value : β) (ttl : Nat)
  | storeSemantic (writer : Writer) (options : StoreOptions β)
  | clearScope (tenantId projectId : Text)
  | dump
  | load (dump : Nat)
  | resolveReuse (query : Query)
  | lookupSemantic (query : Query)

def step (s : CacheManager β) : Label β → Option (CacheManager β)
  | .passes ms => some { s with now := s.now + ms }
  | .set writer key value ttl => some (s.set writer key value ttl)
  | .storeSemantic writer options => some (s.storeSemantic hash writer options)
  | .clearScope tenantId projectId =>
    some
      { s with
        semantic := s.semantic.clearScope tenantId projectId
        cleared := s.cleared ++
          s.stores.filter fun o => covers tenantId projectId o.writer.tenantId o.writer.projectId }
  | .dump => some { s with dumps := s.dumps ++ [s.semantic.dump] }
  | .load dump => s.dumps[dump]?.map fun items => { s with semantic := s.semantic.load items }
  | .resolveReuse query =>
    some ((s.resolveReuse hash overlap query).2.record query (s.resolveReuse hash overlap query).1)
  | .lookupSemantic query => some (s.record query (s.lookupSemantic hash overlap query))

def Start (s : CacheManager β) : Prop :=
  s.cache = .empty ∧ s.semantic.entries = [] ∧ s.dumps = [] ∧ s.stores = [] ∧ s.cleared = [] ∧
    s.answered = []

end CacheManager

end OrchestraAI.Cache
