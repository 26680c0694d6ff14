import OrchestraAI.Cache.Reuse

/-! # Isolation of cached answers

What every answer of the cache owes to the tenant and the project that ask, and the use of keys
and dumps under which it gives it.
-/

namespace OrchestraAI.Cache

open LabelledSystem CacheManager

variable {β : Type}

/-- The store was made under the tenant and the project of the query, or by its run. -/
def Own (query : Query) (o : Stored) : Prop :=
  (o.writer.tenantId = query.tenantId ∧ o.writer.projectId = query.projectId) ∨
    (query.runId ≠ [] ∧ o.writer.runId = query.runId)

def SemanticEntry.bornAt (e : SemanticEntry β) : Nat := e.createdAt.getD e.origin.time

/-- A hit is the asker's own, not too old and not cleared; a semantic one was stored with the same
tools and without another fingerprint. -/
def Right (a : Answered β) : Prop :=
  match a.reuse with
  | .localExact e | .scopedExact e =>
    Own a.query e.origin ∧ (∀ age ∈ e.origin.maxAge, a.time ≤ e.origin.time + age) ∧
      e.origin ∉ a.cleared
  | .semanticProject e _ =>
    Own a.query e.origin ∧ a.time ≤ e.bornAt + e.origin.maxAge.getD a.maxAgeMs ∧
      (∀ t, t ∈ e.origin.tools ↔ t ∈ a.query.tools.getD []) ∧
      (a.query.fingerprint = [] ∨ e.origin.fingerprint = [] ∨
        a.query.fingerprint = e.origin.fingerprint) ∧
      e.origin ∉ a.cleared
  | _ => True

def Isolated (s : CacheManager β) : Prop :=
  ∀ a ∈ s.answered, a.query.tenantId ≠ [] → a.query.projectId ≠ [] → Right a

def keyId (key : Text) : Text := key.takeWhile (· ≠ ':')

variable (home : Text → Text × Text)

/-- The ids in the query, and the one that its key may begin with, are of its tenant and project. -/
def AsksOwn (query : Query) : Prop :=
  (':' ∈ query.key → home (keyId query.key) = (query.tenantId, query.projectId)) ∧
    ∀ id ∈ [query.runId, query.projectId], id ≠ [] →
      ':' ∉ id ∧ home id = (query.tenantId, query.projectId)

def AsksFully (now : Nat) (query : Query) : Prop :=
  query.tools ≠ none ∧ (query.nowMs = 0 ∨ now ≤ query.nowMs)

/-- `home` says which tenant and project the id of a run or a project belongs to. -/
def Careful (s : CacheManager β) : Label β → Prop
  | .set writer key _ _ =>
    ':' ∈ key ∧ home (keyId key) = (writer.tenantId, writer.projectId)
  | .storeSemantic _ options => options.tools.length ≤ 20 ∧
      ∃ created ∈ options.cachedAt.getD (some s.now), created ≠ 0
  | .clearScope tenantId projectId => ∀ e ∈ s.cache.values,
      covers tenantId projectId e.origin.writer.tenantId e.origin.writer.projectId = false
  | .load dump => ∀ items ∈ s.dumps[dump]?, ∀ e ∈ items, e.origin ∉ s.cleared
  | .resolveReuse query => AsksOwn home query ∧ AsksFully s.now query
  | .lookupSemantic query => AsksFully s.now query
  | .passes _ | .dump => True

instance (query : Query) : Decidable (AsksOwn home query) :=
  inferInstanceAs (Decidable ((_ → _ = _) ∧ ∀ id ∈ [query.runId, query.projectId], id ≠ [] →
    ':' ∉ id ∧ home id = (query.tenantId, query.projectId)))

instance (now : Nat) (query : Query) : Decidable (AsksFully now query) :=
  inferInstanceAs (Decidable (_ ≠ _ ∧ (_ ∨ _)))

instance (s : CacheManager β) : ∀ l, Decidable (Careful home s l)
  | .set _ _ _ _ => inferInstanceAs (Decidable (_ ∧ _))
  | .storeSemantic _ options => inferInstanceAs (Decidable (_ ∧
      ∃ created ∈ options.cachedAt.getD (some s.now), created ≠ 0))
  | .clearScope tenantId projectId => inferInstanceAs (Decidable (∀ e ∈ s.cache.values,
      covers tenantId projectId e.origin.writer.tenantId e.origin.writer.projectId = false))
  | .load dump =>
    inferInstanceAs (Decidable (∀ items ∈ s.dumps[dump]?, ∀ e ∈ items, e.origin ∉ s.cleared))
  | .resolveReuse query => inferInstanceAs (Decidable (AsksOwn home query ∧ AsksFully s.now query))
  | .lookupSemantic query => inferInstanceAs (Decidable (AsksFully s.now query))
  | .passes _ | .dump => inferInstanceAs (Decidable True)

structure Faithful (e : SemanticEntry β) : Prop where
  tenantId : e.tenantId = e.origin.writer.tenantId
  projectId : e.projectId = e.origin.writer.projectId
  tools : e.tools = e.origin.tools
  fingerprint : e.fingerprint = e.origin.fingerprint
  maxAge : e.maxAgeMs = e.origin.maxAge
  created : ∃ created, e.createdAt = some created ∧ created ≠ 0

/-- An exact entry is under a key of its writer's tenant and project. -/
structure Placed (key : Text) (e : ExactEntry β) : Prop where
  colon : ':' ∈ key
  home : home (keyId key) = (e.origin.writer.tenantId, e.origin.writer.projectId)
  expiresAt : e.expiresAt = e.origin.maxAge.map (e.origin.time + ·)

structure Sound (s : CacheManager β) : Prop where
  exact : ∀ key e, s.cache.get key = some e → Placed home key e ∧ e.origin ∉ s.cleared
  semantic : ∀ e ∈ s.semantic.entries, Faithful e ∧ e.origin ∉ s.cleared
  dumps : ∀ items ∈ s.dumps, ∀ e ∈ items, Faithful e
  serials : ∀ o ∈ s.stores, o.serial < s.stores.length
  cleared : ∀ o ∈ s.cleared, o.serial < s.stores.length
  isolated : Isolated s

variable {home} {hash : Text → Text} {overlap : Text → Text → ℚ} {s t : CacheManager β}
  {query : Query} {l : Label β}

theorem keyId_append {id : Text} (h : ':' ∉ id) (key : Text) : keyId (id ++ ':' :: key) = id := by
  rw [keyId, List.takeWhile_append_of_pos, List.takeWhile_cons_of_neg (by simp), List.append_nil]
  intro c hc
  exact decide_eq_true fun hColon => h (hColon ▸ hc)

theorem liveEntry_some {key : Text} {e : ExactEntry β} (h : s.liveEntry key = some e) :
    s.cache.get key = some e ∧ ∀ expiry ∈ e.expiresAt, s.now ≤ expiry := by
  obtain ⟨hGet, hLive⟩ := Option.filter_eq_some_iff.mp h
  refine ⟨hGet, fun expiry hSome => ?_⟩
  rw [Option.mem_def.mp hSome] at hLive
  exact of_decide_eq_true hLive

theorem Sound.right_exact (hs : Sound home s) {key : Text} {e : ExactEntry β}
    (h : s.liveEntry key = some e)
    (hHome : ':' ∈ key → home (keyId key) = (query.tenantId, query.projectId)) :
    Own query e.origin ∧ (∀ age ∈ e.origin.maxAge, s.now ≤ e.origin.time + age) ∧
      e.origin ∉ s.cleared := by
  obtain ⟨hGet, hLive⟩ := liveEntry_some h
  obtain ⟨hPlaced, hCleared⟩ := hs.exact key e hGet
  refine ⟨.inl (Prod.mk.inj (hPlaced.home.symm.trans (hHome hPlaced.colon))), ?_, hCleared⟩
  intro age hAge
  refine hLive _ ?_
  rw [hPlaced.expiresAt, Option.mem_def.mp hAge]
  rfl

theorem Sound.right_lookup (hs : Sound home s) (hFully : AsksFully s.now query)
    (hTenant : query.tenantId ≠ []) (hProject : query.projectId ≠ []) {e : SemanticEntry β}
    {similarity : ℚ} (h : s.semantic.lookup hash overlap s.now query = .hit e similarity) :
    Right ⟨query, s.now, s.cleared, s.semantic.maxAgeMs, .semanticProject e similarity⟩ := by
  obtain ⟨hMem, hSameTenant, hSameProject, hFresh, hFingerprint, hTools⟩ :=
    SemanticIndex.lookup_hit h
  obtain ⟨hFaithful, hCleared⟩ := hs.semantic e hMem
  obtain ⟨created, hCreated, hNonzero⟩ := hFaithful.created
  refine ⟨.inl ⟨?_, ?_⟩, ?_, ?_, ?_, hCleared⟩
  · exact hFaithful.tenantId.symm.trans (hSameTenant hTenant)
  · exact hFaithful.projectId.symm.trans (hSameProject hProject)
  · have hNow : s.now ≤ SemanticIndex.queryTime s.now query := by
      unfold SemanticIndex.queryTime
      split
      · exact le_rfl
      · exact hFully.2.resolve_left ‹_›
    have hAged : SemanticIndex.agedFrom e (SemanticIndex.queryTime s.now query) = e.bornAt := by
      simp only [SemanticIndex.agedFrom, SemanticEntry.bornAt, hCreated, if_neg hNonzero,
        Option.getD_some]
    rw [hAged, SemanticIndex.entryMaxAge, hFaithful.maxAge] at hFresh
    exact hNow.trans hFresh
  · obtain ⟨tools, hSome⟩ := Option.ne_none_iff_exists'.mp hFully.1
    rintro t
    rw [hSome, ← hFaithful.tools]
    exact (hTools tools hSome t).symm
  · rw [← hFaithful.fingerprint]
    exact hFingerprint

theorem firstLive_some {keys : List Text} {key : Text} {e : ExactEntry β}
    (h : s.firstLive keys = some (key, e)) : key ∈ keys ∧ s.liveEntry key = some e := by
  obtain ⟨k, hMem, hSome⟩ := List.exists_of_findSome?_eq_some h
  obtain ⟨e', hLive, hSame⟩ := Option.map_eq_some_iff.mp hSome
  cases hSame
  exact ⟨hMem, hLive⟩

theorem AsksOwn.home_scoped (h : AsksOwn home query) {key : Text} (hKey : key ∈ scopedKeys query) :
    home (keyId key) = (query.tenantId, query.projectId) := by
  obtain ⟨id, hId, rfl⟩ := List.mem_map.mp hKey
  obtain ⟨hMem, hNonempty⟩ := List.mem_filter.mp hId
  have hNonempty : id ≠ [] := of_decide_eq_true hNonempty
  rw [scopedKey, if_neg hNonempty]
  obtain ⟨hColon, hHome⟩ := h.2 id hMem hNonempty
  rw [keyId_append hColon, hHome]

theorem Sound.right_resolve (hs : Sound home s) (hOwn : AsksOwn home query)
    (hFully : AsksFully s.now query) (hTenant : query.tenantId ≠ []) (hProject : query.projectId ≠ []) :
    Right ⟨query, s.now, s.cleared, s.semantic.maxAgeMs, (s.resolveReuse hash overlap query).1⟩ := by
  unfold resolveReuse
  split
  · rename_i key entry hFirst
    obtain ⟨-, hFirst⟩ := Option.ite_none_left_eq_some.mp hFirst
    obtain ⟨hKey, hLive⟩ := firstLive_some hFirst
    obtain rfl := List.mem_singleton.mp hKey
    exact hs.right_exact hLive hOwn.1
  · split
    · rename_i key entry hFirst
      obtain ⟨-, hFirst⟩ := Option.ite_none_left_eq_some.mp hFirst
      obtain ⟨hKey, hLive⟩ := firstLive_some hFirst
      exact hs.right_exact hLive fun _ => hOwn.home_scoped hKey
    · unfold semanticReuse
      split
      · trivial
      · split
        · rename_i hHit
          split
          · trivial
          · split
            · trivial
            · exact hs.right_lookup hFully hTenant hProject hHit
        · trivial

theorem Sound.right_semantic (hs : Sound home s) (hFully : AsksFully s.now query)
    (hTenant : query.tenantId ≠ []) (hProject : query.projectId ≠ []) :
    Right ⟨query, s.now, s.cleared, s.semantic.maxAgeMs, s.lookupSemantic hash overlap query⟩ := by
  unfold lookupSemantic
  split
  · rename_i hHit
    exact hs.right_lookup hFully hTenant hProject hHit
  · trivial

theorem Sound.record (hs : Sound home s) {reuse : Reuse β}
    (h : query.tenantId ≠ [] → query.projectId ≠ [] →
      Right ⟨query, s.now, s.cleared, s.semantic.maxAgeMs, reuse⟩) :
    Sound home (s.record query reuse) := by
  refine ⟨hs.exact, hs.semantic, hs.dumps, hs.serials, hs.cleared, fun a ha => ?_⟩
  obtain hOld | hNew := List.mem_append.mp ha
  · exact hs.isolated a hOld
  · rw [List.mem_singleton.mp hNew]
    exact h

theorem Sound.touch (hs : Sound home s) {key : Text} {e : ExactEntry β}
    (h : s.liveEntry key = some e) : Sound home (s.touch key e) := by
  obtain ⟨hPlaced, hCleared⟩ := hs.exact key e (liveEntry_some h).1
  refine ⟨fun k e' hGet => ?_, hs.semantic, hs.dumps, hs.serials, hs.cleared, hs.isolated⟩
  rw [CacheManager.touch, OrderedMap.get_set] at hGet
  split at hGet
  · rename_i hSame
    subst hSame
    cases hGet
    exact ⟨⟨hPlaced.colon, hPlaced.home, hPlaced.expiresAt⟩, hCleared⟩
  · exact hs.exact k e' hGet

theorem resolveReuse_cases (hash : Text → Text) (overlap : Text → Text → ℚ) (s : CacheManager β)
    (query : Query) :
    (s.resolveReuse hash overlap query).2 = s ∨ ∃ key e, s.liveEntry key = some e ∧
      (s.resolveReuse hash overlap query).2 = s.touch key e := by
  unfold resolveReuse
  split
  · rename_i key e hFirst
    obtain ⟨-, hFirst⟩ := Option.ite_none_left_eq_some.mp hFirst
    exact .inr ⟨key, e, (firstLive_some hFirst).2, rfl⟩
  · split
    · rename_i key e hFirst
      obtain ⟨-, hFirst⟩ := Option.ite_none_left_eq_some.mp hFirst
      exact .inr ⟨key, e, (firstLive_some hFirst).2, rfl⟩
    · exact .inl rfl

theorem get_evictOldest {cache : OrderedMap Text (ExactEntry β)} {key : Text} {e : ExactEntry β}
    (h : (evictOldest cache).get key = some e) : cache.get key = some e := by
  unfold evictOldest at h
  split at h
  · split at h
    · exact h
    · rw [OrderedMap.get_delete] at h
      split at h
      · cases h
      · exact h
  · exact h

theorem Sound.new_store (hs : Sound home s) {o : Stored} (ho : o.serial = s.stores.length) :
    o ∉ s.cleared ∧ (∀ o' ∈ s.stores ++ [o], o'.serial < (s.stores ++ [o]).length) ∧
      ∀ o' ∈ s.cleared, o'.serial < (s.stores ++ [o]).length := by
  rw [List.length_append, List.length_singleton]
  refine ⟨fun h => ?_, fun o' h => ?_, fun o' h => Nat.lt_succ_of_lt (hs.cleared o' h)⟩
  · exact absurd (hs.cleared o h) (ho ▸ Nat.lt_irrefl _)
  · obtain hOld | hNew := List.mem_append.mp h
    · exact Nat.lt_succ_of_lt (hs.serials o' hOld)
    · rw [List.mem_singleton.mp hNew, ho]
      exact Nat.lt_succ_self _

theorem Sound.set (hs : Sound home s) {writer : Writer} {key : Text} {value : β} {ttl : Nat}
    (hColon : ':' ∈ key) (hHome : home (keyId key) = (writer.tenantId, writer.projectId)) :
    Sound home (s.set writer key value ttl) := by
  let origin := s.newStore writer [] [] (if 0 < ttl then some ttl else none)
  obtain ⟨hNew, hSerials, hCleared⟩ := hs.new_store (o := origin) rfl
  refine ⟨fun k e hGet => ?_, hs.semantic, hs.dumps, hSerials, hCleared, hs.isolated⟩
  rw [CacheManager.set, OrderedMap.get_set] at hGet
  split at hGet
  · rename_i hSame
    subst hSame
    cases hGet
    refine ⟨⟨hColon, hHome, ?_⟩, hNew⟩
    split <;> rfl
  · refine hs.exact k e ?_
    split at hGet
    · exact get_evictOldest hGet
    · exact hGet

theorem Sound.storeSemantic (hs : Sound home s) {writer : Writer} {options : StoreOptions β}
    (hTools : options.tools.length ≤ 20)
    (hCreated : ∃ created ∈ options.cachedAt.getD (some s.now), created ≠ 0) :
    Sound home (s.storeSemantic hash writer options) := by
  let origin := s.newStore writer options.tools options.fingerprint options.maxAgeMs
  obtain ⟨hNew, hSerials, hCleared⟩ := hs.new_store (o := origin) rfl
  refine ⟨hs.exact, fun e he => ?_, hs.dumps, hSerials, hCleared, hs.isolated⟩
  obtain hOld | hLast := List.mem_append.mp (LastEntries.mem_of_mem_rtake he)
  · exact hs.semantic e hOld
  · rw [List.mem_singleton.mp hLast]
    exact ⟨⟨rfl, rfl, List.take_of_length_le hTools, rfl, rfl, hCreated⟩, hNew⟩

/-- After a clearing of a scope without exact entries nothing that was cleared is left. -/
theorem Sound.clearScope (hs : Sound home s) {tenantId projectId : Text}
    (hExact : ∀ e ∈ s.cache.values,
      covers tenantId projectId e.origin.writer.tenantId e.origin.writer.projectId = false) :
    Sound home { s with
      semantic := s.semantic.clearScope tenantId projectId
      cleared := s.cleared ++
        s.stores.filter fun o => covers tenantId projectId o.writer.tenantId o.writer.projectId } := by
  have hOutside {o : Stored} (hOld : o ∉ s.cleared)
      (hCovers : covers tenantId projectId o.writer.tenantId o.writer.projectId = false) :
      o ∉ s.cleared ++ s.stores.filter fun o =>
        covers tenantId projectId o.writer.tenantId o.writer.projectId := by
    rintro hMem
    obtain hWas | hNew := List.mem_append.mp hMem
    · exact hOld hWas
    · exact Bool.false_ne_true (hCovers.symm.trans (List.mem_filter.mp hNew).2)
  refine ⟨fun key e hGet => ?_, fun e he => ?_, hs.dumps, hs.serials, fun o ho => ?_, hs.isolated⟩
  · obtain ⟨hPlaced, hOld⟩ := hs.exact key e hGet
    exact ⟨hPlaced, hOutside hOld (hExact e ((OrderedMap.mem_values_iff _ e).mpr ⟨key, hGet⟩))⟩
  · obtain ⟨hMem, hKept⟩ := List.mem_filter.mp he
    obtain ⟨hFaithful, hOld⟩ := hs.semantic e hMem
    refine ⟨hFaithful, hOutside hOld ?_⟩
    rw [← hFaithful.tenantId, ← hFaithful.projectId]
    exact Bool.not_eq_true' _ |>.mp hKept
  · obtain hWas | hNew := List.mem_append.mp ho
    · exact hs.cleared o hWas
    · exact hs.serials o (List.mem_of_mem_filter hNew)

theorem sound_step (hs : Sound home s) (hCareful : Careful home s l)
    (h : step hash overlap s l = some t) : Sound home t := by
  cases l with
  | passes ms =>
    cases h
    exact ⟨hs.exact, hs.semantic, hs.dumps, hs.serials, hs.cleared, hs.isolated⟩
  | set writer key value ttl =>
    cases h
    exact hs.set hCareful.1 hCareful.2
  | storeSemantic writer options =>
    cases h
    exact hs.storeSemantic hCareful.1 hCareful.2
  | clearScope tenantId projectId =>
    cases h
    exact hs.clearScope hCareful
  | dump =>
    cases h
    refine ⟨hs.exact, hs.semantic, fun items hItems e he => ?_, hs.serials, hs.cleared, hs.isolated⟩
    obtain hOld | hNew := List.mem_append.mp hItems
    · exact hs.dumps items hOld e he
    · rw [List.mem_singleton.mp hNew] at he
      exact (hs.semantic e (LastEntries.mem_of_mem_rtake he)).1
  | load dump =>
    obtain ⟨items, hItems, rfl⟩ := Option.map_eq_some_iff.mp h
    refine ⟨hs.exact, fun e he => ?_, hs.dumps, hs.serials, hs.cleared, hs.isolated⟩
    have hMem := List.mem_of_mem_filter (LastEntries.mem_of_mem_rtake he)
    exact ⟨hs.dumps items (List.mem_of_getElem? hItems) e hMem, hCareful items hItems e hMem⟩
  | resolveReuse query =>
    cases h
    obtain hSame | ⟨key, e, hLive, hTouched⟩ := resolveReuse_cases hash overlap s query
    · rw [hSame]
      exact hs.record (hs.right_resolve hCareful.1 hCareful.2)
    · rw [hTouched]
      exact (hs.touch hLive).record (hs.right_resolve hCareful.1 hCareful.2)
  | lookupSemantic query =>
    cases h
    exact hs.record (hs.right_semantic hCareful)

theorem sound_start (h : Start s) : Sound home s := by
  obtain ⟨hCache, hEntries, hDumps, hStores, hCleared, hAnswered⟩ := h
  refine ⟨fun key e hGet => ?_, ?_, ?_, ?_, ?_, fun a ha => ?_⟩
  · rw [hCache, OrderedMap.get_empty] at hGet
    cases hGet
  · rw [hEntries]
    nofun
  · rw [hDumps]
    nofun
  · rw [hStores]
    nofun
  · rw [hCleared]
    nofun
  · rw [hAnswered] at ha
    cases ha

/-- In every history in which keys begin with ids of their writers and askers, and dumps are not
loaded over a clearing, every answer is the asker's own. -/
theorem answers_isolated (h : Reach (step hash overlap) (Careful home) Start s) : Isolated s :=
  (h.invariant (I := Sound home) (fun _ => sound_start)
    fun _ _ _ hs hCareful hstep => sound_step hs hCareful hstep).isolated

abbrev smallStep : CacheManager Nat → Label Nat → Option (CacheManager Nat) :=
  step id fun _ _ => 0

def emptyCache : CacheManager Nat := ⟨1, 1000, .empty, ⟨200, 82 / 100, 86400000, []⟩, [], [], [], []⟩

theorem start_empty : Start emptyCache := ⟨rfl, rfl, rfl, rfl, rfl, rfl⟩

def writerOf (runId tenantId projectId : String) : Writer :=
  ⟨runId.toList, tenantId.toList, projectId.toList⟩

def askedBy (w : Writer) (key taskText : String) : Query :=
  ⟨key.toList, w.runId, w.tenantId, w.projectId, taskText.toList, [], some [], [], false, false, [], 0⟩

def optionsOf (taskText : String) (result : Nat) : StoreOptions Nat :=
  ⟨taskText.toList, result, [], [], [], [], true, none, none⟩

def firstRun : Writer := writerOf "run-1" "tenant-1" "project-1"

def secondRun : Writer := writerOf "run-2" "tenant-2" "project-2"

def homeOf (id : Text) : Text × Text :=
  if id = firstRun.runId ∨ id = firstRun.projectId then (firstRun.tenantId, firstRun.projectId)
  else (secondRun.tenantId, secondRun.projectId)

def Reuse.value : Reuse β → Option β
  | .localExact e | .scopedExact e => some e.value
  | .semanticProject e _ => some e.result
  | _ => none

def askedByBoth : List (Label Nat) :=
  [.set firstRun "run-1:prompt".toList 7 1000, .storeSemantic firstRun (optionsOf "a task" 8), .dump,
    .resolveReuse (askedBy firstRun "prompt" "a task"),
    .resolveReuse (askedBy secondRun "prompt" "a task"), .passes 2000, .load 0,
    .resolveReuse (askedBy firstRun "prompt" "a task")]

theorem answers_isolated_askedByBoth : ∃ s, run smallStep emptyCache askedByBoth = some s ∧
    s.answered.map (fun a => a.reuse.value) = [some 7, none, some 8] ∧ Isolated s := by
  have hRun : (run smallStep emptyCache askedByBoth).map (fun s =>
      s.answered.map fun a => a.reuse.value) = some [some 7, none, some 8] := by
    decide +kernel
  obtain ⟨s, hs, hValues⟩ := Option.map_eq_some_iff.mp hRun
  exact ⟨s, hs, hValues,
    @answers_isolated _ homeOf _ _ _ ((Reach.start start_empty).run hs (by decide +kernel))⟩

/-- A run of another tenant gets what was set under the bare key. -/
theorem bare_key_crosses : ∃ s, run smallStep emptyCache
      [.set firstRun "prompt".toList 7 1000, .resolveReuse (askedBy secondRun "prompt" "a task")] =
      some s ∧ s.answered.map (fun a => a.reuse.value) = [some 7] ∧ ¬ Isolated s := by
  refine ⟨_, rfl, by decide +kernel, fun h => ?_⟩
  have hOwn := (h _ (List.mem_singleton_self _) (by decide) (by decide)).1
  exact absurd hOwn (by unfold Own; decide +kernel)

end OrchestraAI.Cache
