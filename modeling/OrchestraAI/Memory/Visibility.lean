import Mathlib.Data.Char
import Mathlib.Data.List.Lex
import OrchestraAI.Memory.MemoryManager

/-! # Visibility of memory

What a run may read of the memory of other runs, and the use of the manager under which it reads
that and all of that.
-/

namespace OrchestraAI.Memory

open LabelledSystem MemoryManager

variable (runs : RunId → Identity)

def SameOrg (a b : Identity) : Prop := a.orgId.given = b.orgId.given

/-- A run of the org and the project, and of the user if it has one. -/
structure Peer (a b : Identity) : Prop where
  org : SameOrg a b
  project : a.projectId.given = b.projectId.given
  user : ∀ u ∈ a.user, b.user = some u

def CompatibleProject (a b : Identity) : Prop :=
  ∀ p ∈ a.projectId.given, ∀ q ∈ b.projectId.given, p = q

instance (a b : Identity) : Decidable (SameOrg a b) :=
  inferInstanceAs (Decidable (a.orgId.given = b.orgId.given))

/-- A record may be returned by a read: no run of another org has written it, it is no other user's,
and what only other runs have written is long-term memory of the org and a compatible project. -/
structure Permitted (a : Answered) (m : MemoryRecord) : Prop where
  org : ∀ w ∈ m.writers, SameOrg (runs w) (runs a.runtime.runId)
  user : ∀ owner ∈ m.owner, ∀ user ∈ (runs a.runtime.runId).user, owner = user
  own : m.seeded = true ∨ a.runtime.runId ∈ m.writers ∨
    a.scope = .longterm ∧ ∀ w ∈ m.writers, CompatibleProject (runs w) (runs a.runtime.runId)

/-- A peer of the reader has written the record, and for its user if the record names one. -/
def Due (a : Answered) (m : MemoryRecord) : Prop :=
  (∃ w ∈ m.writers, Peer (runs w) (runs a.runtime.runId)) ∧
    ∀ owner ∈ m.owner, (runs a.runtime.runId).user = some owner

/-- Every read returns only what it may, and every active long-term record that is due to it is
visible. -/
def FollowsTenant (s : MemoryManager) : Prop :=
  ∀ a ∈ s.answered,
    (∀ m ∈ a.visible ++ a.returned, Permitted runs a m) ∧
      (a.scope = .longterm → ∀ m ∈ a.stored, m.status = .active → Due runs a m → m ∈ a.visible)

def OwnItem (runId : RunId) (item : MemoryItem) : Prop :=
  item.runId.or runId.field = runId.field

def Tagged (w : RunId) (m : MemoryRecord) : Prop :=
  m.orgId = (runs w).orgId.or .null ∧ m.projectId.given = (runs w).projectId.given

variable (tools : TextTools)

def MergesOwn (s : MemoryManager) (runtime : Runtime) (item : MemoryItem) (candidateId now : Text) :
    Prop :=
  match consolidate tools s runtime item candidateId now with
  | some (.merge target _ _) => target.runId = runtime.runId.field
  | _ => True

def PeersTagged (s : MemoryManager) (reader : RunId) : Prop :=
  ∀ m ∈ s.longTermMemory.values, m.status = .active → ∀ w ∈ m.writers,
    w = reader ∨ m.orgId ≠ .undefined ∨ ¬ Peer (runs w) (runs reader)

/-- Items name no other run, merges stay within a run's own records, a run's seeds are long-term ones
with its org and project, and no run reads where a peer has written. -/
def Careful (s : MemoryManager) : Label → Prop
  | .call runId objective allowDurableMemory call _ now =>
    match call with
    | .writeWorkingMemory item | .writeLongTermMemory item _ | .approveMemoryCandidate item =>
      OwnItem runId item
    | .writeLongTermConsolidated item candidateId =>
      OwnItem runId item ∧
        MergesOwn tools s ⟨runId, runs runId, objective, allowDurableMemory⟩ item candidateId now
    | .readMemory scope _ _ => scope = .longterm → PeersTagged runs s runId
  | .seedMemory working longterm =>
    (∀ item ∈ working, RunId.ofField item.runId = none) ∧
      ∀ item ∈ longterm, ∀ w ∈ RunId.ofField item.runId, Tagged runs w item
  | .evictMemory _ _ _ | .purgeRun _ => True

instance (a b : Identity) : Decidable (Peer a b) :=
  decidable_of_iff (SameOrg a b ∧ a.projectId.given = b.projectId.given ∧
    ∀ u ∈ a.user, b.user = some u) ⟨fun h => ⟨h.1, h.2.1, h.2.2⟩, fun h => ⟨h.1, h.2, h.3⟩⟩

instance (runId : RunId) (item : MemoryItem) : Decidable (OwnItem runId item) :=
  inferInstanceAs (Decidable (_ = _))

instance (w : RunId) (m : MemoryRecord) : Decidable (Tagged runs w m) :=
  inferInstanceAs (Decidable (_ = _ ∧ _ = _))

instance (s : MemoryManager) (runtime : Runtime) (item : MemoryItem) (candidateId now : Text) :
    Decidable (MergesOwn tools s runtime item candidateId now) :=
  match h : consolidate tools s runtime item candidateId now with
  | some (.merge target _ _) =>
    decidable_of_iff (target.runId = runtime.runId.field) (by rw [MergesOwn, h])
  | some (.create _) | some (.conflict _ _) | none => .isTrue (by rw [MergesOwn, h]; trivial)

instance (s : MemoryManager) (reader : RunId) : Decidable (PeersTagged runs s reader) :=
  inferInstanceAs (Decidable (∀ m ∈ s.longTermMemory.values, m.status = .active →
    ∀ w ∈ m.writers, w = reader ∨ m.orgId ≠ .undefined ∨ ¬ Peer (runs w) (runs reader)))

instance (s : MemoryManager) : ∀ l, Decidable (Careful runs tools s l)
  | .call runId _ _ (.writeWorkingMemory item) _ _
  | .call runId _ _ (.writeLongTermMemory item _) _ _
  | .call runId _ _ (.approveMemoryCandidate item) _ _ =>
    inferInstanceAs (Decidable (OwnItem runId item))
  | .call runId objective allowDurableMemory (.writeLongTermConsolidated item candidateId) _ now =>
    inferInstanceAs (Decidable (OwnItem runId item ∧
      MergesOwn tools s ⟨runId, runs runId, objective, allowDurableMemory⟩ item candidateId now))
  | .call runId _ _ (.readMemory scope _ _) _ _ =>
    inferInstanceAs (Decidable (scope = .longterm → PeersTagged runs s runId))
  | .seedMemory working longterm =>
    inferInstanceAs (Decidable ((∀ item ∈ working, RunId.ofField item.runId = none) ∧
      ∀ item ∈ longterm, ∀ w ∈ RunId.ofField item.runId, Tagged runs w item))
  | .evictMemory _ _ _ | .purgeRun _ => inferInstanceAs (Decidable True)

/-- What is known of a record of a store: it is a seed of nobody's, or of one run and carries either
no org or, in the long-term store, that of the run. -/
def Placed (scope : Scope) (m : MemoryRecord) : Prop :=
  (m.seeded = true ∧ m.writers = [] ∧ RunId.ofField m.runId = none) ∨
    ∃ w, m.runId = w.field ∧ w ∈ m.writers ∧ (∀ w' ∈ m.writers, w' = w) ∧
      (m.orgId = .undefined ∨ scope = .longterm ∧ Tagged runs w m)

def Kept (scope : Scope) (store : Store) : Prop :=
  ∀ key m, store.get key = some m → m.id = key ∧ Placed runs scope m

structure Sound (s : MemoryManager) : Prop where
  working : Kept runs .working s.workingMemory
  longterm : Kept runs .longterm s.longTermMemory
  follows : FollowsTenant runs s

variable {runs} {tools} {s t : MemoryManager} {scope : Scope} {m n : MemoryRecord} {runtime : Runtime}
  {store : Store}

theorem field_injective {v w : RunId} (h : v.field = w.field) : v = w :=
  Subtype.ext (Slot.value.inj h)

theorem given_or_null (a : Field) : (a.or .null).given = a.given := by
  unfold Field.or
  split
  · rfl
  · rename_i h
    exact (Option.not_isSome_iff_eq_none.mp h).symm

/-- A record of which the identity, the runs and the seeding are kept stays as it is. -/
theorem Placed.congr (h : Placed runs scope m) (hRun : n.runId = m.runId)
    (hWriters : ∀ w, w ∈ n.writers ↔ w ∈ m.writers) (hOrg : n.orgId = m.orgId)
    (hProject : n.projectId = m.projectId) (hSeeded : n.seeded = m.seeded) : Placed runs scope n := by
  obtain ⟨hSeed, hNone, hNobody⟩ | ⟨w, hw, hMem, hOnly, hTags⟩ := h
  · left
    refine ⟨hSeeded.trans hSeed, List.eq_nil_iff_forall_not_mem.mpr fun w hw => ?_, hRun ▸ hNobody⟩
    rw [hWriters, hNone] at hw
    cases hw
  · right
    refine ⟨w, hRun.trans hw, (hWriters w).mpr hMem, fun w' h' => hOnly w' ((hWriters w').mp h'), ?_⟩
    rw [Tagged, hOrg, hProject]
    exact hTags

theorem Placed.writes (h : Placed runs scope m) {w : RunId} (hw : m.runId = w.field) :
    w ∈ m.writers := by
  obtain ⟨-, -, hNobody⟩ | ⟨v, hv, hMem, -, -⟩ := h
  · rw [RunId.ofField_eq_some.mpr hw] at hNobody
    cases hNobody
  · rwa [field_injective (hw.symm.trans hv)]

theorem placed_toRecord {item : MemoryItem} (h : OwnItem runtime.runId item) (newId now : Text) :
    Placed runs scope (toRecord runtime newId now scope item) :=
  .inr ⟨runtime.runId, h, List.mem_singleton_self _, fun _ => List.mem_singleton.mp, .inl rfl⟩

theorem placed_seed_shared (h : RunId.ofField m.runId = none) :
    Placed runs scope (seed scope m) := by
  left
  rw [seed, h]
  refine ⟨rfl, rfl, ?_⟩
  change RunId.ofField (m.runId.or _) = none
  unfold Field.or
  split
  · exact h
  · rfl

theorem placed_seed_longterm (h : ∀ w ∈ RunId.ofField m.runId, Tagged runs w m) :
    Placed runs .longterm (seed .longterm m) := by
  cases hRun : RunId.ofField m.runId with
  | none => exact placed_seed_shared hRun
  | some w =>
    right
    have hField : m.runId = w.field := RunId.ofField_eq_some.mp hRun
    refine ⟨w, ?_, ?_, ?_, .inr ⟨rfl, h w hRun⟩⟩
    · rw [seed, hField]
      exact if_pos (by rw [RunId.field, Field.given_text w.property.1]; rfl)
    · rw [seed, hRun]
      exact List.mem_singleton_self w
    · rw [seed, hRun]
      exact fun _ => List.mem_singleton.mp

theorem mem_visibleItems :
    m ∈ visibleItems store runtime ↔ m ∈ store.values ∧ m.status = .active ∧ visibleTo runtime m := by
  rw [visibleItems, List.mem_insertionSort, List.mem_filter, List.mem_filter, and_assoc,
    decide_eq_true_iff]

theorem visibleTo_cases (h : visibleTo runtime m = true) :
    (∀ owner ∈ m.owner, ∀ user ∈ runtime.identity.user, owner = user) ∧
      (m.runId = runtime.runId.field ∨
        ∀ w : RunId, m.runId = w.field → m.orgId = runtime.identity.orgId.or .null ∧
          ∀ p ∈ m.projectId.given, ∀ q ∈ runtime.identity.projectId.given, p = q) := by
  rw [visibleTo] at h
  split at h
  · cases h
  · rename_i hOwner
    constructor
    · intro owner hSome user hUser
      by_contra hne
      exact hOwner ⟨owner, hSome, user, hUser, hne⟩
    · split at h
      · rename_i hOwn
        exact .inl hOwn
      · right
        intro w hw
        split at h
        · obtain ⟨hOrg, hProject⟩ := of_decide_eq_true h
          refine ⟨hOrg, fun p hp q hq => ?_⟩
          rw [given_or_null] at hProject
          obtain hNone | hNone | hSame := hProject
          · rw [hNone] at hq
            cases hq
          · rw [hNone] at hp
            cases hp
          · rw [hSame, given_or_null] at hp
            exact Option.some.inj (hp.symm.trans hq)
        · rename_i hNot
          refine absurd ⟨?_, fun hShared => w.property.2 (Slot.value.inj (hw.symm.trans hShared))⟩ hNot
          rw [hw, RunId.field, Field.given_text w.property.1]
          rfl

theorem visibleTo_own (hRun : m.runId = runtime.runId.field)
    (hOwner : ∀ owner ∈ m.owner, runtime.identity.user = some owner) :
    visibleTo runtime m = true := by
  rw [visibleTo]
  rw [if_neg, if_pos hRun]
  rintro ⟨owner, hSome, user, hUser, hne⟩
  rw [hOwner owner hSome] at hUser
  exact hne (Option.some.inj hUser)

theorem visibleTo_peer {w : RunId} (hRun : m.runId = w.field)
    (hOwner : ∀ owner ∈ m.owner, runtime.identity.user = some owner)
    (hOrg : m.orgId = runtime.identity.orgId.or .null)
    (hProject : m.projectId.given = runtime.identity.projectId.given) :
    visibleTo runtime m = true := by
  rw [visibleTo]
  rw [if_neg]
  · split
    · rfl
    · rw [if_pos]
      · refine decide_eq_true ⟨hOrg, ?_⟩
        rw [given_or_null]
        cases hGiven : runtime.identity.projectId.given with
        | none => exact .inl rfl
        | some p =>
          right; right
          rw [Field.given_eq_some (hProject.trans hGiven), Field.or, hGiven]
          exact (Field.given_eq_some hGiven).symm
      · constructor
        · rw [hRun, RunId.field, Field.given_text w.property.1]
          rfl
        · intro hShared
          exact w.property.2 (Slot.value.inj (hRun.symm.trans hShared))
  · rintro ⟨owner, hSome, user, hUser, hne⟩
    rw [hOwner owner hSome] at hUser
    exact hne (Option.some.inj hUser)

theorem given_eq_of_or_null {a b : Field} (h : a.or .null = b.or .null) : a.given = b.given := by
  rw [← given_or_null a, h, given_or_null]

theorem or_null_congr {a b : Field} (h : a.given = b.given) : a.or .null = b.or .null := by
  rw [Field.or, Field.or, h]
  cases hGiven : b.given with
  | none => rfl
  | some t => exact (Field.given_eq_some (h.trans hGiven)).trans (Field.given_eq_some hGiven).symm

theorem Placed.permitted (h : Placed runs scope m) {stored visible returned : List MemoryRecord}
    (hRuntime : runtime.identity = runs runtime.runId) (hVisible : visibleTo runtime m = true) :
    Permitted runs ⟨runtime, scope, stored, visible, returned⟩ m := by
  obtain ⟨hUser, hReach⟩ := visibleTo_cases hVisible
  rw [hRuntime] at hUser
  obtain ⟨hSeed, hNone, -⟩ | ⟨w, hw, hMem, hOnly, hTags⟩ := h
  · refine ⟨?_, hUser, .inl hSeed⟩
    rw [hNone]
    nofun
  · obtain hOwn | hPeer := hReach
    · obtain rfl := field_injective (hw.symm.trans hOwn)
      refine ⟨fun w' h' => ?_, hUser, .inr (.inl hMem)⟩
      rw [hOnly w' h']
      rfl
    · obtain ⟨hOrg, hProject⟩ := hPeer w hw
      rw [hRuntime] at hOrg hProject
      obtain hDropped | ⟨hScope, hTagOrg, hTagProject⟩ := hTags
      · exfalso
        rw [hDropped, Field.or] at hOrg
        split at hOrg
        · rename_i hSome
          rw [← hOrg] at hSome
          cases hSome
        · cases hOrg
      · refine ⟨fun w' h' => ?_, hUser, .inr (.inr ⟨hScope, fun w' h' => ?_⟩)⟩
        · rw [hOnly w' h']
          exact given_eq_of_or_null (hTagOrg.symm.trans hOrg)
        · rw [hOnly w' h', CompatibleProject, ← hTagProject]
          exact hProject

theorem Placed.visible (h : Placed runs .longterm m) {stored visible returned : List MemoryRecord}
    (hRuntime : runtime.identity = runs runtime.runId)
    (hPeers : ∀ w ∈ m.writers,
      w = runtime.runId ∨ m.orgId ≠ .undefined ∨ ¬ Peer (runs w) (runs runtime.runId))
    (hDue : Due runs ⟨runtime, .longterm, stored, visible, returned⟩ m) :
    visibleTo runtime m = true := by
  obtain ⟨⟨v, hv, hPeer⟩, hOwner⟩ := hDue
  rw [← hRuntime] at hOwner
  obtain ⟨-, hNone, -⟩ | ⟨w, hw, hMem, hOnly, hTags⟩ := h
  · rw [hNone] at hv
    cases hv
  · obtain rfl := hOnly v hv
    obtain rfl | hTag | hNot := hPeers v hv
    · exact visibleTo_own hw hOwner
    · obtain ⟨-, hOrg, hProject⟩ := hTags.resolve_left hTag
      apply visibleTo_peer hw hOwner
      · rw [hOrg, hRuntime]
        exact or_null_congr hPeer.org
      · rw [hProject, hRuntime]
        exact hPeer.project
    · exact absurd hPeer hNot

theorem Kept.set (h : Kept runs scope store) (hm : Placed runs scope m) :
    Kept runs scope (store.set m.id m) := by
  intro key n hGet
  rw [OrderedMap.get_set] at hGet
  split at hGet
  · rename_i hSame
    cases hGet
    exact ⟨hSame.symm, hm⟩
  · exact h key n hGet

theorem Kept.setAll (h : Kept runs scope store) {l : List MemoryRecord}
    (hl : ∀ m ∈ l, Placed runs scope m) : Kept runs scope (store.setAll (·.id) l) := by
  intro key m hGet
  obtain ⟨hMem, hKey⟩ | ⟨hOld, -⟩ := OrderedMap.get_setAll hGet
  · exact ⟨hKey, hl m hMem⟩
  · exact h key m hOld

theorem Kept.keepIf (h : Kept runs scope store) (p : MemoryRecord → Bool) :
    Kept runs scope (store.keepIf p) :=
  fun key m hGet => h key m ((OrderedMap.get_keepIf store p).mp hGet).1

theorem Kept.of_mem (h : Kept runs scope store) (hm : m ∈ store.values) : Placed runs scope m := by
  obtain ⟨key, hGet⟩ := (OrderedMap.mem_values_iff store m).mp hm
  exact (h key m hGet).2

/-- A fold that keeps its choice or takes the next element ends with an element of the list. -/
theorem foldl_mem {α β : Type} {pick : Option β → α → Option β} (value : β → α)
    (h : ∀ best a, pick best a = best ∨ ∃ b, pick best a = some b ∧ value b = a) {l : List α} {b : β}
    (hb : l.foldl pick none = some b) : value b ∈ l := by
  induction l using List.reverseRecOn generalizing b with
  | nil => cases hb
  | append_singleton l a ih =>
    rw [List.foldl_append, List.foldl_cons, List.foldl_nil] at hb
    obtain hKept | ⟨c, hTaken, hValue⟩ := h (l.foldl pick none) a
    · exact List.mem_append_left _ (ih (hKept.symm.trans hb))
    · obtain rfl := Option.some.inj (hTaken.symm.trans hb)
      rw [hValue]
      exact List.mem_append_right _ (List.mem_singleton_self a)

theorem oldest_mem (h : oldest store = some m) : m ∈ store.values := by
  refine foldl_mem id (fun best a => ?_) h
  split
  · exact .inl rfl
  · split
    · exact .inr ⟨a, rfl, rfl⟩
    · split
      · exact .inr ⟨a, rfl, rfl⟩
      · exact .inl rfl

theorem Kept.evictOldest (h : Kept runs scope store) (status : MemoryStatus) :
    Kept runs scope (evictOldest store status) := by
  unfold MemoryManager.evictOldest
  split
  · exact h
  · rename_i o hOldest
    have hPlaced : Placed runs scope { o with status := status } :=
      (h.of_mem (oldest_mem hOldest)).congr rfl (fun _ => Iff.rfl) rfl rfl rfl
    exact h.set hPlaced

theorem Kept.insert (h : Kept runs scope store) (hm : Placed runs scope m) (cap : Nat)
    (status : MemoryStatus) : Kept runs scope (insert store cap status m) := by
  unfold MemoryManager.insert
  dsimp only
  split
  · exact (h.set hm).evictOldest status
  · exact h.set hm

theorem Sound.storeKept (hs : Sound runs s) : Kept runs scope (s.store scope) := by
  cases scope with
  | working => exact hs.working
  | longterm => exact hs.longterm

theorem Sound.withStore (hs : Sound runs s) (h : Kept runs scope store) :
    Sound runs (s.withStore store scope) := by
  cases scope with
  | working => exact ⟨h, hs.longterm, hs.follows⟩
  | longterm => exact ⟨hs.working, h, hs.follows⟩

theorem ownItem_sanitized {runId : RunId} {item : MemoryItem} (h : OwnItem runId item)
    (confidence : Option ℚ) : OwnItem runId { sanitizeInput tools item with confidence } := h

theorem placed_written {item : MemoryItem} (h : OwnItem runtime.runId item) (newId now : Text)
    (confidence : Option ℚ) : Placed runs scope
      { toRecord runtime newId now scope { sanitizeInput tools item with confidence } with
        title := (sanitizeInput tools item).title
        snippet := (sanitizeInput tools item).snippet } :=
  (placed_toRecord (ownItem_sanitized h confidence) newId now).congr rfl (fun _ => Iff.rfl) rfl rfl rfl

theorem Sound.writeWorkingMemory (hs : Sound runs s) {item : MemoryItem}
    (h : OwnItem runtime.runId item) (newId now : Text) :
    Sound runs (writeWorkingMemory tools s runtime item newId now) :=
  ⟨hs.working.insert (placed_written h newId now _) _ _, hs.longterm, hs.follows⟩

theorem proposeMemory_cases (tools : TextTools) (runtime : Runtime) (item : MemoryItem)
    (explicit : Bool) :
    proposeMemory tools runtime item explicit = .reject ∨ ∃ classification,
      proposeMemory tools runtime item explicit =
          .quarantine classification (sanitizeInput tools item) ∨
        proposeMemory tools runtime item explicit =
          .persist classification (sanitizeInput tools item) := by
  unfold proposeMemory
  dsimp only
  split
  · exact .inl rfl
  · split
    · exact .inr ⟨_, .inl rfl⟩
    · exact .inr ⟨_, .inr rfl⟩

theorem Sound.writeLongTermMemory (hs : Sound runs s) {item : MemoryItem} {explicit : Bool}
    (h : OwnItem runtime.runId item) {newId now : Text} {written : MemoryManager × MemoryRecord}
    (hw : writeLongTermMemory tools s runtime item explicit newId now = some written) :
    Sound runs written.1 := by
  unfold MemoryManager.writeLongTermMemory at hw
  obtain hReject | ⟨classification, hQuarantine | hPersist⟩ :=
    proposeMemory_cases tools runtime item explicit
  · rw [hReject] at hw
    cases hw
  · rw [hQuarantine] at hw
    cases hw
    exact ⟨hs.working.set (placed_written h newId now _), hs.longterm, hs.follows⟩
  · rw [hPersist] at hw
    cases hw
    exact ⟨hs.working, hs.longterm.insert (placed_written h newId now _) _ _, hs.follows⟩

theorem Sound.markConflict (hs : Sound runs s) (m target : MemoryRecord) :
    Sound runs (markConflict s m target) := by
  unfold MemoryManager.markConflict
  split
  · exact hs
  · rename_i found hFound
    obtain ⟨hId, hPlaced⟩ := hs.storeKept m.id found hFound
    apply hs.withStore
    rw [← hId]
    exact hs.storeKept.set (m := { found with conflictWith := some target.id })
      (hPlaced.congr rfl (fun _ => Iff.rfl) rfl rfl rfl)

theorem consolidateCandidate_merge {threshold : ℚ} {now : Text} {candidate target merged : MemoryRecord}
    {existing : List MemoryRecord} {similarity : ℚ}
    (h : consolidateCandidate tools threshold now candidate existing =
      some (.merge target merged similarity)) :
    target ∈ existing ∧ merged.id = target.id ∧ merged.runId = target.runId ∧
      merged.writers = target.writers ∧ merged.orgId = target.orgId ∧
      merged.projectId = target.projectId ∧ merged.seeded = target.seeded ∧
      merged.status = target.status := by
  unfold consolidateCandidate at h
  split at h
  · cases h
  · rename_i best bestSim hBest
    have hMem : best ∈ existing := by
      refine foldl_mem Prod.fst (fun best a => ?_) hBest
      split
      · exact .inl rfl
      · dsimp only
        split
        · exact .inr ⟨_, rfl, rfl⟩
        · exact .inl rfl
    dsimp only at h
    split at h
    · cases h
    · split at h
      · cases h
      · obtain ⟨keeps, -, hMerge⟩ := Option.map_eq_some_iff.mp h
        cases hMerge
        exact ⟨hMem, rfl, rfl, rfl, rfl, rfl, rfl, rfl⟩

theorem Sound.writeLongTermConsolidated (hs : Sound runs s) {item : MemoryItem}
    {candidateId newId now : Text} (h : OwnItem runtime.runId item)
    (hMerges : MergesOwn tools s runtime item candidateId now)
    (hw : writeLongTermConsolidated tools s runtime item candidateId newId now = some t) :
    Sound runs t := by
  unfold MemoryManager.writeLongTermConsolidated at hw
  unfold MergesOwn at hMerges
  split at hw
  · cases hw
  · rename_i target merged similarity hDecision
    rw [hDecision] at hMerges
    obtain ⟨hVisible, hId, hRun, hWriters, hOrg, hProject, hSeeded, -⟩ :=
      consolidateCandidate_merge hDecision
    cases hw
    have hTarget : Placed runs .longterm target := hs.longterm.of_mem (mem_visibleItems.mp hVisible).1
    refine ⟨hs.working, ?_, hs.follows⟩
    rw [← hId]
    refine hs.longterm.set (m := { merged with
      lastUsedAt := .text now, writers := merged.writers ++ [runtime.runId] }) ?_
    refine hTarget.congr hRun (fun w => ?_) hOrg hProject hSeeded
    rw [hWriters, List.mem_append, List.mem_singleton, or_iff_left_of_imp]
    rintro rfl
    exact hTarget.writes hMerges
  · obtain ⟨written, hWritten, rfl⟩ := Option.map_eq_some_iff.mp hw
    exact (hs.writeLongTermMemory h hWritten).markConflict _ _
  · obtain ⟨written, hWritten, rfl⟩ := Option.map_eq_some_iff.mp hw
    exact hs.writeLongTermMemory h hWritten

theorem mem_rankByQuery {query now : Text} {items : List MemoryRecord}
    (h : m ∈ rankByQuery tools query now runtime items) :
    ∃ m' ∈ items, ∃ score, m = { m' with retrievalScore := score } := by
  unfold rankByQuery at h
  split at h
  · exact ⟨m, h, m.retrievalScore, rfl⟩
  · obtain ⟨x, hx, rfl⟩ := List.mem_map.mp h
    obtain ⟨item, hItem, hScored⟩ := List.mem_filterMap.mp ((List.mem_insertionSort _).mp hx)
    refine ⟨item, hItem, some x.2, ?_⟩
    split at hScored
    · cases hScored
    · dsimp only at hScored
      split at hScored
      · cases hScored
      · rw [← Option.some.inj hScored]

theorem Sound.readMemory (hs : Sound runs s) (hRuntime : runtime.identity = runs runtime.runId)
    (hPeers : scope = .longterm → PeersTagged runs s runtime.runId) (query : Text) (limit : Nat)
    (now : Text) : Sound runs (readMemory tools s runtime scope query limit now) := by
  have hVisible {m : MemoryRecord} (h : m ∈ visibleItems (s.store scope) runtime) :
      Placed runs scope m ∧ visibleTo runtime m = true :=
    ⟨hs.storeKept.of_mem (mem_visibleItems.mp h).1, (mem_visibleItems.mp h).2.2⟩
  have hRanked {m : MemoryRecord}
      (h : m ∈ rankByQuery tools query now runtime (visibleItems (s.store scope) runtime)) :
      Placed runs scope m ∧ visibleTo runtime m = true := by
    obtain ⟨m', hm', score, rfl⟩ := mem_rankByQuery h
    obtain ⟨hPlaced, hSeen⟩ := hVisible hm'
    exact ⟨hPlaced.congr rfl (fun _ => Iff.rfl) rfl rfl rfl, hSeen⟩
  obtain ⟨hWorking, hLongterm, hFollows⟩ :=
    hs.withStore (hs.storeKept.setAll fun m hm => (hRanked hm).1)
  refine ⟨hWorking, hLongterm, fun a ha => ?_⟩
  obtain hOld | hNew := List.mem_append.mp ha
  · exact hs.follows a hOld
  · obtain rfl := List.mem_singleton.mp hNew
    constructor
    · intro m hm
      obtain hm | hm := List.mem_append.mp hm
      · exact (hVisible hm).1.permitted hRuntime (hVisible hm).2
      · have hm := List.mem_of_mem_take hm
        exact (hRanked hm).1.permitted hRuntime (hRanked hm).2
    · rintro rfl m hStored hActive hDue
      have hPlaced : Placed runs .longterm m := hs.longterm.of_mem hStored
      exact mem_visibleItems.mpr ⟨hStored, hActive,
        hPlaced.visible hRuntime (hPeers rfl m hStored hActive) hDue⟩

theorem sound_step {l : Label} (hs : Sound runs s) (hCareful : Careful runs tools s l)
    (h : step tools runs s l = some t) : Sound runs t := by
  cases l with
  | call runId objective allowDurableMemory call newId now =>
    cases h
    cases call with
    | writeWorkingMemory item =>
      have hOwn : OwnItem runId item := hCareful
      exact hs.writeWorkingMemory hOwn newId now
    | writeLongTermMemory item explicit =>
      have hOwn : OwnItem runId item := hCareful
      change Sound runs (Option.getD _ s)
      cases hw : writeLongTermMemory tools s ⟨runId, runs runId, objective, allowDurableMemory⟩ item
          explicit newId now with
      | none => exact hs
      | some written => exact hs.writeLongTermMemory hOwn hw
    | approveMemoryCandidate item =>
      have hOwn : OwnItem runId { item with candidateApproved := true } := hCareful
      change Sound runs (Option.getD _ s)
      cases hw : approveMemoryCandidate tools s ⟨runId, runs runId, objective, allowDurableMemory⟩
          item newId now with
      | none => exact hs
      | some written => exact hs.writeLongTermMemory hOwn hw
    | writeLongTermConsolidated item candidateId =>
      change Sound runs (Option.getD _ s)
      cases hw : writeLongTermConsolidated tools s
          ⟨runId, runs runId, objective, allowDurableMemory⟩ item candidateId newId now with
      | none => exact hs
      | some t => exact hs.writeLongTermConsolidated hCareful.1 hCareful.2 hw
    | readMemory scope query limit =>
      have hPeers : scope = .longterm → PeersTagged runs s runId := hCareful
      exact hs.readMemory rfl hPeers query limit now
  | evictMemory itemId scope now =>
    cases h
    unfold evictMemory
    split
    · exact hs
    · rename_i item hItem
      obtain ⟨hId, hPlaced⟩ := hs.storeKept itemId item hItem
      apply hs.withStore
      rw [← hId]
      exact hs.storeKept.set (m := { item with status := .evicted, lastUsedAt := .text now })
        (hPlaced.congr rfl (fun _ => Iff.rfl) rfl rfl rfl)
  | purgeRun runId =>
    cases h
    exact ⟨hs.working.keepIf _, hs.longterm.keepIf _, hs.follows⟩
  | seedMemory working longterm =>
    cases h
    obtain ⟨hWorking, hLongterm⟩ := hCareful
    refine ⟨hs.working.setAll fun m hm => ?_, hs.longterm.setAll fun m hm => ?_, hs.follows⟩
    · obtain ⟨item, hItem, rfl⟩ := List.mem_map.mp hm
      exact placed_seed_shared (hWorking item hItem)
    · obtain ⟨item, hItem, rfl⟩ := List.mem_map.mp hm
      exact placed_seed_longterm (hLongterm item hItem)

theorem sound_start (h : Start s) : Sound runs s := by
  obtain ⟨hWorking, hLongterm, hAnswered⟩ := h
  refine ⟨fun key m hGet => ?_, fun key m hGet => ?_, fun a ha => ?_⟩
  · rw [hWorking] at hGet
    cases hGet
  · rw [hLongterm] at hGet
    cases hGet
  · rw [hAnswered] at ha
    cases ha

/-- In every history of careful calls each read returns what it may and sees what is due to it. -/
theorem memory_follows_tenant (h : Reach (step tools runs) (Careful runs tools) Start s) :
    FollowsTenant runs s :=
  (h.invariant (I := Sound runs) (fun _ => sound_start)
    fun _ _ _ hs hCareful hstep => sound_step hs hCareful hstep).follows

def plainTools : TextTools where
  redactSecrets := id
  findSecrets _ := false
  keywordLike _ := false
  lexicalOverlap a b := if a = b then 1 else 0
  contradicts _ _ := false
  score _ _ _ _ := 1 / 2
  localeLe a b := a ≤ b

def runA : RunId := ⟨"run-a".toList, by decide⟩

def runB : RunId := ⟨"run-b".toList, by decide⟩

def runC : RunId := ⟨"run-c".toList, by decide⟩

def identityOf (run : RunId) : Identity :=
  if run = runA ∨ run = runB then
    ⟨.text "org-1".toList, .text "project-1".toList, .undefined, .text "user-1".toList⟩
  else ⟨.text "org-2".toList, .text "project-2".toList, .undefined, .text "user-2".toList⟩

def note (title snippet : String) : MemoryItem :=
  ⟨.undefined, .undefined, .text title.toList, .text snippet.toList, .undefined,
    .text "prefs".toList, .undefined, .undefined, .undefined, .undefined, .undefined, .undefined,
    none, none, .undefined, .undefined, .undefined, .undefined, [], none, [], false, false⟩

def seedOf (id title snippet : String) : MemoryRecord :=
  { createMemoryRecord id.toList "t0".toList .longterm (note title snippet) with
    projectId := .undefined }

def emptyManager : MemoryManager := ⟨50, 500, 55 / 100, .empty, .empty, []⟩

theorem start_empty : Start emptyManager := ⟨rfl, rfl, rfl⟩

def callOf (run : RunId) (call : Call) (newId : String) : Label :=
  .call run [] true call newId.toList "t1".toList

def readAll (run : RunId) : Label := callOf run (.readMemory .longterm "pnpm".toList 10) "none"

/-- Seeds of nobody and of a run, two equal notes of a run, and a read of a run of each org. -/
def readByBoth : List Label :=
  [.seedMemory [] [seedOf "seed-1" "Editor" "use vim",
      { seedOf "seed-2" "Shell" "use fish" with
        runId := runB.field, orgId := .text "org-1".toList, projectId := .text "project-1".toList }],
    callOf runA (.writeLongTermConsolidated (note "Package manager" "use pnpm") "mem-0".toList) "mem-1",
    callOf runA (.writeLongTermConsolidated (note "Package manager" "use pnpm") "mem-0".toList) "mem-2",
    readAll runA, readAll runC]

/-- The first run sees both seeds and its note, the run of the other org the seed of nobody. -/
theorem memory_follows_tenant_readByBoth : ∃ s,
    run (step plainTools identityOf) emptyManager readByBoth = some s ∧
      s.answered.map (fun a => a.returned.map (·.id)) =
        [["mem-1".toList, "seed-1".toList, "seed-2".toList], ["seed-1".toList]] ∧
      FollowsTenant identityOf s := by
  have hRun : (run (step plainTools identityOf) emptyManager readByBoth).map (fun s =>
      s.answered.map fun a => a.returned.map (·.id)) =
        some [["mem-1".toList, "seed-1".toList, "seed-2".toList], ["seed-1".toList]] := by
    decide +kernel
  obtain ⟨s, hs, hReturned⟩ := Option.map_eq_some_iff.mp hRun
  exact ⟨s, hs, hReturned,
    memory_follows_tenant ((Reach.start start_empty).run hs (by decide +kernel))⟩

/-- The org of a written record is not kept: a run does not see what an earlier run of its org and
project has stored. -/
theorem peer_unseen : ∃ s,
    run (step plainTools identityOf) emptyManager
      [callOf runA (.writeLongTermMemory (note "Package manager" "use pnpm") true) "mem-1",
        readAll runB] = some s ∧
      s.answered.map (fun a => (a.stored.length, a.visible.length)) = [(1, 0)] ∧
      ¬ FollowsTenant identityOf s := by
  refine ⟨_, rfl, by decide +kernel, fun h => ?_⟩
  have hSeen := (h _ (List.mem_singleton_self _)).2 rfl _ (List.mem_singleton_self _) rfl
    ⟨⟨runA, List.mem_singleton_self _, by decide +kernel⟩, by decide +kernel⟩
  exact absurd (List.length_pos_of_mem hSeen) (by decide +kernel)

theorem merged_seed_leaks : ∃ s,
    run (step plainTools identityOf) emptyManager
      [.seedMemory [] [seedOf "seed-1" "Editor" "use vim"],
        callOf runA (.writeLongTermConsolidated (note "Editor" "use vim") "mem-0".toList) "mem-1",
        readAll runC] = some s ∧
      s.answered.map (fun a => a.returned.map (·.writers)) = [[[runA]]] ∧
      ¬ FollowsTenant identityOf s := by
  refine ⟨_, rfl, by decide +kernel, fun h => ?_⟩
  have hOrg := fun a ha m hm => ((h a ha).1 m (List.mem_append_left _ hm)).org
  exact absurd hOrg (by decide +kernel)

end OrchestraAI.Memory
