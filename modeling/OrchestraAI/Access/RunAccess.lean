import OrchestraAI.Library.OrderedMap
import OrchestraAI.Library.TextUnits

/-! # Who may see a run

`isGlobalAdmin` and `canAccessRun` of `auth.js`, and `visibleRunIndex` and `guardRunRead` of
`server.js` over the run index of either store and the runs in memory. A field that JavaScript
takes for false, be it absent, null or empty, is absent here.
-/

namespace OrchestraAI.Access

abbrev Name := { s : String // s ≠ "" }

def Name.of (s : String) : Option Name := if h : s = "" then none else some ⟨s, h⟩

abbrev RunId := Name

inductive Role
  | viewer
  | operator
  | admin
  deriving DecidableEq, Repr

inductive Source
  | session
  | env
  | envList
  | devMode
  deriving DecidableEq, Repr

structure Principal where
  id : Option Name
  role : Role
  orgId : Option Name
  source : Source
  deriving DecidableEq

structure Ownership where
  ownerId : Option Name
  orgId : Option Name
  deriving DecidableEq

structure RunEntry where
  id : RunId
  ownerId : Option Name
  /-- What old records have for `ownerId`. -/
  owner : Option Name
  orgId : Option Name
  ownership : Option Ownership
  deriving DecidableEq

structure LiveRun where
  ownerId : Option Name
  orgId : Option Name
  deriving DecidableEq

/-- Its summary in `getActiveRuns`. -/
def LiveRun.summary (run : LiveRun) (id : RunId) : RunEntry := ⟨id, run.ownerId, none, run.orgId, none⟩

def RunEntry.ownerOf (r : RunEntry) : Option Name := r.ownerId <|> r.owner

def isGlobalAdmin (p : Principal) : Bool := p.role = .admin && p.source ≠ .session

def sameOrg (orgId : Option Name) (p : Principal) : Bool := orgId.isSome && orgId == p.orgId

def ownedBy (owner : Option Name) (p : Principal) : Bool := owner.isSome && owner == p.id

def canAccessRun (p : Principal) (runLike : RunEntry) : Bool :=
  isGlobalAdmin p ||
    sameOrg (runLike.orgId <|> runLike.ownership.bind Ownership.orgId) p ||
    ownedBy (runLike.ownerOf <|> runLike.ownership.bind Ownership.ownerId) p

def RUN_INDEX_READ_LIMIT : Nat := 10000

inductive StoreKind
  | file
  | postgres
  deriving DecidableEq, Repr

structure Server where
  authEnabled : Bool
  store : StoreKind
  /-- The index in the order in which the store lists it. -/
  rows : List RunEntry
  rowsNodup : (rows.map RunEntry.id).Nodup
  activeRuns : OrderedMap RunId LiveRun
  terminalRuns : OrderedMap RunId LiveRun

namespace Server

variable (s : Server)

def ofOrg (org : Name) (r : RunEntry) : Bool :=
  match s.store with
  | .file => r.orgId == some org || r.ownership.bind Ownership.orgId == some org
  | .postgres => r.orgId.any fun o => o.val == String.ofList (Text.sliceUnits 128 org.val.toList)

def asked (orgId : Option Name) (r : RunEntry) : Bool := orgId.all fun org => s.ofOrg org r

def loadRunIndex (orgId : Option Name) : List RunEntry :=
  match s.store with
  | .file => s.rows.filter (s.asked orgId)
  | .postgres => (s.rows.filter (s.asked orgId)).take RUN_INDEX_READ_LIMIT

def getActiveRuns : List RunEntry := s.activeRuns.entries.map fun e => e.2.summary e.1

def mergeIndex (persisted live : List RunEntry) : OrderedMap RunId RunEntry :=
  (OrderedMap.empty.setAll RunEntry.id persisted).setAll RunEntry.id live

def scope : Option Principal → Option Name
  | none => none
  | some p => if s.authEnabled && !isGlobalAdmin p then p.orgId else none

/-- The test of `visibleRunIndex`. -/
def visible (p : Principal) (r : RunEntry) : Bool :=
  r.ownerOf.isSome && (ownedBy r.ownerOf p || sameOrg r.orgId p)

def visibleRunIndex (principal : Option Principal) : List RunEntry :=
  let all := (mergeIndex (s.loadRunIndex (s.scope principal)) s.getActiveRuns).values
  match principal with
  | none => all
  | some p => if !s.authEnabled || isGlobalAdmin p then all else all.filter (visible p)

def getRun (runId : RunId) : Option LiveRun :=
  s.activeRuns.get runId <|> s.terminalRuns.get runId

def ownedByOtherWithIndex (runId : RunId) (p : Principal) (index : List RunEntry) : Bool :=
  if isGlobalAdmin p then false
  else if (s.getRun runId).any fun rs => sameOrg rs.orgId p then false
  else match (s.getRun runId).bind LiveRun.ownerId with
    | some owner => !ownedBy (some owner) p
    | none => match index.find? fun r => r.id = runId with
      | none => true
      | some idx => if sameOrg idx.orgId p then false else !ownedBy idx.ownerOf p

def ownedByOther (runId : RunId) (p : Principal) : Bool :=
  if isGlobalAdmin p then false
  else if (s.getRun runId).any fun rs => sameOrg rs.orgId p then false
  else match (s.getRun runId).bind LiveRun.ownerId with
    | some owner => !ownedBy (some owner) p
    | none => s.ownedByOtherWithIndex runId p (s.loadRunIndex none)

def guardRunRead (principal : Option Principal) (runId : RunId) : Bool :=
  if s.authEnabled then
    match principal with
    | none => true
    | some p => s.ownedByOther runId p
  else false

def row (runId : RunId) : Option RunEntry := s.rows.find? fun r => r.id = runId

def record (runId : RunId) : Option RunEntry :=
  match s.getRun runId with
  | some rs => some (rs.summary runId)
  | none => s.row runId

def Listed (p : Principal) (runId : RunId) : Prop :=
  ∃ r ∈ s.visibleRunIndex (some p), r.id = runId

def Admitted (p : Principal) (runId : RunId) : Prop := s.guardRunRead (some p) runId = false

def OtherOrg (p : Principal) (r : RunEntry) : Prop :=
  r.orgId.isSome ∧ p.orgId.isSome ∧ r.orgId ≠ p.orgId

/-- The three paths agree on a run, and none crosses an org. -/
structure Agree (p : Principal) (r : RunEntry) : Prop where
  listed : s.Listed p r.id ↔ s.Admitted p r.id
  admitted : s.Admitted p r.id ↔ canAccessRun p r = true
  tenant : OtherOrg p r → ¬ s.Admitted p r.id

def Names (p : Principal) (e : RunEntry) : Prop :=
  sameOrg e.orgId p = true ∨ ownedBy e.ownerOf p = true

/-- The row is of the org that is asked for, if one is, and in Postgres fewer such rows stand before it
than are returned. -/
def OnPage (orgId : Option Name) (e : RunEntry) : Prop :=
  s.asked orgId e = true ∧ (s.store = .postgres →
    (s.rows.takeWhile fun r => r.id ≠ e.id).countP (s.asked orgId) < RUN_INDEX_READ_LIMIT)

instance (p : Principal) (e : RunEntry) : Decidable (Names p e) := inferInstanceAs (Decidable (_ ∨ _))

/-- A run that is going on: whoever its state names is of its org, if both have one, and the state
has an owner; whom the state does not name, the row of a state without owner does not name. -/
def LiveCoherent (p : Principal) (rs : LiveRun) (r : RunEntry) : Prop :=
  if isGlobalAdmin p then ¬ OtherOrg p r
  else if Names p r then ¬ OtherOrg p r ∧ rs.ownerId.isSome
  else rs.ownerId.isSome ∨ ∀ e, s.row r.id = some e → s.OnPage none e → ¬ Names p e

/-- A run that has ended and is still in memory: whoever its state names finds a row of it, with an
owner, that names them too. -/
def RetiredCoherent (p : Principal) (rs : LiveRun) (r : RunEntry) : Prop :=
  if isGlobalAdmin p then ¬ OtherOrg p r ∧ ∃ e, s.row r.id = some e ∧ s.OnPage none e
  else if Names p r then
    ¬ OtherOrg p r ∧
      ∃ e, s.row r.id = some e ∧ s.OnPage p.orgId e ∧ e.ownerOf.isSome ∧ Names p e
  else
    (∀ e, s.row r.id = some e → s.OnPage p.orgId e → Names p e → e.ownerOf = none) ∧
      (rs.ownerId.isSome ∨ ∀ e, s.row r.id = some e → s.OnPage none e → ¬ Names p e)

def Owns (p : Principal) (r : RunEntry) : Prop :=
  sameOrg (r.orgId <|> r.ownership.bind Ownership.orgId) p = true ∨
    ownedBy (r.ownerOf <|> r.ownership.bind Ownership.ownerId) p = true

/-- A run that only the index has: whoever its row names, its ownership record included, is named by
the row itself, which has an owner. -/
def StoredCoherent (p : Principal) (r : RunEntry) : Prop :=
  if isGlobalAdmin p then ¬ OtherOrg p r ∧ s.OnPage none r
  else Owns p r →
    ¬ OtherOrg p r ∧ r.ownerOf.isSome ∧ Names p r ∧ s.OnPage none r ∧ s.OnPage p.orgId r

def Coherent (p : Principal) (r : RunEntry) : Prop :=
  match s.activeRuns.get r.id, s.terminalRuns.get r.id with
  | some rs, _ => s.LiveCoherent p rs r
  | none, some rs => s.RetiredCoherent p rs r
  | none, none => s.StoredCoherent p r

variable {s} {p : Principal} {r e : RunEntry} {id : RunId}

theorem row_id (h : s.row id = some e) : e.id = id := by simpa using List.find?_some h

theorem find?_loadRunIndex {orgId : Option Name} :
    ((s.loadRunIndex orgId).find? fun r => r.id = id) = some e ↔
      s.row id = some e ∧ s.OnPage orgId e := by
  have hPage := OrderedMap.find?_page (k := id) s.rowsNodup (s.asked orgId)
  unfold loadRunIndex OnPage
  cases hStore : s.store with
  | file =>
    have hAll := hPage (s.rows.length + 1)
    have hShort : (s.rows.filter (s.asked orgId)).length ≤ s.rows.length + 1 :=
      (List.length_filter_le _ _).trans (Nat.le_succ _)
    rw [List.take_of_length_le hShort] at hAll
    dsimp only
    rw [hAll, Option.filter_eq_some_iff, Bool.and_eq_true, decide_eq_true_iff]
    refine and_congr_right fun _ => and_congr_right fun _ => ?_
    refine iff_of_true ?_ fun h => ?_
    · exact Nat.lt_succ_of_le (List.countP_le_length.trans (List.takeWhile_sublist _).length_le)
    · cases h
  | postgres =>
    dsimp only
    rw [hPage, Option.filter_eq_some_iff, Bool.and_eq_true, decide_eq_true_iff]
    refine and_congr_right fun hRow => and_congr_right fun _ => ?_
    rw [row_id hRow]
    exact ⟨fun h _ => h, fun h => h rfl⟩

theorem visible_iff (p : Principal) (e : RunEntry) :
    visible p e = true ↔ e.ownerOf.isSome = true ∧ Names p e := by
  simp only [visible, Names, Bool.and_eq_true, Bool.or_eq_true, or_comm]

@[simp] theorem summary_ownerOf (rs : LiveRun) : (rs.summary id).ownerOf = rs.ownerId := by
  simp [LiveRun.summary, RunEntry.ownerOf]

@[simp] theorem summary_id (rs : LiveRun) : (rs.summary id).id = id := rfl

@[simp] theorem ownedBy_none (p : Principal) : ownedBy none p = false := rfl

theorem keyed_mergeIndex (persisted live : List RunEntry) :
    (mergeIndex persisted live).Keyed RunEntry.id := OrderedMap.keyed_empty.setAll.setAll

theorem nodup_loadRunIndex (orgId : Option Name) : ((s.loadRunIndex orgId).map RunEntry.id).Nodup := by
  refine s.rowsNodup.sublist (List.Sublist.map _ ?_)
  unfold loadRunIndex
  split
  · exact List.filter_sublist
  · exact (List.take_sublist _ _).trans List.filter_sublist

theorem find?_getActiveRuns : (s.getActiveRuns.find? fun r => r.id = id) =
    (s.activeRuns.get id).map fun rs => rs.summary id := by
  cases hGet : s.activeRuns.get id with
  | none =>
    refine List.find?_eq_none.mpr fun r hr hId => ?_
    obtain ⟨e, he, rfl⟩ := List.mem_map.mp hr
    have hSome := (OrderedMap.mem_entries_iff _ e.1 e.2).mp he
    rw [show e.1 = id from of_decide_eq_true hId, hGet] at hSome
    cases hSome
  | some rs =>
    cases hFind : s.getActiveRuns.find? fun r => r.id = id with
    | none =>
      have hMem : rs.summary id ∈ s.getActiveRuns :=
        List.mem_map.mpr ⟨(id, rs), (OrderedMap.mem_entries_iff _ id rs).mpr hGet, rfl⟩
      exact absurd (decide_eq_true rfl) (List.find?_eq_none.mp hFind _ hMem)
    | some r =>
      obtain ⟨e, he, rfl⟩ := List.mem_map.mp (List.mem_of_find?_eq_some hFind)
      have hSame := List.find?_some hFind
      have hId : e.1 = id := of_decide_eq_true hSame
      have hSome := (OrderedMap.mem_entries_iff _ e.1 e.2).mp he
      rw [hId, hGet] at hSome
      rw [hId, Option.some.inj hSome]
      rfl

theorem get_mergeIndex (orgId : Option Name) :
    (mergeIndex (s.loadRunIndex orgId) s.getActiveRuns).get id =
      ((s.activeRuns.get id).map fun rs => rs.summary id).or
        ((s.loadRunIndex orgId).find? fun r => r.id = id) := by
  have hIds : (s.getActiveRuns.map RunEntry.id).Nodup := by
    have hKeys : s.getActiveRuns.map RunEntry.id = s.activeRuns.keys := by
      rw [getActiveRuns, List.map_map]
      rfl
    rw [hKeys]
    exact OrderedMap.keys_nodup _
  rw [mergeIndex, OrderedMap.get_setAll_of_nodup hIds, find?_getActiveRuns,
    OrderedMap.get_setAll_of_nodup (nodup_loadRunIndex orgId), OrderedMap.get_empty, Option.or_none]

theorem scope_eq (hAuth : s.authEnabled = true) (hAdmin : isGlobalAdmin p = false) :
    s.scope (some p) = p.orgId := by
  simp [scope, hAuth, hAdmin]

theorem scope_admin (hAdmin : isGlobalAdmin p = true) : s.scope (some p) = none := by
  simp [scope, hAdmin]

theorem listed_iff (hAuth : s.authEnabled = true) : s.Listed p id ↔
    ∃ e, (mergeIndex (s.loadRunIndex (s.scope (some p))) s.getActiveRuns).get id = some e ∧
      (isGlobalAdmin p = true ∨ e.ownerOf.isSome = true ∧ Names p e) := by
  have hKeyed := keyed_mergeIndex (s.loadRunIndex (s.scope (some p))) s.getActiveRuns
  simp only [Listed, visibleRunIndex, hAuth, Bool.not_true, Bool.false_or]
  constructor
  · rintro ⟨e, he, rfl⟩
    split at he
    · rename_i hAdmin
      exact ⟨e, hKeyed.mem_values.mp he, .inl hAdmin⟩
    · obtain ⟨hMem, hVisible⟩ := List.mem_filter.mp he
      exact ⟨e, hKeyed.mem_values.mp hMem, .inr ((visible_iff p e).mp hVisible)⟩
  · rintro ⟨e, he, hWho⟩
    obtain rfl : e.id = id := hKeyed _ _ he
    refine ⟨e, ?_, rfl⟩
    have hMem := hKeyed.mem_values.mpr he
    split
    · exact hMem
    · rename_i hAdmin
      exact List.mem_filter.mpr ⟨hMem, (visible_iff p e).mpr (hWho.resolve_left hAdmin)⟩

theorem listed_live {rs : LiveRun} (hAuth : s.authEnabled = true)
    (hLive : s.activeRuns.get id = some rs) : s.Listed p id ↔
      isGlobalAdmin p = true ∨ rs.ownerId.isSome = true ∧ Names p (rs.summary id) := by
  rw [listed_iff hAuth, get_mergeIndex, hLive]
  simp

theorem listed_stored (hAuth : s.authEnabled = true) (hLive : s.activeRuns.get id = none) :
    s.Listed p id ↔ ∃ e, s.row id = some e ∧
      (isGlobalAdmin p = true ∧ s.OnPage none e ∨
        isGlobalAdmin p = false ∧ s.OnPage p.orgId e ∧ e.ownerOf.isSome = true ∧ Names p e) := by
  rw [listed_iff hAuth, get_mergeIndex, hLive, Option.map_none, Option.none_or]
  refine exists_congr fun e => ?_
  rw [find?_loadRunIndex, and_assoc]
  refine and_congr_right fun _ => ?_
  cases hAdmin : isGlobalAdmin p with
  | true => simp [scope_admin hAdmin]
  | false => simp [scope_eq hAuth hAdmin]

/-- The guard lets a principal pass that the run in memory names, or, if that has no owner, the
row on the page. -/
theorem admitted_iff (hAuth : s.authEnabled = true) : s.Admitted p id ↔
    isGlobalAdmin p = true ∨ (∃ rs, s.getRun id = some rs ∧ Names p (rs.summary id)) ∨
      (s.getRun id).bind LiveRun.ownerId = none ∧
        ∃ e, s.row id = some e ∧ s.OnPage none e ∧ Names p e := by
  have hFound (e : RunEntry) : (s.row id = some e ∧ s.OnPage none e ∧ Names p e) ↔
      ((s.loadRunIndex none).find? fun r => r.id = id) = some e ∧ Names p e := by
    rw [find?_loadRunIndex, and_assoc]
  simp only [hFound, Admitted, guardRunRead, hAuth, if_true, ownedByOther, ownedByOtherWithIndex]
  cases hAdmin : isGlobalAdmin p with
  | true => simp
  | false =>
    cases hRun : s.getRun id with
    | none =>
      cases hRow : (s.loadRunIndex none).find? fun r => r.id = id with
      | none => simp
      | some e => cases hOrg : sameOrg e.orgId p <;> simp [hOrg, Names]
    | some rs =>
      cases hOrg : sameOrg rs.orgId p with
      | true => simp [hOrg, Names, LiveRun.summary]
      | false =>
        cases hOwner : rs.ownerId with
        | some owner => simp [hOrg, hOwner, Names, LiveRun.summary, RunEntry.ownerOf]
        | none =>
          have hNot : ¬ Names p (rs.summary id) := by
            simp [Names, hOwner, LiveRun.summary, hOrg, RunEntry.ownerOf]
          cases hRow : (s.loadRunIndex none).find? fun r => r.id = id with
          | none => simp [hOrg, hOwner, hNot]
          | some e =>
            cases hEntry : sameOrg e.orgId p with
            | true =>
              have hNames : Names p e := .inl hEntry
              simp [hOrg, hEntry, hOwner, hNames]
            | false =>
              have hNames : Names p e ↔ ownedBy e.ownerOf p = true := by simp [Names, hEntry]
              simp [hOrg, hEntry, hOwner, hNot, hNames]

theorem canAccessRun_iff : canAccessRun p r = true ↔ isGlobalAdmin p = true ∨ Owns p r := by
  rw [canAccessRun, Bool.or_eq_true, Bool.or_eq_true, or_assoc]
  rfl

theorem Names.owns (h : Names p r) : Owns p r := by
  rcases h with hOrg | hOwner
  · have hFirst : (r.orgId <|> r.ownership.bind Ownership.orgId) = r.orgId := by
      cases hId : r.orgId with
      | none => simp [sameOrg, hId] at hOrg
      | some org => rfl
    refine .inl ?_
    rw [hFirst]
    exact hOrg
  · have hFirst : (r.ownerOf <|> r.ownership.bind Ownership.ownerId) = r.ownerOf := by
      cases hId : r.ownerOf with
      | none => simp [hId] at hOwner
      | some owner => rfl
    refine .inr ?_
    rw [hFirst]
    exact hOwner

theorem owns_summary {rs : LiveRun} : Owns p (rs.summary id) ↔ Names p (rs.summary id) := by
  simp [Owns, Names, LiveRun.summary, RunEntry.ownerOf]

theorem agree_iff : s.Agree p r ↔ (s.Listed p r.id ↔ s.Admitted p r.id) ∧
    (s.Admitted p r.id ↔ canAccessRun p r = true) ∧ (OtherOrg p r → ¬ s.Admitted p r.id) :=
  ⟨fun h => ⟨h.listed, h.admitted, h.tenant⟩, fun h => ⟨h.1, h.2.1, h.2.2⟩⟩

theorem agree_live {rs : LiveRun} (hAuth : s.authEnabled = true)
    (hLive : s.activeRuns.get id = some rs) :
    s.Agree p (rs.summary id) ↔ s.LiveCoherent p rs (rs.summary id) := by
  have hRun : s.getRun id = some rs := by rw [getRun, hLive]; rfl
  rw [agree_iff, summary_id, listed_live hAuth hLive, admitted_iff hAuth, hRun, canAccessRun_iff,
    owns_summary, LiveCoherent, summary_id]
  by_cases hAdmin : isGlobalAdmin p = true <;> by_cases hNames : Names p (rs.summary id) <;>
    cases hOwner : rs.ownerId <;> simp [hAdmin, hNames, hOwner]
  exact fun h _ => h

theorem agree_retired {rs : LiveRun} (hAuth : s.authEnabled = true)
    (hLive : s.activeRuns.get id = none) (hRetired : s.terminalRuns.get id = some rs) :
    s.Agree p (rs.summary id) ↔ s.RetiredCoherent p rs (rs.summary id) := by
  have hRun : s.getRun id = some rs := by rw [getRun, hLive, hRetired]; rfl
  rw [agree_iff, summary_id, listed_stored hAuth hLive, admitted_iff hAuth, hRun,
    canAccessRun_iff, owns_summary, RetiredCoherent, summary_id]
  cases hRow : s.row id with
  | none =>
    by_cases hAdmin : isGlobalAdmin p = true <;> by_cases hNames : Names p (rs.summary id) <;>
      simp [hAdmin, hNames]
  | some e =>
    have hOwned : e.ownerOf.isSome = true ↔ e.ownerOf ≠ none := Option.isSome_iff_ne_none
    by_cases hAdmin : isGlobalAdmin p = true <;> by_cases hNames : Names p (rs.summary id) <;>
      cases hOwner : rs.ownerId <;> simp [hAdmin, hNames, hOwner] <;> tauto

theorem agree_stored (hAuth : s.authEnabled = true) (hLive : s.activeRuns.get r.id = none)
    (hRetired : s.terminalRuns.get r.id = none) (hRow : s.row r.id = some r) :
    s.Agree p r ↔ s.StoredCoherent p r := by
  have hRun : s.getRun r.id = none := by rw [getRun, hLive, hRetired]; rfl
  rw [agree_iff, listed_stored hAuth hLive, admitted_iff hAuth, hRun, hRow, canAccessRun_iff,
    StoredCoherent]
  have hOwns : Names p r → Owns p r := Names.owns
  by_cases hAdmin : isGlobalAdmin p = true <;> by_cases hNames : Names p r <;>
    simp [hAdmin, hNames, hOwns] <;> tauto

theorem record_id (h : s.record id = some r) : r.id = id := by
  unfold record at h
  split at h
  · cases h
    rfl
  · exact row_id h

/-- Whatever the index and the runs in memory: the listing, the read guard and `canAccessRun`
agree on a run, and no org reads another's, exactly when its fields and its place are coherent. -/
theorem agree_iff_coherent (s : Server) (p : Principal) (id : RunId) (r : RunEntry)
    (hAuth : s.authEnabled = true) (hRun : s.record id = some r) :
    s.Agree p r ↔ s.Coherent p r := by
  obtain rfl := record_id hRun
  unfold Coherent
  cases hLive : s.activeRuns.get r.id with
  | some rs =>
    have hSame : rs.summary r.id = r := by
      rw [record, getRun, hLive] at hRun
      exact Option.some.inj hRun
    have hAgree := agree_live (p := p) hAuth hLive
    rwa [hSame] at hAgree
  | none =>
    cases hRetired : s.terminalRuns.get r.id with
    | some rs =>
      have hSame : rs.summary r.id = r := by
        rw [record, getRun, hLive, hRetired] at hRun
        exact Option.some.inj hRun
      have hAgree := agree_retired (p := p) hAuth hLive hRetired
      rwa [hSame] at hAgree
    | none =>
      rw [record, getRun, hLive, hRetired] at hRun
      exact agree_stored hAuth hLive hRetired hRun

def member : Principal := ⟨Name.of "u1", .operator, Name.of "orgA", .session⟩

theorem runName_nonempty : "run" ≠ "" := by decide

def orgRun (ownerId : String) : RunEntry :=
  ⟨⟨"run", runName_nonempty⟩, Name.of ownerId, none, Name.of "orgA", none⟩

def withRow (r : RunEntry) : Server :=
  ⟨true, .file, [r], List.nodup_singleton _, .empty, .empty⟩

theorem agree_colleague :
    (withRow (orgRun "u2")).Agree member (orgRun "u2") := by
  refine (agree_iff_coherent _ member ⟨"run", runName_nonempty⟩ _ rfl (by decide)).mpr ?_
  change (withRow (orgRun "u2")).StoredCoherent member (orgRun "u2")
  unfold StoredCoherent
  rw [if_neg (by decide)]
  intro _
  refine ⟨?_, rfl, .inl (by decide), ⟨rfl, fun h => ?_⟩, ⟨by decide, fun h => ?_⟩⟩
  · rintro ⟨-, -, hOther⟩
    exact hOther (by decide)
  · cases h
  · cases h

/-- The guard and `canAccessRun` let a member read a run of the org that has no owner; the listing
leaves it out. -/
theorem ownerless_unlisted : ¬ ∀ (s : Server) (p : Principal) (id : RunId) (r : RunEntry),
    s.authEnabled = true → s.record id = some r → s.Agree p r := by
  intro h
  have hAgree := h (withRow (orgRun "")) member ⟨"run", runName_nonempty⟩ (orgRun "") rfl
    (by decide)
  have hAdmitted : (withRow (orgRun "")).Admitted member (orgRun "").id := by
    unfold Admitted
    decide
  obtain ⟨e, he, -⟩ := hAgree.listed.mpr hAdmitted
  have hNone : (withRow (orgRun "")).visibleRunIndex (some member) = [] := by decide
  rw [hNone] at he
  cases he

end Server

end OrchestraAI.Access
