import OrchestraAI.Access.RunAccess
import OrchestraAI.Library.Slot
import OrchestraAI.Library.TextUnits

/-! # Who may see a project

The file-backed `listProjects`, `getProject` and `updateProject` of `tenant-store.js`, and
`ownsProject` and `requireProjectAccess`. The list compares identifiers where the rule also asks for
them to be there.
-/

namespace OrchestraAI.Access

abbrev Field := Slot Text

@[match_pattern] abbrev Field.text (t : Text) : Field := .value t

def Field.truthy : Field → Bool
  | .text t => t ≠ []
  | _ => false

inductive ProjectPolicy
  | qualityFirst
  | balanced
  | maximumSavings
  | lowestLatency
  | custom
  deriving DecidableEq

inductive PrivacyMode
  | metadataOnly
  | standard
  | zeroRetention
  deriving DecidableEq

structure Project where
  id : Text
  orgId : Field
  ownerId : Field
  name : Text
  referenceModelId : Option Text
  policy : ProjectPolicy
  privacyMode : PrivacyMode
  createdAt : Text
  updatedAt : Option Text
  deriving DecidableEq

structure ProjectPrincipal where
  id : Field
  role : Role
  orgId : Field
  source : Source

/-- The fields of a patch; a policy or privacy mode that is no such is `none`. -/
structure ProjectPatch where
  name : Field
  referenceModelId : Field
  policy : Option ProjectPolicy
  privacyMode : Option PrivacyMode

def ProjectPrincipal.globalAdmin (p : ProjectPrincipal) : Bool := p.role = .admin && p.source ≠ .session

/-- The test of `listProjects`. -/
def listed (principal : ProjectPrincipal) (p : Project) : Bool :=
  principal.globalAdmin || p.orgId = principal.orgId || p.ownerId = principal.id

def listProjects (projects : List Project) : Option ProjectPrincipal → List Project
  | none => []
  | some principal => projects.filter (listed principal)

def getProject (projects : List Project) (id : Text) (principal : Option ProjectPrincipal) :
    Option Project :=
  (listProjects projects principal).find? (·.id = id)

def bothAre (a b : Field) : Bool := a.truthy && b.truthy && a = b

def ownsProject : Option ProjectPrincipal → Option Project → Bool
  | some principal, some project =>
    if principal.globalAdmin then true
    else if bothAre project.orgId principal.orgId then true
    else if bothAre project.ownerId principal.id then true
    else false
  | _, _ => false

inductive AccessError
  | unauthenticated
  | forbidden

def requireProjectAccess (principal : Option ProjectPrincipal) (project : Option Project) :
    Except AccessError Project :=
  match principal, project with
  | none, _ => .error .unauthenticated
  | some _, none => .error .forbidden
  | some principal, some project =>
    if ownsProject (some principal) (some project) then .ok project else .error .forbidden

def ProjectPatch.apply (patch : ProjectPatch) (now : Text) (p : Project) : Project :=
  { p with
    name := match patch.name with
      | .undefined => p.name
      | .null => Text.sliceUnits 100 p.name
      | .text t => Text.sliceUnits 100 (if t = [] then p.name else t)
    referenceModelId := match patch.referenceModelId with
      | .undefined => p.referenceModelId
      | .null => none
      | .text t => if t = [] then none else some (Text.sliceUnits 200 t)
    policy := patch.policy.getD p.policy
    privacyMode := patch.privacyMode.getD p.privacyMode
    updatedAt := some now }

/-- The patched project with the projects after it, or `null` and nothing changed. -/
def updateProject (projects : List Project) (id : Text) (principal : Option ProjectPrincipal)
    (patch : ProjectPatch) (now : Text) : Option Project × List Project :=
  match projects.findIdx? (·.id = id) with
  | none => (none, projects)
  | some i =>
    if ownsProject principal projects[i]? then
      (projects[i]?.map (patch.apply now), projects.modify i (patch.apply now))
    else (none, projects)

def Confined (projects : List Project) (principal : Option ProjectPrincipal) (p : Project) : Prop :=
  ∀ user, principal = some user → user.source = .session → (∃ org, p.orgId = .text org) →
    p.orgId ≠ user.orgId → p ∈ listProjects projects principal →
      p.ownerId.truthy = true ∧ p.ownerId = user.id

/-- Whatever is asked about the project, the rule is `ownsProject`. -/
structure OneRule (projects : List Project) (principal : Option ProjectPrincipal) (p : Project) : Prop where
  list : p ∈ listProjects projects principal ↔ ownsProject principal (some p) = true
  get : getProject projects p.id principal = some p ↔ ownsProject principal (some p) = true
  update : ∀ patch now, (updateProject projects p.id principal patch now).1 = some (patch.apply now p) ↔
    ownsProject principal (some p) = true
  access : requireProjectAccess principal (some p) = .ok p ↔ ownsProject principal (some p) = true
  confined : Confined projects principal p

def bothMiss (a b : Field) : Bool := !a.truthy && a = b

/-- The principal owns the project, or no identifier is missing of both in the same way. -/
def Told (principal : Option ProjectPrincipal) (p : Project) : Prop :=
  ∀ user, principal = some user → ownsProject (some user) (some p) = true ∨
    bothMiss p.orgId user.orgId = false ∧ bothMiss p.ownerId user.id = false

variable {projects : List Project} {principal : Option ProjectPrincipal} {user : ProjectPrincipal}
  {p : Project} {a b : Field}

theorem eq_iff_both : a = b ↔ bothAre a b = true ∨ bothMiss a b = true := by
  cases hTruthy : a.truthy with
  | true =>
    simp only [bothAre, bothMiss, hTruthy, Bool.true_and, Bool.not_true, Bool.false_and, Bool.false_eq_true,
      or_false, Bool.and_eq_true, decide_eq_true_iff]
    exact ⟨fun h => ⟨h ▸ hTruthy, h⟩, And.right⟩
  | false => simp [bothAre, bothMiss, hTruthy]

theorem ownsProject_iff : ownsProject (some user) (some p) = true ↔
    user.globalAdmin = true ∨ bothAre p.orgId user.orgId = true ∨ bothAre p.ownerId user.id = true := by
  rw [ownsProject]
  split
  · exact iff_of_true rfl (.inl ‹_›)
  · split
    · exact iff_of_true rfl (.inr (.inl ‹_›))
    · split
      · exact iff_of_true rfl (.inr (.inr ‹_›))
      · simp_all

theorem listed_iff : listed user p = true ↔ ownsProject (some user) (some p) = true ∨
    bothMiss p.orgId user.orgId = true ∨ bothMiss p.ownerId user.id = true := by
  rw [listed, Bool.or_eq_true, Bool.or_eq_true, decide_eq_true_iff, decide_eq_true_iff, eq_iff_both,
    eq_iff_both, ownsProject_iff]
  tauto

theorem mem_listProjects (hp : p ∈ projects) :
    p ∈ listProjects projects principal ↔ ∃ user, principal = some user ∧ listed user p = true := by
  cases principal with
  | none => simp [listProjects]
  | some user => simp [listProjects, List.mem_filter, hp]

/-- The project that an id names is found in a list of some projects if it is one of them. -/
theorem find_filter_eq_iff {q : Project → Bool} (hFirst : projects.find? (·.id = p.id) = some p) :
    (projects.filter q).find? (·.id = p.id) = some p ↔ q p = true := by
  constructor
  · intro h
    exact (List.mem_filter.mp (List.mem_of_find?_eq_some h)).2
  · intro hq
    induction projects with
    | nil => cases hFirst
    | cons r projects ih =>
      rw [List.find?_cons] at hFirst
      cases hId : decide (r.id = p.id) with
      | true =>
        rw [hId] at hFirst
        obtain rfl := Option.some.inj hFirst
        rw [List.filter_cons_of_pos hq, List.find?_cons, hId]
      | false =>
        rw [hId] at hFirst
        rw [List.filter_cons]
        split
        · rw [List.find?_cons, hId]
          exact ih hFirst
        · exact ih hFirst

theorem getProject_eq_iff (hFirst : projects.find? (·.id = p.id) = some p) :
    getProject projects p.id principal = some p ↔ p ∈ listProjects projects principal := by
  have hp := List.mem_of_find?_eq_some hFirst
  rw [mem_listProjects hp, getProject]
  cases principal with
  | none => simp [listProjects]
  | some user =>
    rw [listProjects, find_filter_eq_iff hFirst]
    exact ⟨fun h => ⟨user, rfl, h⟩, fun ⟨_, hUser, h⟩ => Option.some.inj hUser ▸ h⟩

theorem updateProject_eq_iff (hFirst : projects.find? (·.id = p.id) = some p) (patch : ProjectPatch)
    (now : Text) :
    (updateProject projects p.id principal patch now).1 = some (patch.apply now p) ↔
      ownsProject principal (some p) = true := by
  rw [List.find?_eq_bind_findIdx?_getElem?] at hFirst
  obtain ⟨i, hIdx, hAt⟩ := Option.bind_eq_some_iff.mp hFirst
  rw [updateProject, hIdx]
  dsimp only
  rw [hAt]
  split
  · exact iff_of_true rfl ‹_›
  · rename_i hNot
    refine iff_of_false (fun h => ?_) hNot
    cases h

theorem requireProjectAccess_eq_iff :
    requireProjectAccess principal (some p) = .ok p ↔ ownsProject principal (some p) = true := by
  cases principal with
  | none => simp [requireProjectAccess, ownsProject]
  | some user =>
    rw [requireProjectAccess]
    split
    · exact iff_of_true rfl ‹_›
    · rename_i h
      exact iff_of_false (fun hOk => by cases hOk) h

theorem oneRule_iff_list (hFirst : projects.find? (·.id = p.id) = some p) :
    OneRule projects principal p ↔
      (p ∈ listProjects projects principal ↔ ownsProject principal (some p) = true) ∧
        Confined projects principal p :=
  ⟨fun h => ⟨h.list, h.confined⟩, fun h =>
    ⟨h.1, (getProject_eq_iff hFirst).trans h.1, updateProject_eq_iff hFirst,
      requireProjectAccess_eq_iff, h.2⟩⟩

theorem confined_of_list (h : p ∈ listProjects projects principal → ownsProject principal (some p) = true) :
    Confined projects principal p := by
  rintro user rfl hSession _ hOther hListed
  obtain hAdmin | hOrg | hOwner := ownsProject_iff.mp (h hListed)
  · rw [ProjectPrincipal.globalAdmin, Bool.and_eq_true] at hAdmin
    exact absurd hSession (of_decide_eq_true hAdmin.2)
  · exact absurd (eq_iff_both.mpr (.inl hOrg)) hOther
  · simp only [bothAre, Bool.and_eq_true, decide_eq_true_iff] at hOwner
    exact ⟨hOwner.1.1, hOwner.2⟩

/-- The project that its id names has one rule for a principal if and only if the principal owns it or
no identifier is missing of both. -/
theorem oneRule_iff (principal : Option ProjectPrincipal)
    (hFirst : projects.find? (·.id = p.id) = some p) :
    OneRule projects principal p ↔ Told principal p := by
  have hp := List.mem_of_find?_eq_some hFirst
  rw [oneRule_iff_list hFirst, and_iff_left_of_imp fun h => confined_of_list h.mp, mem_listProjects hp]
  cases principal with
  | none => simp [ownsProject, Told]
  | some user =>
    have hUser : (∃ user', some user = some user' ∧ listed user' p = true) ↔ listed user p = true :=
      ⟨fun ⟨_, hUser, h⟩ => Option.some.inj hUser ▸ h, fun h => ⟨user, rfl, h⟩⟩
    have hTold : Told (some user) p ↔ ownsProject (some user) (some p) = true ∨
        bothMiss p.orgId user.orgId = false ∧ bothMiss p.ownerId user.id = false :=
      ⟨fun h => h user rfl, fun h _ hUser => Option.some.inj hUser ▸ h⟩
    rw [hUser, hTold, listed_iff, ← Bool.not_eq_true, ← Bool.not_eq_true]
    tauto

def viewer : ProjectPrincipal := ⟨.text "viewer".toList, .viewer, .undefined, .env⟩

def operatorProject : Project :=
  ⟨"prj-1".toList, .undefined, .text "operator".toList, "Untitled project".toList, none, .balanced,
    .standard, "t0".toList, none⟩

def memberProject : Project := { operatorProject with orgId := .text "org-1".toList }

theorem oneRule_member : OneRule [memberProject] (some viewer) memberProject := by
  refine (oneRule_iff (some viewer) rfl).mpr ?_
  rintro _ ⟨⟩
  exact .inr ⟨rfl, rfl⟩

/-- The viewer sees what the operator has made, and may not change it. -/
theorem operator_project_seen : operatorProject ∈ listProjects [operatorProject] (some viewer) ∧
    ownsProject (some viewer) (some operatorProject) = false ∧
    ¬ OneRule [operatorProject] (some viewer) operatorProject := by
  have hListed : operatorProject ∈ listProjects [operatorProject] (some viewer) := by decide +kernel
  have hNot : ownsProject (some viewer) (some operatorProject) = false := by decide +kernel
  exact ⟨hListed, hNot, fun h => Bool.noConfusion (hNot.symm.trans (h.list.mp hListed))⟩

end OrchestraAI.Access
