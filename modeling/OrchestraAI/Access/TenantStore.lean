import OrchestraAI.Access.ProjectAccess
import Mathlib.Data.List.Induction

/-! # Accounts, sessions and projects on disk

The file-backed `TenantStore` of `tenant-store.js`. Every operation changes the lists in memory and then
replaces a file by a helper that says nothing of a write that has failed.
-/

namespace OrchestraAI.Access

open Text (isSpace trim sliceUnits codeUnitCount)

structure User where
  id : Text
  email : Text
  name : Text
  passwordHash : Text
  passwordSalt : Text
  orgId : Text
  role : Role
  createdAt : Text
  deriving DecidableEq

structure PublicUser where
  id : Text
  email : Text
  name : Text
  orgId : Text
  role : Role
  createdAt : Text
  deriving DecidableEq

structure Session where
  hash : Text
  userId : Text
  createdAt : Text
  /-- In milliseconds. -/
  expiresAt : ℤ
  deriving DecidableEq

structure TenantFiles where
  users : Option (List User)
  sessions : Option (List Session)
  projects : Option (List Project)

structure TenantStore where
  users : List User
  sessions : List Session
  projects : List Project
  files : TenantFiles

/-- Lower case of any text, `hash` and the password hash. -/
structure Crypto where
  lower : Text → Text
  hash : Text → Text
  scrypt : Text → Text → Text

structure TenantError where
  message : Text
  code : Text
  deriving DecidableEq

def TenantError.of (message code : String) : TenantError := ⟨message.toList, code.toList⟩

def sessionTtlMs : ℤ := 1000 * 60 * 60 * 24 * 30

def User.publicUser (u : User) : PublicUser := ⟨u.id, u.email, u.name, u.orgId, u.role, u.createdAt⟩

/-- `EMAIL_RE`. -/
def isEmail (t : Text) : Bool :=
  t.all (!isSpace ·) &&
    match t.splitOn '@' with
    | [name, host] => name ≠ [] && '.' ∈ (host.drop 1).dropLast
    | _ => false

structure Draws where
  userId : Text
  orgId : Text
  salt : Text
  projectId : Text
  token : Text
  time : Text
  nowMs : ℤ

structure ProjectRequest where
  name : Text
  referenceModelId : Text
  policy : Option ProjectPolicy
  privacyMode : Option PrivacyMode

structure Writes where
  users : Bool
  sessions : Bool
  projects : Bool
  deriving DecidableEq

namespace TenantStore

def load (files : TenantFiles) : TenantStore :=
  ⟨files.users.getD [], files.sessions.getD [], files.projects.getD [], files⟩

def persistUsers (w : Writes) (s : TenantStore) : TenantStore :=
  if w.users then { s with files := { s.files with users := some s.users } } else s

def persistSessions (w : Writes) (s : TenantStore) : TenantStore :=
  if w.sessions then { s with files := { s.files with sessions := some s.sessions } } else s

def persistProjects (w : Writes) (s : TenantStore) : TenantStore :=
  if w.projects then { s with files := { s.files with projects := some s.projects } } else s

def normalized (c : Crypto) (email : Text) : Text := c.lower (trim email)

def findUser (c : Crypto) (s : TenantStore) (email : Text) : Option User :=
  s.users.find? (·.email = normalized c email)

def createProject (w : Writes) (s : TenantStore) (orgId ownerId : Field) (req : ProjectRequest) (d : Draws) :
    Project × TenantStore :=
  let project : Project :=
    { id := d.projectId
      orgId
      ownerId
      name := sliceUnits 100 (if req.name = [] then "Untitled project".toList else req.name)
      referenceModelId := if req.referenceModelId = [] then none else some (sliceUnits 200 req.referenceModelId)
      policy := req.policy.getD .balanced
      privacyMode := req.privacyMode.getD .standard
      createdAt := d.time
      updatedAt := none }
  (project, persistProjects w { s with projects := s.projects ++ [project] })

/-- A password that is no string is `none`. -/
def signup (c : Crypto) (w : Writes) (s : TenantStore) (email : Text) (password : Option Text) (name : Text)
    (d : Draws) : Except TenantError (PublicUser × Project) × TenantStore :=
  let address := normalized c email
  if isEmail address = false then (.error (.of "valid email required" "bad_request"), s)
  else match password.filter fun p => 12 ≤ codeUnitCount p && codeUnitCount p ≤ 256 with
    | none => (.error (.of "password must be 12 to 256 characters" "bad_request"), s)
    | some password =>
      if s.users.any (·.email = address) then (.error (.of "email already registered" "conflict"), s)
      else
        let user : User :=
          { id := d.userId
            email := address
            name := sliceUnits 80 (if name = [] then address.takeWhile (· ≠ '@') else name)
            passwordHash := c.scrypt password d.salt
            passwordSalt := d.salt
            orgId := d.orgId
            role := .admin
            createdAt := d.time }
        let made := createProject w (persistUsers w { s with users := s.users ++ [user] }) (.text user.orgId)
          (.text user.id) ⟨"My first project".toList, [], none, none⟩ d
        (.ok (user.publicUser, made.1), made.2)

def login (c : Crypto) (w : Writes) (s : TenantStore) (email : Text) (password : Option Text) (d : Draws) :
    Except TenantError (Text × PublicUser) × TenantStore :=
  match s.findUser c email, password with
  | some user, some password =>
    if c.scrypt password user.passwordSalt = user.passwordHash then
      let session : Session := ⟨c.hash d.token, user.id, d.time, d.nowMs + sessionTtlMs⟩
      (.ok (d.token, user.publicUser), persistSessions w { s with sessions := s.sessions ++ [session] })
    else (.error (.of "invalid email or password" "unauthenticated"), s)
  | _, _ => (.error (.of "invalid email or password" "unauthenticated"), s)

def userForSession (c : Crypto) (w : Writes) (s : TenantStore) (token : Text) (nowMs : ℤ) :
    Option PublicUser × TenantStore :=
  if token = [] then (none, s)
  else
    let live := s.sessions.filter fun session => nowMs < session.expiresAt
    let pruned := { s with sessions := live }
    let user := (live.find? fun session => session.hash = c.hash token && nowMs < session.expiresAt).bind
      fun session => (s.users.find? (·.id = session.userId)).map User.publicUser
    (user, if live.length ≠ s.sessions.length then persistSessions w pruned else pruned)

def revoke (c : Crypto) (w : Writes) (s : TenantStore) (token : Text) : TenantStore :=
  let others := s.sessions.filter fun session => session.hash ≠ c.hash token
  if others.length ≠ s.sessions.length then persistSessions w { s with sessions := others }
  else { s with sessions := others }

def update (w : Writes) (s : TenantStore) (id : Text) (principal : Option ProjectPrincipal)
    (patch : ProjectPatch) (now : Text) : Option Project × TenantStore :=
  match updateProject s.projects id principal patch now with
  | (none, _) => (none, s)
  | (some project, projects) => (some project, persistProjects w { s with projects })

inductive Call
  | signup (email : Text) (password : Option Text) (name : Text)
  | login (email : Text) (password : Option Text)
  | userForSession (token : Text)
  | revoke (token : Text)
  | createProject (orgId ownerId : Field) (req : ProjectRequest)
  | updateProject (id : Text) (principal : Option ProjectPrincipal) (patch : ProjectPatch)

inductive Answer
  | account (user : PublicUser) (project : Project)
  | token (token : Text) (user : PublicUser)
  | user (user : Option PublicUser)
  | done
  | project (project : Option Project)

/-- A call with what is drawn and what can be written while it runs. -/
structure Event where
  call : Call
  draws : Draws
  writes : Writes

def step (c : Crypto) (s : TenantStore) (e : Event) : Except TenantError Answer × TenantStore :=
  match e.call with
  | .signup email password name =>
    let r := s.signup c e.writes email password name e.draws
    (r.1.map fun made => .account made.1 made.2, r.2)
  | .login email password =>
    let r := s.login c e.writes email password e.draws
    (r.1.map fun made => .token made.1 made.2, r.2)
  | .userForSession token =>
    let r := s.userForSession c e.writes token e.draws.nowMs
    (.ok (.user r.1), r.2)
  | .revoke token => (.ok .done, s.revoke c e.writes token)
  | .createProject orgId ownerId req =>
    let r := s.createProject e.writes orgId ownerId req e.draws
    (.ok (.project r.1), r.2)
  | .updateProject id principal patch =>
    let r := s.update e.writes id principal patch e.draws.time
    (.ok (.project r.1), r.2)

def run (c : Crypto) (s : TenantStore) (events : List Event) : TenantStore :=
  events.foldl (fun s e => (step c s e).2) s

/-- The account can be made: it has an address, a password and no other account has the address. -/
def CanRegister (c : Crypto) (s : TenantStore) (email : Text) (password : Option Text) : Prop :=
  isEmail (normalized c email) = true ∧ s.users.any (·.email = normalized c email) = false ∧
    ∃ p, password = some p ∧ 12 ≤ codeUnitCount p ∧ codeUnitCount p ≤ 256

def CanLogin (c : Crypto) (s : TenantStore) (email : Text) (password : Option Text) : Prop :=
  ∃ user p, s.findUser c email = some user ∧ password = some p ∧
    c.scrypt p user.passwordSalt = user.passwordHash

def Written (c : Crypto) (s : TenantStore) (e : Event) : Prop :=
  match e.call with
  | .signup email password _ =>
    CanRegister c s email password → e.writes.users = true ∧ e.writes.projects = true
  | .login email password => CanLogin c s email password → e.writes.sessions = true
  | .userForSession token =>
    token ≠ [] → (∃ session ∈ s.sessions, session.expiresAt ≤ e.draws.nowMs) → e.writes.sessions = true
  | .revoke token =>
    (∃ session ∈ s.sessions, session.hash = c.hash token) → e.writes.sessions = true
  | .createProject .. => e.writes.projects = true
  | .updateProject id principal _ =>
    ownsProject principal (s.projects.find? (·.id = id)) = true → e.writes.projects = true

theorem written_of_writable {c : Crypto} {s : TenantStore} {e : Event} (h : e.writes = ⟨true, true, true⟩) :
    Written c s e := by
  obtain ⟨call, draws, writes⟩ := e
  obtain rfl : writes = _ := h
  cases call with
  | signup => exact fun _ => ⟨rfl, rfl⟩
  | userForSession => exact fun _ _ => rfl
  | createProject => rfl
  | login | revoke | updateProject => exact fun _ => rfl

structure SameAnswers (c : Crypto) (a b : TenantStore) : Prop where
  account : ∀ email, a.findUser c email = b.findUser c email
  login : ∀ w email password d, (a.login c w email password d).1 = (b.login c w email password d).1
  session : ∀ w token nowMs, (a.userForSession c w token nowMs).1 = (b.userForSession c w token nowMs).1
  listed : ∀ principal, listProjects a.projects principal = listProjects b.projects principal
  found : ∀ id principal, getProject a.projects id principal = getProject b.projects id principal

/-- What a call promises: when it returns, what is on disk answers as the memory does, and when it throws,
nothing has changed. -/
structure Kept (c : Crypto) (s : TenantStore) (e : Event) : Prop where
  durable : ∀ answer, (step c s e).1 = .ok answer →
    SameAnswers c (step c s e).2 (load (step c s e).2.files)
  unchanged : ∀ error, (step c s e).1 = .error error → (step c s e).2 = s

def Synced (s : TenantStore) : Prop := load s.files = s

variable {c : Crypto} {s : TenantStore} {w : Writes} {e : Event}

theorem synced_load (files : TenantFiles) : Synced (load files) := rfl

theorem Synced.persistUsers (hs : Synced s) (hw : w.users = true) (users : List User) :
    Synced (persistUsers w { s with users }) := by
  have hSessions : s.files.sessions.getD [] = s.sessions := congrArg TenantStore.sessions hs
  have hProjects : s.files.projects.getD [] = s.projects := congrArg TenantStore.projects hs
  rw [TenantStore.persistUsers, if_pos hw, Synced, load]
  dsimp only
  rw [hSessions, hProjects, Option.getD_some]

theorem Synced.persistSessions (hs : Synced s) (hw : w.sessions = true) (sessions : List Session) :
    Synced (persistSessions w { s with sessions }) := by
  have hUsers : s.files.users.getD [] = s.users := congrArg TenantStore.users hs
  have hProjects : s.files.projects.getD [] = s.projects := congrArg TenantStore.projects hs
  rw [TenantStore.persistSessions, if_pos hw, Synced, load]
  dsimp only
  rw [hUsers, hProjects, Option.getD_some]

theorem Synced.persistProjects (hs : Synced s) (hw : w.projects = true) (projects : List Project) :
    Synced (persistProjects w { s with projects }) := by
  have hUsers : s.files.users.getD [] = s.users := congrArg TenantStore.users hs
  have hSessions : s.files.sessions.getD [] = s.sessions := congrArg TenantStore.sessions hs
  rw [TenantStore.persistProjects, if_pos hw, Synced, load]
  dsimp only
  rw [hUsers, hSessions, Option.getD_some]

theorem Synced.filter (hs : Synced s) (p : Session → Bool)
    (hw : (∃ session ∈ s.sessions, p session = false) → w.sessions = true) :
    Synced (if (s.sessions.filter p).length ≠ s.sessions.length then
      TenantStore.persistSessions w { s with sessions := s.sessions.filter p }
      else { s with sessions := s.sessions.filter p }) := by
  split
  · rename_i hLess
    refine hs.persistSessions (hw ?_) _
    by_contra hNone
    simp only [not_exists, not_and, Bool.not_eq_false] at hNone
    exact hLess (congrArg List.length (List.filter_eq_self.mpr hNone))
  · rename_i hSame
    have hAll : s.sessions.filter p = s.sessions :=
      List.filter_sublist.eq_of_length (of_not_not hSame)
    rw [hAll]
    exact hs

theorem Synced.signup (hs : Synced s) {email : Text} {password : Option Text}
    (hw : CanRegister c s email password → w.users = true ∧ w.projects = true) (name : Text) (d : Draws) :
    Synced (s.signup c w email password name d).2 := by
  rw [TenantStore.signup]
  dsimp only
  split
  · exact hs
  · rename_i hEmail
    split
    · exact hs
    · rename_i p hPassword
      split
      · exact hs
      · rename_i hFree
        obtain ⟨hSome, hLength⟩ := Option.filter_eq_some_iff.mp hPassword
        have hLength := Bool.and_eq_true_iff.mp hLength
        obtain ⟨hUsers, hProjects⟩ := hw ⟨Bool.eq_true_of_not_eq_false hEmail,
          Bool.eq_false_of_not_eq_true hFree, p, hSome, of_decide_eq_true hLength.1,
          of_decide_eq_true hLength.2⟩
        exact (hs.persistUsers hUsers _).persistProjects hProjects _

theorem Synced.login (hs : Synced s) {email : Text} {password : Option Text}
    (hw : CanLogin c s email password → w.sessions = true) (d : Draws) :
    Synced (s.login c w email password d).2 := by
  rw [TenantStore.login.eq_def]
  split
  · rename_i user p hUser
    split
    · rename_i hHash
      exact hs.persistSessions (hw ⟨user, p, hUser, rfl, hHash⟩) _
    · exact hs
  · exact hs

theorem Synced.userForSession (hs : Synced s) {token : Text} {nowMs : ℤ}
    (hw : token ≠ [] → (∃ session ∈ s.sessions, session.expiresAt ≤ nowMs) → w.sessions = true) :
    Synced (s.userForSession c w token nowMs).2 := by
  rw [TenantStore.userForSession]
  split
  · exact hs
  · rename_i hToken
    refine hs.filter _ fun hOld => hw hToken ?_
    simpa using hOld

theorem owns_of_updateProject {projects after : List Project} {id : Text}
    {principal : Option ProjectPrincipal} {patch : ProjectPatch} {now : Text} {project : Project}
    (h : updateProject projects id principal patch now = (some project, after)) :
    ownsProject principal (projects.find? (·.id = id)) = true := by
  rw [updateProject] at h
  split at h
  · cases h
  · rename_i i hFound
    split at h
    · rename_i hOwns
      rw [List.find?_eq_getElem?_findIdx, (List.findIdx?_eq_some_iff_findIdx_eq.mp hFound).2]
      exact hOwns
    · cases h

theorem Synced.update (hs : Synced s) {id : Text} {principal : Option ProjectPrincipal}
    (hw : ownsProject principal (s.projects.find? (·.id = id)) = true → w.projects = true)
    (patch : ProjectPatch) (now : Text) : Synced (s.update w id principal patch now).2 := by
  rw [TenantStore.update]
  split
  · exact hs
  · rename_i hUpdated
    refine hs.persistProjects (hw ?_) _
    exact owns_of_updateProject hUpdated

theorem Synced.step (hs : Synced s) (hWritten : Written c s e) : Synced (step c s e).2 := by
  obtain ⟨call, draws, writes⟩ := e
  cases call with
  | signup email password name => exact hs.signup hWritten name draws
  | login email password => exact hs.login hWritten draws
  | userForSession token => exact hs.userForSession hWritten
  | revoke token =>
    refine hs.filter _ fun hOther => hWritten ?_
    simpa using hOther
  | createProject orgId ownerId req => exact hs.persistProjects hWritten _
  | updateProject id principal patch => exact hs.update hWritten patch draws.time

def WrittenAlong (c : Crypto) (s : TenantStore) (events : List Event) : Prop :=
  ∀ before e after, events = before ++ e :: after → Written c (run c s before) e

theorem synced_run (files : TenantFiles) (events : List Event) (h : WrittenAlong c (load files) events) :
    Synced (run c (load files) events) := by
  induction events using List.reverseRecOn with
  | nil => exact synced_load files
  | append_singleton events e ih =>
    rw [run, List.foldl_append]
    refine (ih fun before e' after hEq => ?_).step (h events e [] rfl)
    exact h before e' (after ++ [e]) (by rw [hEq, List.append_assoc, List.cons_append])

theorem signup_error {email : Text} {password : Option Text} {name : Text} {d : Draws} {error : TenantError}
    (h : (s.signup c w email password name d).1 = .error error) : (s.signup c w email password name d).2 = s := by
  rw [signup] at h ⊢
  dsimp only at h ⊢
  split
  · rfl
  · split
    · rfl
    · split
      · rfl
      · simp_all

theorem login_error {email : Text} {password : Option Text} {d : Draws} {error : TenantError}
    (h : (s.login c w email password d).1 = .error error) : (s.login c w email password d).2 = s := by
  rw [login.eq_def] at h ⊢
  split
  · split
    · simp_all
    · rfl
  · rfl

theorem step_error {error : TenantError} (h : (step c s e).1 = .error error) : (step c s e).2 = s := by
  obtain ⟨call, draws, writes⟩ := e
  cases call with
  | signup email password name =>
    change Except.map _ (s.signup c writes email password name draws).1 = _ at h
    cases hResult : (s.signup c writes email password name draws).1 with
    | error _ => exact signup_error hResult
    | ok _ => rw [hResult] at h; cases h
  | login email password =>
    change Except.map _ (s.login c writes email password draws).1 = _ at h
    cases hResult : (s.login c writes email password draws).1 with
    | error _ => exact login_error hResult
    | ok _ => rw [hResult] at h; cases h
  | userForSession token => cases h
  | revoke token => cases h
  | createProject orgId ownerId req => cases h
  | updateProject id principal patch => cases h

theorem SameAnswers.refl (c : Crypto) (s : TenantStore) : SameAnswers c s s :=
  ⟨fun _ => rfl, fun _ _ _ _ => rfl, fun _ _ _ => rfl, fun _ => rfl, fun _ _ => rfl⟩

/-- In a run without a failed write every call keeps its promise. -/
theorem kept_of_written (c : Crypto) (files : TenantFiles) (events : List Event) (e : Event)
    (h : WrittenAlong c (load files) (events ++ [e])) : Kept c (run c (load files) events) e := by
  have hRun := synced_run (c := c) files events fun before e' after hEq =>
    h before e' (after ++ [e]) (by rw [hEq, List.append_assoc, List.cons_append])
  have hStep := hRun.step (c := c) (h events e [] rfl)
  refine ⟨fun answer _ => ?_, fun error hError => step_error hError⟩
  rw [hStep]
  exact .refl c _

def plainCrypto : Crypto := ⟨fun t => t, fun t => t, fun password salt => password ++ salt⟩

def draws : Draws :=
  ⟨"usr-1".toList, "org-1".toList, "salt".toList, "prj-1".toList, "token".toList, "t0".toList, 0⟩

def Call.written (call : Call) : Event := ⟨call, draws, ⟨true, true, true⟩⟩

def signedIn : List Event :=
  [Call.written (.signup "a@b.co".toList (some "correct horse".toList) []),
    Call.written (.login "a@b.co".toList (some "correct horse".toList))]

/-- The account, the session and its end are on disk. -/
theorem kept_signedIn : Kept plainCrypto (run plainCrypto (load ⟨none, none, none⟩) signedIn)
    (Call.written (.revoke "token".toList)) := by
  refine kept_of_written plainCrypto _ signedIn _ fun before e after hEq => written_of_writable ?_
  have he : e ∈ signedIn ++ [Call.written (.revoke "token".toList)] :=
    hEq ▸ List.mem_append_right _ List.mem_cons_self
  simp only [signedIn, List.cons_append, List.nil_append, List.mem_cons, List.not_mem_nil, or_false] at he
  obtain rfl | rfl | rfl := he <;> rfl

def lostRevoke : Event := ⟨.revoke "token".toList, draws, ⟨true, false, true⟩⟩

/-- A session is revoked, and after a restart it is there again. -/
theorem revoked_returns :
    let s := (step plainCrypto (run plainCrypto (load ⟨none, none, none⟩) signedIn) lostRevoke).2
    (s.userForSession plainCrypto ⟨true, true, true⟩ "token".toList 1).1 = none ∧
      ((load s.files).userForSession plainCrypto ⟨true, true, true⟩ "token".toList 1).1.isSome = true ∧
      ¬ Kept plainCrypto (run plainCrypto (load ⟨none, none, none⟩) signedIn) lostRevoke := by
  intro s
  have hGone : (s.userForSession plainCrypto ⟨true, true, true⟩ "token".toList 1).1 = none := by
    decide +kernel
  have hBack : ((load s.files).userForSession plainCrypto ⟨true, true, true⟩ "token".toList 1).1.isSome = true := by
    decide +kernel
  refine ⟨hGone, hBack, fun h => ?_⟩
  have hSame := (h.durable .done rfl).session ⟨true, true, true⟩ "token".toList 1
  rw [← hSame, hGone] at hBack
  cases hBack

end TenantStore

end OrchestraAI.Access
