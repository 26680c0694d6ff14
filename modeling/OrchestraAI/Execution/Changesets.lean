import Mathlib.Algebra.GroupWithZero.Nat
import OrchestraAI.Execution.Workspace
import OrchestraAI.Library.OrderedMap
import OrchestraAI.Library.TextReplace
import OrchestraAI.Library.TextUnits

/-! # Changesets

`ChangesetStore` of `execution/changesets.js`. SHA-256 is a parameter, and so are the
reads, writes and renames that fail, each named by the place of its file in the
changeset, and the times that `apply` puts into the names of temporary files.
-/

namespace OrchestraAI.Execution

open Text (codeUnitCount)
open TextReplace

abbrev ChangesetId := String

inductive ChangesetStatus
  | proposed
  | dryRun
  | pendingApproval
  | approved
  | applying
  | applied
  | failed
  | rolledBack
  | conflict
  deriving DecidableEq, Repr

def ChangesetStatus.text : ChangesetStatus → String
  | .proposed => "PROPOSED"
  | .dryRun => "DRY_RUN"
  | .pendingApproval => "PENDING_APPROVAL"
  | .approved => "APPROVED"
  | .applying => "APPLYING"
  | .applied => "APPLIED"
  | .failed => "FAILED"
  | .rolledBack => "ROLLED_BACK"
  | .conflict => "CONFLICT"

structure Edit where
  oldText : Text
  newText : Text
  deriving DecidableEq

/-- An edit as it is asked for; a text is missing where the field is no string. -/
structure EditInput where
  oldText : Option Text
  newText : Option Text

/-- A file as it is asked for; the edits are missing where the field is no array. -/
structure FileInput where
  path : Text
  edits : Option (List EditInput)

structure Entry (η : Type) where
  path : Text
  abs : Path
  edits : List Edit
  beforeHash : η
  afterHash : η
  afterContent : Text
  bytesBefore : Nat
  bytesAfter : Nat

structure Changeset (η : Type) where
  id : ChangesetId
  runId : String
  additions : Nat
  deletions : Nat
  riskLevel : String
  status : ChangesetStatus
  appliedAt : Option Int
  entries : List (Entry η)

def lineCount (t : Text) : Nat := t.count '\n' + 1

def forward (edits : List Edit) (content : Text) : Text :=
  edits.foldl (fun c ed => replace c ed.oldText ed.newText) content

def backward (edits : List Edit) (content : Text) : Text :=
  edits.foldl (fun c ed => replace c ed.newText ed.oldText) content

def proposeEdits (path : Text) :
    Text → Nat → Nat → List EditInput → Except FsError (Text × Nat × Nat × List Edit)
  | next, additions, deletions, [] => .ok (next, additions, deletions, [])
  | next, additions, deletions, ed :: eds =>
    match ed.oldText, ed.newText with
    | some oldText, some newText =>
      if oldText = [] then .error ⟨"Each edit needs oldText/newText strings".toList, "bad_params"⟩
      else if !includes next oldText then
        .error ⟨"Patch context not found in ".toList ++ path ++ "; no changes applied".toList,
          "patch_conflict"⟩
      else
        let oldLines := lineCount oldText
        let newLines := lineCount newText
        let additions' := if oldLines ≤ newLines then additions + (newLines - oldLines)
          else additions
        let deletions' := if oldLines ≤ newLines then deletions
          else deletions + (oldLines - newLines)
        match proposeEdits path (replace next oldText newText) additions' deletions' eds with
        | .error e => .error e
        | .ok (after, a, d, edits) => .ok (after, a, d, ⟨oldText, newText⟩ :: edits)
    | _, _ => .error ⟨"Each edit needs oldText/newText strings".toList, "bad_params"⟩

section Propose

variable {η : Type} (sha : Text → η)

def proposeFiles (ws : Path) (d : Disk) :
    Nat → Nat → List FileInput → Except FsError (Nat × Nat × List (Entry η))
  | additions, deletions, [] => .ok (additions, deletions, [])
  | additions, deletions, f :: fs =>
    match sandboxPath ws f.path with
    | .error e => .error e
    | .ok abs =>
      let asked := (f.edits.getD []).take 20
      if asked = [] then .error ⟨"edits[] required for ".toList ++ f.path, "bad_params"⟩
      else
        match d.readFile (.file abs) false with
        | none => .error ⟨"File not found: ".toList ++ f.path, "not_found"⟩
        | some content =>
          if 500000 < codeUnitCount content then
            .error ⟨"File too large: ".toList ++ f.path, "too_large"⟩
          else
            match proposeEdits f.path content additions deletions asked with
            | .error e => .error e
            | .ok (next, a, b, edits) =>
              match proposeFiles ws d a b fs with
              | .error e => .error e
              | .ok (a', b', entries) =>
                let entry : Entry η :=
                  { path := f.path
                    abs := abs
                    edits := edits
                    beforeHash := sha content
                    afterHash := sha next
                    afterContent := next
                    bytesBefore := codeUnitCount content
                    bytesAfter := codeUnitCount next }
                .ok (a', b', entry :: entries)

end Propose

abbrev ChangesetStore (η : Type) := OrderedMap ChangesetId (Changeset η)

namespace ChangesetStore

variable {η : Type} [DecidableEq η] (sha : Text → η)

/-- The stored record under the id drawn for it; `files` is missing where it is no array. -/
def propose (s : ChangesetStore η) (ws : Path) (d : Disk) (runId : String)
    (files : Option (List FileInput)) (riskLevel : Option String) (id : ChangesetId) :
    Except FsError (ChangesetStore η × Changeset η) :=
  if runId = "" then .error ⟨"runId is required".toList, ""⟩
  else
    match files with
    | none | some [] => .error ⟨"files[] is required".toList, ""⟩
    | some files =>
      if 20 < files.length then .error ⟨"too many files in one changeset (max 20)".toList, ""⟩
      else
        match proposeFiles sha ws d 0 0 files with
        | .error e => .error e
        | .ok (additions, deletions, entries) =>
          let record : Changeset η :=
            { id := id
              runId := runId
              additions := additions
              deletions := deletions
              riskLevel := match riskLevel with
                | none | some "" => "MEDIUM"
                | some r => r
              status := .proposed
              appliedAt := none
              entries := entries }
          .ok (s.set id record, record)

/-- The steps that fail, by the place of the file in the changeset. -/
structure Faults where
  read : Nat → Bool
  write : Nat → Bool
  rename : Nat → Bool
  verify : Nat → Bool

def noFaults : Faults := ⟨fun _ => false, fun _ => false, fun _ => false, fun _ => false⟩

/-- `_restore`. -/
def restore (d : Disk) (backups : List (Path × Text)) : Disk :=
  backups.foldl (fun d b =>
    (d.put (.file b.1) (Utf8.encode b.2)).put (.tempRestore b.1) none) d

/-- How `apply` ends. -/
inductive ApplyResult (η : Type)
  | ok (changeset : Changeset η)
  | refused (error : Text)
  | conflict (error : Text)
  | failed (error : FsError)

def ApplyResult.isOk {η : Type} : ApplyResult η → Bool
  | .ok _ => true
  | _ => false

/-- The loop of `apply`: how it stopped early, if it did, and the disk it left. -/
def applyEntries (ws : Path) (faults : Faults) (stamp : Nat → Nat) :
    List (Path × Text) → Nat → Disk → List (Entry η) → Option (ApplyResult η) × Disk
  | _, _, d, [] => (none, d)
  | backups, i, d, e :: es =>
    match sandboxPath ws e.path with
    | .error err => (some (.failed err), restore d backups)
    | .ok abs =>
      match d.readFile (.file abs) (faults.read i) with
      | none =>
        (some (.failed ⟨"File not found: ".toList ++ e.path, "not_found"⟩), restore d backups)
      | some current =>
        if sha current ≠ e.beforeHash then
          (some (.conflict ("conflict: ".toList ++ e.path ++
            " changed since proposal (user edit?)".toList)), restore d backups)
        else
          let backups := backups ++ [(abs, current)]
          match d.writeFile (.temp abs (stamp i)) e.afterContent (faults.write i) with
          | none => (some (.failed ⟨"write".toList, "apply_failed"⟩), restore d backups)
          | some d₁ =>
            match d₁.rename (.temp abs (stamp i)) (.file abs) (faults.rename i) with
            | none => (some (.failed ⟨"rename".toList, "apply_failed"⟩), restore d₁ backups)
            | some d₂ =>
              match d₂.readFile (.file abs) (faults.verify i) with
              | none => (some (.failed ⟨"read".toList, "apply_failed"⟩), restore d₂ backups)
              | some verify =>
                if sha verify ≠ e.afterHash then
                  (some (.failed ⟨"hash verification failed for ".toList ++ e.path, ""⟩),
                    restore d₂ backups)
                else applyEntries ws faults stamp backups (i + 1) d₂ es

def apply (s : ChangesetStore η) (ws : Path) (d : Disk) (faults : Faults) (stamp : Nat → Nat)
    (id : ChangesetId) (now : Int) : ApplyResult η × ChangesetStore η × Disk :=
  match s.get id with
  | none => (.refused "changeset not found".toList, s, d)
  | some record =>
    if record.status ∉ [.proposed, .dryRun, .approved, .failed] then
      (.refused ("changeset is ".toList ++ record.status.text.toList), s, d)
    else
      match applyEntries sha ws faults stamp [] 0 d record.entries with
      | (none, d') =>
        let applied : Changeset η := { record with status := .applied, appliedAt := some now }
        (.ok applied, s.set id applied, d')
      | (some (.conflict err), d') =>
        (.conflict err, s.set id { record with status := .conflict }, d')
      | (some result, d') => (result, s.set id { record with status := .failed }, d')

/-- `_reconstructBefore`. -/
def reconstructBefore (e : Entry η) : Except FsError Text :=
  let content := backward e.edits e.afterContent
  if sha content ≠ e.beforeHash then
    .error ⟨"rollback integrity check failed for ".toList ++ e.path, ""⟩
  else .ok content

/-- What the loop of `rollback` has met; `true` marks a file that is missing. -/
structure Progress where
  conflicts : List (Text × Bool)
  restored : List Text

inductive RollbackResult (η : Type)
  | ok (restored : List Text) (changeset : Changeset η)
  | refused (error : Text)
  | blocked (conflicts : List (Text × Bool)) (restored : List Text)
  | thrown (error : FsError)

def RollbackResult.isOk {η : Type} : RollbackResult η → Bool
  | .ok _ _ => true
  | _ => false

/-- The loop of `rollback`, or what it throws, and the disk it left. -/
def rollbackEntries (ws : Path) (faults : Faults) :
    Nat → Disk → Progress → List (Entry η) → Except FsError Progress × Disk
  | _, d, p, [] => (.ok p, d)
  | i, d, p, e :: es =>
    match sandboxPath ws e.path with
    | .error err => (.error err, d)
    | .ok abs =>
      match d.readFile (.file abs) (faults.read i) with
      | none =>
        rollbackEntries ws faults (i + 1) d
          { p with conflicts := p.conflicts ++ [(e.path, true)] } es
      | some current =>
        if sha current ≠ e.afterHash ∧ sha current ≠ e.beforeHash then
          rollbackEntries ws faults (i + 1) d
            { p with conflicts := p.conflicts ++ [(e.path, false)] } es
        else if sha current = e.afterHash then
          match reconstructBefore sha e with
          | .error err => (.error err, d)
          | .ok original =>
            match d.writeFile (.tempRollback abs) original (faults.write i) with
            | none => (.error ⟨"write".toList, ""⟩, d)
            | some d₁ =>
              match d₁.rename (.tempRollback abs) (.file abs) (faults.rename i) with
              | none => (.error ⟨"rename".toList, ""⟩, d₁)
              | some d₂ =>
                rollbackEntries ws faults (i + 1) d₂
                  { p with restored := p.restored ++ [e.path] } es
        else rollbackEntries ws faults (i + 1) d p es

def rollback (s : ChangesetStore η) (ws : Path) (d : Disk) (faults : Faults) (id : ChangesetId) :
    RollbackResult η × ChangesetStore η × Disk :=
  match s.get id with
  | none => (.refused "changeset not found".toList, s, d)
  | some record =>
    if record.status ≠ .applied then
      (.refused ("cannot rollback ".toList ++ record.status.text.toList), s, d)
    else
      match rollbackEntries sha ws faults 0 d ⟨[], []⟩ record.entries with
      | (.error e, d') => (.thrown e, s, d')
      | (.ok p, d') =>
        if p.conflicts ≠ [] then (.blocked p.conflicts p.restored, s, d')
        else
          let reverted : Changeset η := { record with status := .rolledBack }
          (.ok p.restored reverted, s.set id reverted, d')

def clearRun (s : ChangesetStore η) (runId : String) : ChangesetStore η :=
  s.keepIf fun r => r.runId ≠ runId

end ChangesetStore

end OrchestraAI.Execution
