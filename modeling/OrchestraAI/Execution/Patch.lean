import OrchestraAI.Execution.Changesets

/-! # The patch tool

`handleApplyPatch` of `impl/tool-executor.js`, with `isBinaryBuffer` of
`execution/changesets.js`.
-/

namespace OrchestraAI.Execution

open Text (codeUnitCount sliceUnits)
open TextReplace Utf8
open ChangesetStore (Faults)

structure PatchParams where
  path : Text
  edits : Option (List EditInput)
  dryRun : Bool

/-- `isBinaryBuffer`: a NUL byte, or more than three tenths of control bytes. -/
def isBinaryBuffer (buf : Bytes) : Bool :=
  let sample := buf.take 8000
  let odd := sample.countP fun b => b < 9 || (13 < b && b < 32)
  sample.contains 0 || (sample ≠ [] && 3 * sample.length < 10 * odd)

def missingContext (path : Text) : FsError :=
  ⟨"Patch context not found in ".toList ++ path ++ "; no changes applied".toList, "patch_conflict"⟩

def badEdit : FsError := ⟨"Each edit needs oldText/newText strings".toList, "bad_params"⟩

def dryRunEdits (path content : Text) :
    Nat → Nat → List EditInput → Except FsError (Nat × Nat)
  | additions, deletions, [] => .ok (additions, deletions)
  | additions, deletions, ed :: eds =>
    match ed.oldText, ed.newText with
    | some oldText, some newText =>
      if oldText = [] then .error badEdit
      else if !includes content oldText then .error (missingContext path)
      else
        let o := lineCount oldText
        let n := lineCount newText
        if o ≤ n then dryRunEdits path content (additions + (n - o)) deletions eds
        else dryRunEdits path content additions (deletions + (o - n)) eds
    | _, _ => .error badEdit

def patchEdits (path : Text) : Text → List EditInput → Except FsError Text
  | content, [] => .ok content
  | content, ed :: eds =>
    match ed.oldText, ed.newText with
    | some oldText, some newText =>
      if oldText = [] then .error badEdit
      else if !includes content oldText then .error (missingContext path)
      else patchEdits path (replace content oldText newText) eds
    | _, _ => .error badEdit

def patchContent (path : Text) (edits : List EditInput) (content : Text) : Except FsError Text :=
  if 500000 < codeUnitCount content then .error ⟨"File too large".toList, "too_large"⟩
  else if isBinaryBuffer (encode (sliceUnits 8000 content)) then
    .error ⟨"refusing to patch binary file".toList, "denied"⟩
  else patchEdits path content (edits.take 20)

structure PatchResult (η : Type) where
  path : Text
  editsApplied : Nat
  beforeHash : η
  afterHash : η

structure DryRunResult where
  path : Text
  editsProposed : Nat
  additions : Nat
  deletions : Nat

inductive PatchOutcome (η : Type)
  | applied (result : PatchResult η)
  | proposed (result : DryRunResult)
  | thrown (error : FsError)

section

variable {η : Type} [DecidableEq η] (sha : Text → η)

def dryRunPatch (ws : Path) (d : Disk) (readFails : Bool) (params : PatchParams) :
    PatchOutcome η :=
  match sandboxPath ws params.path with
  | .error err => .thrown err
  | .ok abs =>
    let edits := params.edits.getD []
    if edits = [] then .thrown ⟨"edits[] is required".toList, "bad_params"⟩
    else
      match d.readFile (.file abs) readFails with
      | none => .thrown ⟨"File not found: ".toList ++ params.path, "not_found"⟩
      | some content =>
        if 500000 < codeUnitCount content then .thrown ⟨"File too large".toList, "too_large"⟩
        else
          match dryRunEdits params.path content 0 0 (edits.take 20) with
          | .error err => .thrown err
          | .ok (additions, deletions) =>
            .proposed ⟨params.path, edits.length, additions, deletions⟩

def writePatch (ws : Path) (d : Disk) (faults : Faults) (stamp : Nat) (params : PatchParams) :
    PatchOutcome η × Disk :=
  match sandboxPath ws params.path with
  | .error err => (.thrown err, d)
  | .ok abs =>
    let edits := params.edits.getD []
    if edits = [] then (.thrown ⟨"edits[] is required".toList, "bad_params"⟩, d)
    else
      match d.readFile (.file abs) (faults.read 0) with
      | none => (.thrown ⟨"File not found: ".toList ++ params.path, "not_found"⟩, d)
      | some content =>
        match patchContent params.path edits content with
        | .error err => (.thrown err, d)
        | .ok patched =>
          match d.writeFile (.temp abs stamp) patched (faults.write 0) with
          | none => (.thrown ⟨"write".toList, ""⟩, d)
          | some d₁ =>
            match d₁.rename (.temp abs stamp) (.file abs) (faults.rename 0) with
            | none => (.thrown ⟨"rename".toList, ""⟩, d₁)
            | some d₂ =>
              match d₂.readFile (.file abs) (faults.verify 0) with
              | none => (.thrown ⟨"read".toList, ""⟩, d₂)
              | some verify =>
                if sha verify ≠ sha patched then
                  (.thrown ⟨"hash verification failed after patch".toList, "apply_failed"⟩, d₂)
                else (.applied ⟨params.path, edits.length, sha content, sha verify⟩, d₂)

/-- `allowFileWrites` is what the environment variable says. -/
def handleApplyPatch (allowFileWrites : Bool) (ws : Path) (d : Disk) (faults : Faults)
    (stamp : Nat) (params : PatchParams) : PatchOutcome η × Disk :=
  if params.dryRun then (dryRunPatch ws d (faults.read 0) params, d)
  else if !allowFileWrites then
    (.thrown ⟨"apply_patch is disabled (set ALLOW_FILE_WRITES=true to enable)".toList, "disabled"⟩,
      d)
  else writePatch sha ws d faults stamp params

end

end OrchestraAI.Execution
