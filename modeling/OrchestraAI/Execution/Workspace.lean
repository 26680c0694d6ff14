import OrchestraAI.Library.JsonText
import OrchestraAI.Library.Utf8

/-! # The workspace

The files below the workspace root and the steps on them that may fail. A path is
the list of its names. Temporary files have names of their own, and no file is a
symbolic link.
-/

namespace OrchestraAI.Execution

open Utf8

abbrev Path := List Text

structure FsError where
  message : Text
  code : String
  deriving DecidableEq

/-- `path.resolve(base, requested)` for a base that is resolved. -/
def resolve (base : Path) (requested : Text) : Path :=
  (requested.splitOn '/').foldl (fun p name =>
    if name = [] ∨ name = ['.'] then p
    else if name = ['.', '.'] then p.dropLast
    else p ++ [name]) (if requested.head? = some '/' then [] else base)

/-- `abs === ws || abs.startsWith(ws + '/')`; below the root nothing passes. -/
def inside (ws abs : Path) : Bool := abs = ws || (ws ≠ [] && ws.isPrefixOf abs)

theorem inside_iff {ws abs : Path} (hws : ws ≠ []) : inside ws abs ↔ ws <+: abs := by
  unfold inside
  simp only [hws, ne_eq, not_false_eq_true, decide_true, Bool.true_and, Bool.or_eq_true,
    decide_eq_true_eq, List.isPrefixOf_iff_prefix]
  constructor
  · rintro (rfl | h)
    · exact List.prefix_rfl
    · exact h
  · exact .inr

def sandboxPath (ws : Path) (requested : Text) : Except FsError Path :=
  let rel := (requested.dropWhile (· = '/')).filter (· ≠ '\x00')
  if rel = [] ∨ rel = ['.'] then .error ⟨"path is required".toList, "bad_params"⟩
  else
    let abs := resolve ws rel
    if inside ws abs then .ok abs
    else .error ⟨"Path escapes workspace: ".toList ++ requested, "path_escape"⟩

inductive FileRef
  | file (path : Path)
  | temp (path : Path) (stamp : Nat)
  | tempRestore (path : Path)
  | tempRollback (path : Path)
  deriving DecidableEq

abbrev Disk := FileRef → Option Bytes

namespace Disk

variable (d : Disk)

def put (r : FileRef) (content : Option Bytes) : Disk := fun q => if q = r then content else d q

/-- `readFile(_, 'utf8')`, unless it fails. -/
def readFile (r : FileRef) (fails : Bool) : Option Text :=
  if fails then none else (d r).map decode

def writeFile (r : FileRef) (text : Text) (fails : Bool) : Option Disk :=
  if fails then none else some (d.put r (encode text))

def rename (source target : FileRef) (fails : Bool) : Option Disk :=
  match fails, d source with
  | false, some content => some ((d.put target content).put source none)
  | _, _ => none

@[simp] theorem put_self (r : FileRef) (content : Option Bytes) : d.put r content r = content :=
  if_pos rfl

theorem put_of_ne {r q : FileRef} (content : Option Bytes) (h : q ≠ r) :
    d.put r content q = d q := if_neg h

variable {d}

theorem readFile_eq_some {r : FileRef} {fails : Bool} {text : Text}
    (h : d.readFile r fails = some text) : ∃ content, d r = some content ∧ decode content = text := by
  unfold readFile at h
  split at h
  · cases h
  · exact Option.map_eq_some_iff.mp h

theorem writeFile_eq_some {r : FileRef} {text : Text} {fails : Bool} {d' : Disk}
    (h : d.writeFile r text fails = some d') : d' = d.put r (encode text) := by
  unfold writeFile at h
  split at h
  · cases h
  · exact (Option.some.inj h).symm

theorem replaced {temp : FileRef} {path : Path} {text : Text} {fails fails' : Bool} {d₁ d₂ : Disk}
    (hTemp : ∀ p, .file p ≠ temp) (hWrite : d.writeFile temp text fails = some d₁)
    (hRename : d₁.rename temp (.file path) fails' = some d₂) (p : Path) :
    d₂ (.file p) = if p = path then some (encode text) else d (.file p) := by
  obtain rfl := writeFile_eq_some hWrite
  unfold rename at hRename
  rw [put_self] at hRename
  cases fails' with
  | true => cases hRename
  | false =>
    cases hRename
    rw [put_of_ne _ _ (hTemp p)]
    by_cases hp : p = path
    · rw [hp, put_self, if_pos rfl]
    · have hFile : FileRef.file p ≠ .file path := fun h => hp (FileRef.file.inj h)
      rw [put_of_ne _ _ hFile, put_of_ne _ _ (hTemp p), if_neg hp]

end Disk

end OrchestraAI.Execution
