import Mathlib.Algebra.Order.Ring.Rat
import Mathlib.Data.Char
import OrchestraAI.Library.ComparatorSort
import OrchestraAI.Library.JsonFields
import OrchestraAI.Library.TextReplace

/-! # The retention sweep

`sweepRetention` of `persistence.js`: stale temporary files, the files of runs that nobody knows
of any more, and surplus quarantined files are deleted. A file goes by its name and its age.
-/

namespace OrchestraAI.Persistence

open TextReplace (includes includes_iff)
open ComparatorSort

def isTemporary (name : Text) : Bool := includes name ".tmp-".toList

def isQuarantined (name : Text) : Bool := includes name ".corrupt-".toList

def runFileEnds : List Text :=
  [".events.json".toList, ".snapshot.json".toList, ".billing.json".toList]

/-- What `.` in a pattern does not match. -/
def lineEnds : List Char := ['\n', '\r', '\u2028', '\u2029']

/-- The id of `perRunRe`. -/
def runOf (name : Text) : Option Text :=
  (runFileEnds.findSome? fun ending => ending.isSuffixOf? name).filter fun id =>
    !id.isEmpty && id.all fun c => !lineEnds.contains c

structure FileName where
  text : Text
  /-- Run ids hold no dot, so what the store names is of one kind. -/
  oneKind : (isTemporary text → isQuarantined text = false) ∧
    (isTemporary text ∨ isQuarantined text → runOf text = none)

instance : DecidableEq FileName := fun a b =>
  decidable_of_iff (a.text = b.text)
    ⟨fun h => by cases a; cases b; cases h; rfl, fun h => congrArg FileName.text h⟩

/-- The characters of `ID_RE` of `server.js`. -/
def idChar (c : Char) : Bool := c.isAlphanum || c = '_' || c = '-'

structure ValidRunId where
  text : Text
  nonempty : text ≠ []
  plain : ∀ c ∈ text, idChar c

theorem ValidRunId.dot_not_mem (id : ValidRunId) : '.' ∉ id.text := fun h =>
  absurd (id.plain '.' h) (by decide)

theorem infix_behind_dot {a b p : Text} (ha : '.' ∉ a) (h : '.' :: p <:+: a ++ '.' :: b) :
    p <+: b ∨ '.' :: p <:+: b := by
  induction a with
  | nil =>
    obtain hStart | hRest := List.infix_cons_iff.mp h
    · exact .inl (List.cons_prefix_cons.mp hStart).2
    · exact .inr hRest
  | cons c a ih =>
    obtain hStart | hRest := List.infix_cons_iff.mp h
    · exact absurd ((List.cons_prefix_cons.mp hStart).1 ▸ List.mem_cons_self) ha
    · exact ih (fun hMem => ha (List.mem_cons_of_mem c hMem)) hRest

/-- A mark with a dot in front that is in no end of a run's file is in no name of one. -/
theorem runFile_lacks (id : ValidRunId) {ending mark : Text} (hEnd : ending ∈ runFileEnds)
    (h : runFileEnds.all fun e =>
      e.head? = some '.' && !mark.isPrefixOf e.tail && !includes e.tail ('.' :: mark)) :
    includes (id.text ++ ending) ('.' :: mark) = false := by
  have hLacks := List.all_eq_true.mp h ending hEnd
  simp only [Bool.and_eq_true, Bool.not_eq_eq_eq_not, Bool.not_true, decide_eq_true_eq] at hLacks
  obtain ⟨⟨hDot, hNext⟩, hLater⟩ := hLacks
  obtain ⟨rest, rfl⟩ := List.head?_eq_some_iff.mp hDot
  rw [← Bool.not_eq_true]
  intro hIncludes
  obtain hStart | hRest := infix_behind_dot id.dot_not_mem (includes_iff.mp hIncludes)
  · rw [List.tail_cons] at hNext
    exact Bool.noConfusion (hNext.symm.trans (List.isPrefixOf_iff_prefix.mpr hStart))
  · rw [List.tail_cons] at hLater
    exact Bool.noConfusion (hLater.symm.trans (includes_iff.mpr hRest))

theorem oneKind_ofRun (id : ValidRunId) {ending : Text} (h : ending ∈ runFileEnds) :
    (isTemporary (id.text ++ ending) → isQuarantined (id.text ++ ending) = false) ∧
      (isTemporary (id.text ++ ending) ∨ isQuarantined (id.text ++ ending) →
        runOf (id.text ++ ending) = none) := by
  have hTemporary : isTemporary (id.text ++ ending) = false := runFile_lacks id h (by decide)
  have hQuarantined : isQuarantined (id.text ++ ending) = false := runFile_lacks id h (by decide)
  rw [hTemporary, hQuarantined]
  exact ⟨fun _ => rfl, fun h => h.elim Bool.noConfusion Bool.noConfusion⟩

def FileName.ofRun (id : ValidRunId) (ending : Text) (h : ending ∈ runFileEnds) : FileName where
  text := id.text ++ ending
  oneKind := oneKind_ofRun id h

def runIndexName : Text := "runs.json".toList

def quarantineName (now : Nat) : Text := runIndexName ++ ".corrupt-".toList ++ Nat.toDigits 10 now

theorem quarantineName_lacks {c : Char} (hDigit : c.isDigit = false) (now : Nat)
    (h : (runIndexName ++ ".corrupt-".toList).contains c = false) : c ∉ quarantineName now := by
  intro hMem
  obtain hHere | hDigits := List.mem_append.mp hMem
  · exact Bool.noConfusion (h.symm.trans (List.contains_iff_mem.mpr hHere))
  · exact Bool.noConfusion
      (hDigit.symm.trans (Nat.isDigit_of_mem_toDigits (by omega) (by omega) hDigits))

theorem isTemporary_quarantineName (now : Nat) : isTemporary (quarantineName now) = false := by
  rw [← Bool.not_eq_true]
  intro h
  have hInfix := includes_iff.mp h
  have hMem : 'm' ∈ quarantineName now := hInfix.subset (by decide)
  exact quarantineName_lacks (by decide) now (by decide) hMem

theorem runOf_quarantineName (now : Nat) : runOf (quarantineName now) = none := by
  have hForeign : runFileEnds.all fun ending => ending.any fun c =>
      !c.isDigit && !(runIndexName ++ ".corrupt-".toList).contains c := by decide
  have hNone : (runFileEnds.findSome? fun ending => ending.isSuffixOf? (quarantineName now)) = none := by
    rw [List.findSome?_eq_none_iff]
    intro ending hEnd
    obtain ⟨c, hc, hLacks⟩ := List.any_eq_true.mp (List.all_eq_true.mp hForeign ending hEnd)
    obtain ⟨hDigit, hName⟩ := Bool.and_eq_true_iff.mp hLacks
    rw [Option.eq_none_iff_forall_ne_some]
    intro id hId
    have hEq := List.isSuffixOf?_eq_some_iff_append_eq.mp hId
    exact quarantineName_lacks (by simpa using hDigit) now (by simpa using hName)
      (hEq ▸ List.mem_append_right id hc)
  rw [runOf, hNone]
  rfl

theorem oneKind_ofQuarantine (now : Nat) :
    (isTemporary (quarantineName now) → isQuarantined (quarantineName now) = false) ∧
      (isTemporary (quarantineName now) ∨ isQuarantined (quarantineName now) →
        runOf (quarantineName now) = none) :=
  ⟨fun h => absurd h (Bool.eq_false_iff.mp (isTemporary_quarantineName now)),
    fun _ => runOf_quarantineName now⟩

def FileName.ofQuarantine (now : Nat) : FileName where
  text := quarantineName now
  oneKind := oneKind_ofQuarantine now

structure DirEntry where
  name : FileName
  /-- Since when it is as it is, in milliseconds, and its size, if `statSync` works. -/
  stat : Option (ℚ × Nat)
  /-- `unlinkSync` works. -/
  removable : Bool
  deriving DecidableEq

def DirEntry.age (f : DirEntry) : ℚ := f.stat.elim 0 Prod.fst

def DirEntry.size (f : DirEntry) : Nat := f.stat.elim 0 Prod.snd

/-- What `runs.json` holds. -/
inductive IndexFile
  | absent
  | unreadable
  | blank
  /-- No JSON text; the renaming may fail. -/
  | corrupt (renames : Bool)
  | holds (value : Json)

namespace IndexFile

def loadRunIndex : IndexFile → List Json
  | .holds (.arr runs) => runs
  | _ => []

/-- The text under `id`, if there is one that is not empty. -/
def idOf : Json → Option Text
  | .obj fields =>
    match Json.field "id" fields with
    | some (.str id) => if id = "" then none else some id.toList
    | _ => none
  | _ => none

def ids (index : IndexFile) : List Text := index.loadRunIndex.filterMap idOf

def Valid : IndexFile → Prop
  | .holds (.arr _) => True
  | _ => False

end IndexFile

structure DataDir where
  /-- `readdirSync` works. -/
  listable : Bool
  files : List DirEntry
  distinct : (files.map fun f => f.name).Nodup
  index : IndexFile
  /-- `Date.now()`. -/
  now : Nat

/-- The files after a corrupt index got its new name, in the place of a file that had it. -/
def quarantineIndex (now : Nat) (files : List DirEntry) : List DirEntry :=
  match files.find? fun f => f.name.text = runIndexName with
  | none => files
  | some f =>
    { f with name := .ofQuarantine now } ::
      files.filter fun g => g.name.text ≠ runIndexName ∧ g.name ≠ .ofQuarantine now

namespace DataDir

def filesRead (dir : DataDir) : List DirEntry :=
  match dir.index with
  | .corrupt true => quarantineIndex dir.now dir.files
  | _ => dir.files

end DataDir

structure SweepOptions where
  activeIds : List Text := []
  indexIds : Option (List Text) := none
  graceMs : ℚ := 24 * 60 * 60 * 1000
  dryRun : Bool := false

def tmpMaxAgeMs : ℚ := 60 * 60 * 1000

def maxCorruptKept : Nat := 20

structure SweepReport where
  deleted : List FileName := []
  keptActive : Nat := 0
  keptIndexed : Nat := 0
  keptFresh : Nat := 0
  freedBytes : Nat := 0
  /-- What could not be done, without the texts of the operating system. -/
  errors : List (Option FileName) := []

structure Sweep where
  files : List DirEntry
  report : SweepReport := {}

namespace Sweep

def find (s : Sweep) (name : FileName) : Option DirEntry := s.files.find? fun f => f.name = name

def statAge (s : Sweep) (name : FileName) : ℚ := (s.find name).elim 0 DirEntry.age

def remove (dryRun : Bool) (s : Sweep) (name : FileName) : Sweep :=
  let size := (s.find name).elim 0 DirEntry.size
  let deleted :=
    { s.report with deleted := s.report.deleted ++ [name], freedBytes := s.report.freedBytes + size }
  if dryRun then { s with report := deleted }
  else if (s.find name).any DirEntry.removable then
    { files := s.files.filter fun f => f.name ≠ name, report := deleted }
  else { s with report := { s.report with errors := s.report.errors ++ [some name] } }

def collect (opts : SweepOptions) (indexed : List Text) (s : Sweep) (name : FileName) : Sweep :=
  if isTemporary name.text then
    if s.statAge name > tmpMaxAgeMs then s.remove opts.dryRun name else s
  else
    match runOf name.text with
    | none => s
    | some id =>
      if id ∈ opts.activeIds then
        { s with report := { s.report with keptActive := s.report.keptActive + 1 } }
      else if id ∈ indexed then
        { s with report := { s.report with keptIndexed := s.report.keptIndexed + 1 } }
      else if s.statAge name < opts.graceMs then
        { s with report := { s.report with keptFresh := s.report.keptFresh + 1 } }
      else s.remove opts.dryRun name

def corrupt (names : List FileName) (s : Sweep) : List (FileName × ℚ) :=
  sortBy (fun a b => compare b.2 a.2)
    ((names.filter fun n => isQuarantined n.text).map fun n => (n, s.statAge n))

def capCorrupt (opts : SweepOptions) (names : List FileName) (s : Sweep) : Sweep :=
  ((s.corrupt names).drop maxCorruptKept).foldl (fun s c => s.remove opts.dryRun c.1) s

end Sweep

def indexedIds (opts : SweepOptions) (index : IndexFile) : List Text :=
  opts.indexIds.getD index.ids

def sweepRetention (dir : DataDir) (opts : SweepOptions) : Sweep :=
  if dir.listable then
    let names := dir.files.map fun f => f.name
    let files := if opts.indexIds.isSome then dir.files else dir.filesRead
    let swept := names.foldl (Sweep.collect opts (indexedIds opts dir.index)) { files }
    swept.capCorrupt opts names
  else { files := dir.files, report := { errors := [none] } }

end OrchestraAI.Persistence
