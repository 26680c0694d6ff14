import Mathlib.Data.List.Infix
import OrchestraAI.Execution.ChangesetRollback
import OrchestraAI.Execution.Patch

/-! # Edits as they are written

The three loops over edits compared with the edits made one after the other, each new text as it
stands. The loops of a patch and of a proposal take new texts for templates, a patch makes twenty
edits and counts them all, and a dry run looks for every text in the file as it is.
-/

namespace OrchestraAI.Execution

open Text (codeUnitCount sliceUnits)
open TextReplace Utf8
open ChangesetStore (Faults Made lastAfter)

variable {path content after : Text} {e : Edit} {es : List Edit} {inputs : List EditInput}

def Edit.asked (e : Edit) : EditInput := ⟨some e.oldText, some e.newText⟩

def literal : Text → List Edit → Option Text
  | content, [] => some content
  | content, e :: es => (replaceVerbatim content e.oldText e.newText).bind fun next => literal next es

def FoundInTurn : Text → List Edit → Prop
  | _, [] => True
  | content, e :: es =>
    e.oldText ≠ [] ∧ includes content e.oldText ∧
      FoundInTurn (replace content e.oldText e.newText) es

def SelfTemplates : Text → List Edit → Prop
  | _, [] => True
  | content, e :: es =>
    SelfTemplate content e.oldText e.newText ∧
      SelfTemplates (replace content e.oldText e.newText) es

def GoesLiterally (loop : List EditInput → Option Text) (content : Text) (es : List Edit) : Prop :=
  ∀ made, made <+: es → loop (made.map Edit.asked) = literal content made

attribute [grind =] literal FoundInTurn SelfTemplates

theorem patchEdits_ok (h : patchEdits path content inputs = .ok after) :
    ∃ es : List Edit, inputs = es.map Edit.asked ∧ FoundInTurn content es ∧ after = forward es content := by
  induction inputs generalizing content with
  | nil =>
    cases h
    exact ⟨[], rfl, trivial, rfl⟩
  | cons ed eds ih =>
    unfold patchEdits at h
    split at h
    · rename_i oldText newText hOld hNew
      split at h
      · cases h
      rename_i hNe
      split at h
      · cases h
      rename_i hIncludes
      obtain ⟨es, rfl, hFound, rfl⟩ := ih h
      refine ⟨⟨oldText, newText⟩ :: es, ?_, ⟨hNe, by simpa using hIncludes, hFound⟩, rfl⟩
      rw [List.map_cons, Edit.asked, ← hOld, ← hNew]
    · cases h

theorem patchEdits_of_found (path : Text) (h : FoundInTurn content es) :
    patchEdits path content (es.map Edit.asked) = .ok (forward es content) := by
  induction es generalizing content with
  | nil => rfl
  | cons e es ih =>
    obtain ⟨hNe, hIncludes, hRest⟩ := h
    simp only [List.map_cons, Edit.asked, patchEdits, if_neg hNe, hIncludes, Bool.not_true,
      Bool.false_eq_true, if_false]
    exact ih hRest

theorem proposeEdits_eq (additions deletions : Nat) (inputs : List EditInput) :
    (proposeEdits path content additions deletions inputs).map Prod.fst =
      patchEdits path content inputs := by
  induction inputs generalizing content additions deletions with
  | nil => rfl
  | cons ed eds ih =>
    obtain ⟨_ | oldText, newText⟩ := ed
    · rfl
    obtain _ | newText := newText
    · rfl
    simp only [proposeEdits, patchEdits]
    split
    · rfl
    split
    · rfl
    rw [← ih]
    split
    · rename_i hRest
      rw [hRest, Except.map]
    · rename_i hRest
      rw [hRest, Except.map, Except.map]

theorem FoundInTurn.start {made : List Edit} (h : FoundInTurn content es) (hMade : made <+: es) :
    FoundInTurn content made := by
  induction made generalizing content es with
  | nil => trivial
  | cons e made ih =>
    obtain ⟨rest, rfl⟩ := hMade
    obtain ⟨hNe, hIncludes, hRest⟩ := h
    exact ⟨hNe, hIncludes, ih hRest (List.prefix_append made rest)⟩

theorem forall_prefix_cons {p : List Edit → Prop} :
    (∀ made, made <+: e :: es → p made) ↔ p [] ∧ ∀ made, made <+: es → p (e :: made) := by
  constructor
  · exact fun h => ⟨h [] List.nil_prefix, fun made hMade => h _ (List.prefix_cons_inj e |>.mpr hMade)⟩
  · rintro ⟨hNil, hCons⟩ made hMade
    obtain rfl | ⟨made, rfl, hRest⟩ := List.prefix_cons_iff.mp hMade
    · exact hNil
    · exact hCons made hRest

/-- An edit and those behind it lead literally somewhere just if it leads where the others start. -/
theorem literal_cons_iff {next : Text} (leads : List Edit → Option Text) (hNext : leads [] = some next) :
    (∀ made, made <+: es → leads made = literal content (e :: made)) ↔
      replaceVerbatim content e.oldText e.newText = some next ∧
        ∀ made, made <+: es → leads made = literal next made := by
  simp only [literal]
  constructor
  · intro h
    have hFirst := h [] List.nil_prefix
    rw [hNext] at hFirst
    obtain ⟨_, hReplaced, hSame⟩ := Option.bind_eq_some_iff.mp hFirst.symm
    cases hSame
    refine ⟨hReplaced, fun made hMade => ?_⟩
    rw [h made hMade, hReplaced, Option.bind_some]
  · rintro ⟨hFirst, hRest⟩ made hMade
    rw [hRest made hMade, hFirst, Option.bind_some]

theorem literal_self_iff :
    (∀ made, made <+: es → some content = literal content made) ↔
      ∀ e ∈ es, includes content e.oldText ∧ e.newText = e.oldText := by
  induction es with
  | nil => simp [literal]
  | cons e es ih =>
    rw [forall_prefix_cons, literal_cons_iff (fun _ => some content) rfl, ih,
      replaceVerbatim_eq_self_iff, List.forall_mem_cons]
    exact and_iff_right rfl

/-- The literal edits lead where the first `n` edits lead, after each edit, just if the new texts of
these stand for themselves and the other edits change nothing. -/
theorem literal_take_iff {n : Nat} (hFound : FoundInTurn content (es.take n)) :
    (∀ made, made <+: es → some (forward (made.take n) content) = literal content made) ↔
      SelfTemplates content (es.take n) ∧
        ∀ e ∈ es.drop n, includes (forward (es.take n) content) e.oldText ∧ e.newText = e.oldText := by
  induction es generalizing content n with
  | nil => simp [SelfTemplates, literal, forward]
  | cons e es ih =>
    cases n with
    | zero => exact literal_self_iff.trans (and_iff_right trivial).symm
    | succ n =>
      obtain ⟨-, hIncludes, hRest⟩ := hFound
      have hForward (made : List Edit) : forward (e :: made) content =
          forward made (replace content e.oldText e.newText) := rfl
      have hStart : some (forward (([] : List Edit).take n) (replace content e.oldText e.newText)) =
          some (replace content e.oldText e.newText) := by rw [List.take_nil]; rfl
      simp only [forall_prefix_cons, List.take_succ_cons, List.drop_succ_cons, hForward]
      rw [literal_cons_iff (fun made => some (forward (made.take n) _)) hStart,
        replaceVerbatim_eq_replace_iff, ih hRest, and_iff_right hIncludes]
      exact (and_iff_right rfl).trans and_assoc.symm

structure Patchable (ws : Path) (d : Disk) (fails : Bool) (params : PatchParams) (abs : Path)
    (edits : List EditInput) (content : Text) : Prop where
  resolved : sandboxPath ws params.path = .ok abs
  asked : params.edits = some edits
  nonempty : edits ≠ []
  read : d.readFile (.file abs) fails = some content
  small : codeUnitCount content ≤ 500000

def Binary (content : Text) : Prop := isBinaryBuffer (encode (sliceUnits 8000 content)) = true

structure Quiet (faults : Faults) : Prop where
  write : faults.write 0 = false
  rename : faults.rename 0 = false
  verify : faults.verify 0 = false

def FoundIn (content : Text) (ed : EditInput) : Prop :=
  ∃ e : Edit, ed = e.asked ∧ e.oldText ≠ [] ∧ includes content e.oldText

theorem dryRunEdits_ok_iff (path : Text) (additions deletions : Nat) :
    (∃ counts, dryRunEdits path content additions deletions inputs = .ok counts) ↔
      ∀ ed ∈ inputs, FoundIn content ed := by
  induction inputs generalizing additions deletions with
  | nil => exact iff_of_true ⟨_, rfl⟩ nofun
  | cons ed eds ih =>
    rw [List.forall_mem_cons]
    obtain ⟨_ | oldText, newText⟩ := ed
    · exact iff_of_false nofun fun ⟨⟨_, h, _⟩, _⟩ => nomatch congrArg EditInput.oldText h
    obtain _ | newText := newText
    · exact iff_of_false nofun fun ⟨⟨_, h, _⟩, _⟩ => nomatch congrArg EditInput.newText h
    have hFound : FoundIn content ⟨some oldText, some newText⟩ ↔
        oldText ≠ [] ∧ includes content oldText := by
      constructor
      · rintro ⟨e, hAsked, hFound⟩
        cases hAsked
        exact hFound
      · exact fun h => ⟨⟨oldText, newText⟩, rfl, h⟩
    rw [hFound]
    simp only [dryRunEdits]
    split
    · rename_i hNil
      exact iff_of_false nofun fun h => h.1.1 hNil
    · rename_i hNe
      split
      · rename_i hMissing
        exact iff_of_false nofun fun h => by simp [h.1.2] at hMissing
      · rename_i hIncludes
        rw [and_iff_right ⟨hNe, by simpa using hIncludes⟩]
        split <;> exact ih _ _

section Tool

variable {η : Type} [DecidableEq η] {sha : Text → η} {ws abs : Path} {d d' : Disk} {faults : Faults}
  {stamp : Nat} {params : PatchParams} {edits : List EditInput} {fails : Bool}

theorem Patchable.unique {abs' : Path} {edits' : List EditInput} {content' : Text}
    (h : Patchable ws d fails params abs edits content)
    (h' : Patchable ws d fails params abs' edits' content') :
    abs' = abs ∧ edits' = edits ∧ content' = content := by
  cases h.resolved.symm.trans h'.resolved
  cases h.asked.symm.trans h'.asked
  cases h.read.symm.trans h'.read
  exact ⟨rfl, rfl, rfl⟩

theorem patchable_dryRun (dryRun : Bool) :
    Patchable ws d fails { params with dryRun } abs edits content ↔
      Patchable ws d fails params abs edits content :=
  ⟨fun h => ⟨h.1, h.2, h.3, h.4, h.5⟩, fun h => ⟨h.1, h.2, h.3, h.4, h.5⟩⟩

theorem exists_asked (h : params.edits.getD [] ≠ []) : ∃ edits, params.edits = some edits := by
  cases hEdits : params.edits with
  | none => exact absurd (by rw [hEdits]; rfl) h
  | some edits => exact ⟨edits, rfl⟩

omit [DecidableEq η] in
theorem dryRunPatch_proposed_iff :
    (∃ r, (dryRunPatch ws d fails params : PatchOutcome η) = .proposed r) ↔
      ∃ abs edits content, Patchable ws d fails params abs edits content ∧
        ∀ ed ∈ edits.take 20, FoundIn content ed := by
  constructor
  · rintro ⟨r, h⟩
    unfold dryRunPatch at h
    split at h
    · cases h
    rename_i abs hAbs
    dsimp only at h
    split at h
    · cases h
    rename_i hNonempty
    split at h
    · cases h
    rename_i content hRead
    split at h
    · cases h
    rename_i hSmall
    split at h
    · cases h
    rename_i hLoop
    obtain ⟨edits, hEdits⟩ := exists_asked hNonempty
    rw [hEdits, Option.getD_some] at hNonempty hLoop
    exact ⟨abs, edits, content, ⟨hAbs, hEdits, hNonempty, hRead, Nat.le_of_not_lt hSmall⟩,
      (dryRunEdits_ok_iff params.path 0 0).mp ⟨_, hLoop⟩⟩
  · rintro ⟨abs, edits, content, h, hFound⟩
    obtain ⟨counts, hLoop⟩ := (dryRunEdits_ok_iff params.path 0 0).mpr hFound
    refine ⟨⟨params.path, edits.length, counts.1, counts.2⟩, ?_⟩
    simp only [dryRunPatch, h.resolved, h.asked, Option.getD_some, if_neg h.nonempty, h.read,
      if_neg (Nat.not_lt.mpr h.small), hLoop]

omit [DecidableEq η] in
theorem dryRunPatch_ne_applied {r : PatchResult η} : dryRunPatch ws d fails params ≠ .applied r := by
  unfold dryRunPatch
  split
  · nofun
  dsimp only
  split
  · nofun
  split
  · nofun
  split
  · nofun
  split <;> nofun

omit [DecidableEq η] in
theorem quiet_of_steps {d₁ d₂ : Disk} {r q : FileRef} {verify : Text}
    (hWrite : d.writeFile r after (faults.write 0) = some d₁)
    (hRename : d₁.rename r q (faults.rename 0) = some d₂)
    (hVerify : d₂.readFile q (faults.verify 0) = some verify) : Quiet faults := by
  constructor
  · by_contra hFails
    rw [Disk.writeFile, if_pos (by simpa using hFails)] at hWrite
    cases hWrite
  · by_contra hFails
    rw [Bool.eq_true_of_not_eq_false hFails] at hRename
    cases hRename
  · by_contra hFails
    rw [Disk.readFile, if_pos (by simpa using hFails)] at hVerify
    cases hVerify

theorem writePatch_applied {r : PatchResult η}
    (h : writePatch sha ws d faults stamp params = (.applied r, d')) :
    ∃ abs edits content patched, Patchable ws d (faults.read 0) params abs edits content ∧
      ¬ Binary content ∧ patchEdits params.path content (edits.take 20) = .ok patched ∧
      Quiet faults ∧ r.editsApplied = edits.length ∧ d' (.file abs) = some (encode patched) := by
  unfold writePatch at h
  split at h
  · cases h
  rename_i abs hAbs
  dsimp only at h
  split at h
  · cases h
  rename_i hNonempty
  split at h
  · cases h
  rename_i content hRead
  split at h
  · cases h
  rename_i patched hPatched
  split at h
  · cases h
  rename_i d₁ hWrite
  split at h
  · cases h
  rename_i d₂ hRename
  split at h
  · cases h
  rename_i verify hVerify
  split at h
  · cases h
  cases h
  obtain ⟨edits, hEdits⟩ := exists_asked hNonempty
  rw [hEdits, Option.getD_some] at hNonempty hPatched
  unfold patchContent at hPatched
  split at hPatched
  · cases hPatched
  rename_i hSmall
  split at hPatched
  · cases hPatched
  rename_i hText
  have hTemp : ∀ p, FileRef.file p ≠ .temp abs stamp := nofun
  have hFile := Disk.replaced hTemp hWrite hRename abs
  rw [if_pos rfl] at hFile
  refine ⟨abs, edits, content, patched, ⟨hAbs, hEdits, hNonempty, hRead, Nat.le_of_not_lt hSmall⟩,
    hText, hPatched, quiet_of_steps hWrite hRename hVerify, by rw [hEdits]; rfl, hFile⟩

theorem writePatch_of_found (h : Patchable ws d (faults.read 0) params abs edits content)
    (hText : ¬ Binary content) (hPatched : patchEdits params.path content (edits.take 20) = .ok after)
    (hQuiet : Quiet faults) :
    ∃ r, (writePatch sha ws d faults stamp params).1 = .applied r := by
  have hContent : patchContent params.path edits content = .ok after := by
    rw [patchContent, if_neg (Nat.not_lt.mpr h.small), if_neg (show ¬ isBinaryBuffer _ = true from hText), hPatched]
  have hWrite : d.writeFile (.temp abs stamp) after (faults.write 0) =
      some (d.put (.temp abs stamp) (encode after)) := by rw [Disk.writeFile, hQuiet.write]; rfl
  have hRename : (d.put (.temp abs stamp) (encode after)).rename (.temp abs stamp) (.file abs)
      (faults.rename 0) = some (((d.put (.temp abs stamp) (encode after)).put (.file abs)
        (encode after)).put (.temp abs stamp) none) := by
    simp only [Disk.rename, hQuiet.rename, Disk.put_self]
  have hVerify : (((d.put (.temp abs stamp) (encode after)).put (.file abs)
      (encode after)).put (.temp abs stamp) none).readFile (.file abs) (faults.verify 0) = some after := by
    have hNe : FileRef.file abs ≠ .temp abs stamp := fun h => by cases h
    rw [Disk.readFile, hQuiet.verify, Disk.put_of_ne _ _ hNe, Disk.put_self]
    exact congrArg some (decode_encode after)
  refine ⟨⟨params.path, edits.length, sha content, sha after⟩, ?_⟩
  simp only [writePatch, h.resolved, h.asked, Option.getD_some, if_neg h.nonempty, h.read, hContent,
    hWrite, hRename, hVerify, ne_eq, not_true_eq_false, if_false]

/-- A patch has made its edits literally: it counts edits that are texts, its loop goes literally over
them, and the file is where they lead. -/
def PatchesLiterally (ws : Path) (d d' : Disk) (params : PatchParams) (editsApplied : Nat) : Prop :=
  ∃ (abs : Path) (content : Text) (es : List Edit), sandboxPath ws params.path = .ok abs ∧
    (d (.file abs)).map decode = some content ∧
    params.edits = some (es.map Edit.asked) ∧ editsApplied = es.length ∧
    GoesLiterally (fun inputs => (patchEdits params.path content (inputs.take 20)).toOption) content es ∧
    d' (.file abs) = (literal content es).map encode

/-- The new texts of the first twenty edits stand for themselves, and the other edits replace a text
that is there by itself. -/
def LiteralPatch (ws : Path) (d : Disk) (params : PatchParams) : Prop :=
  ∃ (abs : Path) (content : Text) (es : List Edit), sandboxPath ws params.path = .ok abs ∧
    (d (.file abs)).map decode = some content ∧
    params.edits = some (es.map Edit.asked) ∧ SelfTemplates content (es.take 20) ∧
    ∀ e ∈ es.drop 20, includes (forward (es.take 20) content) e.oldText ∧ e.newText = e.oldText

theorem asked_injective : Function.Injective Edit.asked := by
  intro e e' h
  cases e
  cases h
  rfl

theorem patch_literal_iff {r : PatchResult η}
    (h : writePatch sha ws d faults stamp params = (.applied r, d')) :
    PatchesLiterally ws d d' params r.editsApplied ↔ LiteralPatch ws d params := by
  obtain ⟨abs, edits, content, patched, hPatchable, -, hPatched, -, hCount, hFile⟩ :=
    writePatch_applied h
  obtain ⟨stored, hStored, hDecoded⟩ := Disk.readFile_eq_some hPatchable.read
  obtain ⟨made, hMade, hFound, rfl⟩ := patchEdits_ok hPatched
  have hRun (es : List Edit) (hEdits : edits = es.map Edit.asked) :
      FoundInTurn content (es.take 20) ∧ forward made content = forward (es.take 20) content := by
    rw [hEdits, ← List.map_take] at hMade
    rw [List.map_injective_iff.mpr asked_injective hMade]
    exact ⟨hFound, rfl⟩
  have hLoop (es : List Edit) (hEdits : edits = es.map Edit.asked) :
      GoesLiterally (fun inputs => (patchEdits params.path content (inputs.take 20)).toOption) content es ↔
        ∀ made, made <+: es → some (forward (made.take 20) content) = literal content made := by
    refine forall₂_congr fun made hPrefix => ?_
    dsimp only
    rw [← List.map_take, patchEdits_of_found _ ((hRun es hEdits).1.start (List.IsPrefix.take hPrefix 20))]
    rfl
  constructor
  · rintro ⟨abs', content', es, hAbs, hContent, hEdits, -, hLiteral, -⟩
    cases hPatchable.resolved.symm.trans hAbs
    cases (show some content = some content' by rw [← hContent, hStored, ← hDecoded]; rfl)
    cases hPatchable.asked.symm.trans hEdits
    exact ⟨abs, content, es, hAbs, hContent, hEdits,
      (literal_take_iff (hRun es rfl).1).mp ((hLoop es rfl).mp hLiteral)⟩
  · rintro ⟨abs', content', es, hAbs, hContent, hEdits, hLiteral⟩
    cases hPatchable.resolved.symm.trans hAbs
    cases (show some content = some content' by rw [← hContent, hStored, ← hDecoded]; rfl)
    cases hPatchable.asked.symm.trans hEdits
    have hLeads := (literal_take_iff (hRun es rfl).1).mpr hLiteral
    refine ⟨abs, content, es, hAbs, hContent, hEdits, by rw [hCount, List.length_map],
      (hLoop es rfl).mpr hLeads, ?_⟩
    rw [hFile, (hRun es rfl).2, ← hLeads es List.prefix_rfl]
    rfl

def MadeLiterally (d : Disk) (e : Entry η) : Prop :=
  ∃ content, (d (.file e.abs)).map decode = some content ∧
    GoesLiterally (fun inputs => (proposeEdits e.path content 0 0 inputs).toOption.map Prod.fst) content
      e.edits ∧
    literal content e.edits = some e.afterContent

/-- A proposal has made the edits of its entries literally, and an application that succeeds leaves
each file where the last entry for it leads. -/
def ProposesLiterally (sha : Text → η) (ws : Path) (d : Disk) (s : ChangesetStore η) (cs : Changeset η) :
    Prop :=
  (∀ e ∈ cs.entries, MadeLiterally d e) ∧
  ∀ (s₁ s₂ : ChangesetStore η) (d₁ d₂ : Disk) (faults : Faults) (stamp : Nat → Nat) (now : Int)
    (cs' : Changeset η), s₁.get cs.id = s.get cs.id →
    s₁.apply sha ws d₁ faults stamp cs.id now = (.ok cs', s₂, d₂) →
    ∀ e ∈ cs.entries, ∃ e' ∈ cs.entries, e'.abs = e.abs ∧
      d₂ (.file e.abs) = (((d (.file e.abs)).map decode).bind fun content =>
        literal content e'.edits).map encode

def LiteralProposal (d : Disk) (cs : Changeset η) : Prop :=
  ∀ e ∈ cs.entries, ∀ content, (d (.file e.abs)).map decode = some content →
    SelfTemplates content e.edits

omit [DecidableEq η] in
theorem proposeEdits_asked {next : Text} {additions deletions a b : Nat} {es : List Edit}
    (h : proposeEdits path content additions deletions inputs = .ok (next, a, b, es)) :
    inputs = es.map Edit.asked := by
  induction inputs generalizing content additions deletions next a b es with
  | nil =>
    cases h
    rfl
  | cons ed eds ih =>
    unfold proposeEdits at h
    split at h
    · rename_i oldText newText hOld hNew
      split at h
      · cases h
      split at h
      · cases h
      dsimp only at h
      split at h
      · cases h
      · rename_i hRest
        cases h
        rw [List.map_cons, ← ih hRest, Edit.asked, ← hOld, ← hNew]
    · cases h

omit [DecidableEq η] in
/-- What `propose` has met for each entry. -/
theorem proposeFiles_found {additions deletions a b : Nat} {files : List FileInput}
    {entries : List (Entry η)}
    (h : proposeFiles sha ws d additions deletions files = .ok (a, b, entries)) :
    ∀ e ∈ entries, ∃ content, (d (.file e.abs)).map decode = some content ∧
      FoundInTurn content e.edits ∧ e.afterContent = forward e.edits content := by
  induction files generalizing additions deletions a b entries with
  | nil =>
    cases h
    exact nofun
  | cons f fs ih =>
    unfold proposeFiles at h
    split at h
    · cases h
    simp only at h
    split at h
    · cases h
    split at h
    · cases h
    rename_i content hRead
    split at h
    · cases h
    split at h
    · cases h
    rename_i next a' b' edits hEdits
    split at h
    · cases h
    rename_i rest hRest
    cases h
    refine List.forall_mem_cons.mpr ⟨⟨content, hRead, ?_, ChangesetStore.proposeEdits_forward hEdits⟩,
      ih hRest⟩
    have hPatched := congrArg (Except.map Prod.fst) hEdits
    rw [proposeEdits_eq] at hPatched
    obtain ⟨es, hAsked, hFound, -⟩ := patchEdits_ok hPatched
    rw [proposeEdits_asked hEdits] at hAsked
    rwa [List.map_injective_iff.mpr asked_injective hAsked]

omit [DecidableEq η] in
theorem madeLiterally_iff {e : Entry η} (hContent : (d (.file e.abs)).map decode = some content)
    (hFound : FoundInTurn content e.edits) (hAfter : e.afterContent = forward e.edits content) :
    MadeLiterally d e ↔ SelfTemplates content e.edits := by
  have hTake := List.take_length (l := e.edits)
  have hLoop : GoesLiterally (fun inputs => (proposeEdits e.path content 0 0 inputs).toOption.map Prod.fst)
      content e.edits ↔
        ∀ made, made <+: e.edits → some (forward (made.take e.edits.length) content) =
          literal content made := by
    refine forall₂_congr fun made hPrefix => ?_
    have hPatched := patchEdits_of_found e.path (hFound.start hPrefix)
    rw [← proposeEdits_eq 0 0] at hPatched
    rw [List.take_of_length_le hPrefix.length_le]
    dsimp only
    cases hMade : proposeEdits e.path content 0 0 (made.map Edit.asked) with
    | error err =>
      rw [hMade] at hPatched
      cases hPatched
    | ok p =>
      rw [hMade] at hPatched
      rw [← Except.ok.inj hPatched]
      rfl
  rw [← hTake] at hFound
  have hLiteral := literal_take_iff hFound
  rw [hTake, List.drop_length] at hLiteral
  constructor
  · rintro ⟨content', hContent', hGoes, -⟩
    cases hContent.symm.trans hContent'
    exact (hLiteral.mp (hLoop.mp hGoes)).1
  · intro hSelf
    have hLeads := hLiteral.mpr ⟨hSelf, nofun⟩
    refine ⟨content, hContent, hLoop.mpr hLeads, ?_⟩
    rw [← hLeads e.edits List.prefix_rfl, hTake, hAfter]

theorem propose_literal_iff {s s' : ChangesetStore η} {runId : String}
    {files : Option (List FileInput)} {riskLevel : Option String} {id : ChangesetId} {cs : Changeset η}
    (h : s.propose sha ws d runId files riskLevel id = .ok (s', cs)) :
    ProposesLiterally sha ws d s' cs ↔ LiteralProposal d cs := by
  obtain ⟨hGet, hMade⟩ := ChangesetStore.propose_entries h
  obtain ⟨hId, hFound⟩ : cs.id = id ∧ ∀ e ∈ cs.entries, ∃ content, (d (.file e.abs)).map decode =
      some content ∧ FoundInTurn content e.edits ∧ e.afterContent = forward e.edits content := by
    unfold ChangesetStore.propose at h
    split at h
    · cases h
    split at h
    · cases h
    · cases h
    split at h
    · cases h
    split at h
    · cases h
    rename_i hFiles
    cases h
    exact ⟨rfl, proposeFiles_found hFiles⟩
  have hEach : (∀ e ∈ cs.entries, MadeLiterally d e) ↔ LiteralProposal d cs := by
    refine forall₂_congr fun e he => ?_
    obtain ⟨content, hContent, hTurn, hAfter⟩ := hFound e he
    rw [madeLiterally_iff hContent hTurn hAfter, hContent]
    simp
  refine ⟨fun hProposes => hEach.mp hProposes.1, fun hLiteral => ⟨hEach.mpr hLiteral, ?_⟩⟩
  intro s₁ s₂ d₁ d₂ faults stamp now cs' hKept hApply e he
  subst hId
  obtain ⟨hLoop, -⟩ := ChangesetStore.apply_ok (hKept.trans hGet) hApply
  have hFinal := ChangesetStore.applyEntries_final hMade hLoop e.abs
  obtain ⟨t, hLast⟩ := ChangesetStore.lastAfter_isSome he rfl
  obtain ⟨e', he', hAbs, rfl⟩ := ChangesetStore.lastAfter_mem hLast
  obtain ⟨content, hContent, -, hLeads⟩ := hEach.mpr hLiteral e' he'
  refine ⟨e', he', hAbs, ?_⟩
  rw [hFinal, hLast, ← hAbs, hContent, Option.bind_some, hLeads]
  rfl

/-- The edits that a dry run finds in the file as it is are those that a patch can make. -/
def DryRunAgrees (allowFileWrites : Bool) (ws : Path) (d : Disk) (faults : Faults)
    (params : PatchParams) : Prop :=
  ∀ abs edits content, Patchable ws d (faults.read 0) params abs edits content →
    ((∀ ed ∈ edits.take 20, FoundIn content ed) ↔
      allowFileWrites = true ∧ ¬ Binary content ∧
        (∃ es : List Edit, edits.take 20 = es.map Edit.asked ∧ FoundInTurn content es) ∧ Quiet faults)

theorem handleApplyPatch_proposed_iff {allowFileWrites : Bool} :
    (∃ r, (handleApplyPatch sha allowFileWrites ws d faults stamp { params with dryRun := true }).1 =
      .proposed r) ↔
    ∃ abs edits content, Patchable ws d (faults.read 0) params abs edits content ∧
      ∀ ed ∈ edits.take 20, FoundIn content ed := by
  refine dryRunPatch_proposed_iff.trans ?_
  simp only [patchable_dryRun true]

theorem handleApplyPatch_applied_iff {allowFileWrites : Bool} :
    (∃ r, (handleApplyPatch sha allowFileWrites ws d faults stamp { params with dryRun := false }).1 =
      .applied r) ↔
    ∃ abs edits content, Patchable ws d (faults.read 0) params abs edits content ∧
      allowFileWrites = true ∧ ¬ Binary content ∧
        (∃ es : List Edit, edits.take 20 = es.map Edit.asked ∧ FoundInTurn content es) ∧
        Quiet faults := by
  cases allowFileWrites with
  | false => exact iff_of_false nofun (by simp)
  | true =>
    constructor
    · rintro ⟨r, h⟩
      obtain ⟨abs, edits, content, patched, hPatchable, hText, hPatched, hQuiet, -⟩ :=
        writePatch_applied (Prod.ext h rfl)
      obtain ⟨es, hAsked, hFound, -⟩ := patchEdits_ok hPatched
      exact ⟨abs, edits, content, (patchable_dryRun false).mp hPatchable, rfl, hText,
        ⟨es, hAsked, hFound⟩, hQuiet⟩
    · rintro ⟨abs, edits, content, h, -, hText, ⟨es, hAsked, hFound⟩, hQuiet⟩
      have hPatched := patchEdits_of_found params.path hFound
      rw [← hAsked] at hPatched
      exact writePatch_of_found ((patchable_dryRun false).mpr h) hText hPatched hQuiet

theorem dryRun_agrees_iff {allowFileWrites : Bool} :
    ((∃ r, (handleApplyPatch sha allowFileWrites ws d faults stamp { params with dryRun := true }).1 =
        .proposed r) ↔
      ∃ r, (handleApplyPatch sha allowFileWrites ws d faults stamp { params with dryRun := false }).1 =
        .applied r) ↔
    DryRunAgrees allowFileWrites ws d faults params := by
  rw [handleApplyPatch_proposed_iff, handleApplyPatch_applied_iff]
  constructor
  · intro h abs edits content hPatchable
    constructor
    · intro hFound
      obtain ⟨_, _, _, hSame, hReal⟩ := h.mp ⟨abs, edits, content, hPatchable, hFound⟩
      obtain ⟨-, rfl, rfl⟩ := hPatchable.unique hSame
      exact hReal
    · intro hReal
      obtain ⟨_, _, _, hSame, hFound⟩ := h.mpr ⟨abs, edits, content, hPatchable, hReal⟩
      obtain ⟨-, rfl, rfl⟩ := hPatchable.unique hSame
      exact hFound
  · intro h
    exact exists_congr fun abs => exists_congr fun edits => exists_congr fun content =>
      and_congr_right fun hPatchable => h abs edits content hPatchable

/-- A patch that succeeds has made all the edits it counts literally just if the new texts of the
first twenty stand for themselves and the others change nothing; a proposal and its application just
if its new texts stand for themselves; and a dry run succeeds when the patch does just if the edits
that are in the file as it is are those that can be made in turn, in a file that can be written. -/
theorem edits_literal_iff (sha : Text → η) :
    (∀ (allowFileWrites : Bool) (ws : Path) (d d' : Disk) (faults : Faults) (stamp : Nat)
      (params : PatchParams) (r : PatchResult η),
      handleApplyPatch sha allowFileWrites ws d faults stamp params = (.applied r, d') →
      (PatchesLiterally ws d d' params r.editsApplied ↔ LiteralPatch ws d params)) ∧
    (∀ (ws : Path) (d : Disk) (s s' : ChangesetStore η) (runId : String)
      (files : Option (List FileInput)) (riskLevel : Option String) (id : ChangesetId)
      (cs : Changeset η), s.propose sha ws d runId files riskLevel id = .ok (s', cs) →
      (ProposesLiterally sha ws d s' cs ↔ LiteralProposal d cs)) ∧
    ∀ (allowFileWrites : Bool) (ws : Path) (d : Disk) (faults : Faults) (stamp : Nat)
      (params : PatchParams),
      ((∃ r, (handleApplyPatch sha allowFileWrites ws d faults stamp { params with dryRun := true }).1 =
          .proposed r) ↔
        ∃ r, (handleApplyPatch sha allowFileWrites ws d faults stamp { params with dryRun := false }).1 =
          .applied r) ↔
      DryRunAgrees allowFileWrites ws d faults params := by
  refine ⟨?_, fun _ _ _ _ _ _ _ _ _ h => propose_literal_iff h, fun _ _ _ _ _ _ => dryRun_agrees_iff⟩
  intro allowFileWrites ws d d' faults stamp params r h
  unfold handleApplyPatch at h
  split at h
  · exact absurd (Prod.mk.inj h).1 dryRunPatch_ne_applied
  · split at h
    · cases h
    · exact patch_literal_iff h

theorem PatchesLiterally.file {editsApplied : Nat} (h : PatchesLiterally ws d d' params editsApplied)
    (hAbs : sandboxPath ws params.path = .ok abs) (hContent : (d (.file abs)).map decode = some content)
    (hEdits : params.edits = some (es.map Edit.asked)) :
    d' (.file abs) = (literal content es).map encode := by
  obtain ⟨abs', content', es', hAbs', hContent', hEdits', -, -, hFile⟩ := h
  cases hAbs.symm.trans hAbs'
  cases hContent.symm.trans hContent'
  rw [List.map_injective_iff.mpr asked_injective (Option.some.inj (hEdits.symm.trans hEdits'))]
  exact hFile

end Tool

/-- The request to patch the file `w/f`. -/
def patchOf (edits : List Edit) : PatchParams := ⟨['f'], some (edits.map Edit.asked), false⟩

/-- Twenty-one edits that write `b` for `a` and `a` for `b` by turns. -/
def byTurns : List Edit := (List.replicate 10 [⟨['a'], ['b']⟩, ⟨['b'], ['a']⟩]).flatten ++ [⟨['a'], ['b']⟩]

open ChangesetStore in
/-- A template is expanded, the twenty-first edit is counted and not made, and a dry run finds a text
that an edit before has taken away. -/
theorem edits_not_literal :
    (∃ r d', handleApplyPatch id true [['w']] (oneFile "a") noFaults 0 (patchOf [⟨['a'], ['$', '$']⟩]) =
      (.applied r, d') ∧
      ¬ PatchesLiterally [['w']] (oneFile "a") d' (patchOf [⟨['a'], ['$', '$']⟩]) r.editsApplied) ∧
    (∃ r d', handleApplyPatch id true [['w']] (oneFile "a") noFaults 0 (patchOf byTurns) =
      (.applied r, d') ∧
      ¬ PatchesLiterally [['w']] (oneFile "a") d' (patchOf byTurns) r.editsApplied) ∧
    (∃ r, (handleApplyPatch id true [['w']] (oneFile "a") noFaults 0
      { patchOf [⟨['a'], ['b']⟩, ⟨['a'], ['c']⟩] with dryRun := true }).1 = .proposed r) ∧
    ¬ ∃ r, (handleApplyPatch id true [['w']] (oneFile "a") noFaults 0
      (patchOf [⟨['a'], ['b']⟩, ⟨['a'], ['c']⟩])).1 = .applied r := by
  refine ⟨⟨_, _, rfl, fun h => ?_⟩, ⟨_, _, rfl, fun h => ?_⟩, ⟨_, rfl⟩, nofun⟩
  · exact absurd (h.file rfl rfl rfl) (by decide +kernel)
  · exact absurd (h.file rfl rfl rfl) (by decide +kernel)

end OrchestraAI.Execution
