import OrchestraAI.Execution.Changesets

/-! # Rollback as the inverse of apply

What `propose` puts into the entries, what a successful `apply` leaves in the files,
and when `rollback` takes it back. Two entries may name one file.
-/

namespace OrchestraAI.Execution

open TextReplace Utf8

def Edit.Plain (ed : Edit) : Prop := '$' ∉ ed.oldText ∧ '$' ∉ ed.newText

instance (ed : Edit) : Decidable ed.Plain := inferInstanceAs (Decidable (_ ∧ _))

/-- The new text stands first where it is written, or what stands in between passes the old text
as it passes the new one. -/
def Edit.FoundBack (c : Text) (ed : Edit) : Prop :=
  ∃ before between between' after, cut ed.oldText c = some (before ++ between, after) ∧
    cut ed.newText (before ++ between ++ (ed.newText ++ after)) =
      some (before, between' ++ after) ∧
    between ++ ed.oldText = ed.oldText ++ between'

/-- A deletion is taken back exactly where what it deletes commutes with what stands before. -/
theorem Edit.foundBack_deletion_iff {c oldText before after : Text}
    (hCut : cut oldText c = some (before, after)) :
    Edit.FoundBack c ⟨oldText, []⟩ ↔ before ++ oldText = oldText ++ before := by
  constructor
  · rintro ⟨b, u, w, s, hCut', hFirst, hPass⟩
    rw [hCut, Option.some.injEq, Prod.mk.injEq] at hCut'
    obtain ⟨rfl, rfl⟩ := hCut'
    rw [cut_empty, Option.some.injEq, Prod.mk.injEq] at hFirst
    obtain ⟨rfl, hRest⟩ := hFirst
    rw [List.nil_append, List.nil_append, List.append_left_inj] at hRest
    exact hRest ▸ hPass
  · intro h
    exact ⟨[], before, before, after, hCut, by rw [cut_empty]; rfl, h⟩

namespace ChangesetStore

variable {η : Type} {sha : Text → η} {ws : Path} {text : Path → Text}

/-- An entry that `propose` made when the files held these texts. -/
structure Made (sha : Text → η) (ws : Path) (text : Path → Text) (e : Entry η) : Prop where
  abs : sandboxPath ws e.path = .ok e.abs
  before : e.beforeHash = sha (text e.abs)
  content : e.afterContent = forward e.edits (text e.abs)
  after : e.afterHash = sha e.afterContent
  found : ∀ ed ∈ e.edits.head?, includes (text e.abs) ed.oldText = true

theorem proposeEdits_forward {path next after : Text} {additions deletions a b : Nat}
    {asked : List EditInput} {edits : List Edit}
    (h : proposeEdits path next additions deletions asked = .ok (after, a, b, edits)) :
    after = forward edits next := by
  induction asked generalizing next additions deletions after a b edits with
  | nil =>
    cases h
    rfl
  | cons ed eds ih =>
    unfold proposeEdits at h
    split at h
    · split at h
      · cases h
      split at h
      · cases h
      simp only at h
      split at h
      · cases h
      · rename_i hRest
        cases h
        rw [ih hRest]
        rfl
    · cases h

theorem proposeEdits_found {path next after : Text} {additions deletions a b : Nat}
    {asked : List EditInput} {edits : List Edit}
    (h : proposeEdits path next additions deletions asked = .ok (after, a, b, edits)) :
    ∀ ed ∈ edits.head?, includes next ed.oldText = true := by
  cases asked with
  | nil =>
    cases h
    intro ed hed
    cases hed
  | cons ed eds =>
    unfold proposeEdits at h
    split at h
    · split at h
      · cases h
      split at h
      · cases h
      rename_i hFound
      simp only at h
      split at h
      · cases h
      · cases h
        intro ed' hed
        cases hed
        simpa using hFound
    · cases h

theorem proposeFiles_made {d : Disk} {additions deletions a b : Nat} {files : List FileInput}
    {entries : List (Entry η)}
    (h : proposeFiles sha ws d additions deletions files = .ok (a, b, entries)) :
    ∀ e ∈ entries, Made sha ws (fun p => (d.readFile (.file p) false).getD []) e := by
  induction files generalizing additions deletions a b entries with
  | nil =>
    cases h
    intro e he
    cases he
  | cons f fs ih =>
    unfold proposeFiles at h
    split at h
    · cases h
    rename_i abs hAbs
    simp only at h
    split at h
    · cases h
    split at h
    · cases h
    rename_i content hRead
    split at h
    · cases h
    split at h
    · cases h
    rename_i next a' b' edits hEdits
    split at h
    · cases h
    rename_i rest hRest
    cases h
    intro e he
    cases he with
    | head =>
      constructor
      · exact hAbs
      · simp [hRead]
      · simp [hRead, proposeEdits_forward hEdits]
      · rfl
      · simpa [hRead] using proposeEdits_found hEdits
    | tail _ he => exact ih hRest e he

def lastAfter (p : Path) : List (Entry η) → Option Text
  | [] => none
  | e :: es => (lastAfter p es).or (if e.abs = p then some e.afterContent else none)

theorem lastAfter_isSome {p : Path} {es : List (Entry η)} {e : Entry η} (he : e ∈ es)
    (hp : e.abs = p) : ∃ t, lastAfter p es = some t := by
  induction es with
  | nil => cases he
  | cons e' es ih =>
    cases he with
    | head =>
      cases h : lastAfter p es with
      | none => exact ⟨e.afterContent, by simp [lastAfter, h, hp]⟩
      | some t => exact ⟨t, by simp [lastAfter, h]⟩
    | tail _ he =>
      obtain ⟨t, ht⟩ := ih he
      exact ⟨t, by simp [lastAfter, ht]⟩

theorem lastAfter_mem {p : Path} {es : List (Entry η)} {t : Text} (h : lastAfter p es = some t) :
    ∃ e ∈ es, e.abs = p ∧ e.afterContent = t := by
  induction es with
  | nil => cases h
  | cons e es ih =>
    unfold lastAfter at h
    obtain hLater | ⟨-, hHere⟩ := Option.or_eq_some_iff.mp h
    · obtain ⟨e', he', hBoth⟩ := ih hLater
      exact ⟨e', List.mem_cons_of_mem _ he', hBoth⟩
    · obtain ⟨hp, hText⟩ := Option.ite_none_right_eq_some.mp hHere
      exact ⟨e, List.mem_cons_self, hp, Option.some.inj hText⟩

def Holds (d : Disk) (es : List (Entry η)) : Prop :=
  ∀ e ∈ es, d (.file e.abs) = some (encode e.afterContent)

/-- Entries for one file write the same, and all but the last write what was there. -/
structure Settled (text : Path → Text) (es : List (Entry η)) : Prop where
  same : ∀ e ∈ es, ∀ e' ∈ es, e'.abs = e.abs → e'.afterContent = e.afterContent
  kept : es.Pairwise fun e e' => e'.abs = e.abs → e.afterContent = text e.abs

theorem Settled.tail {e : Entry η} {es : List (Entry η)} (h : Settled text (e :: es)) :
    Settled text es where
  same e he e' he' := h.same e (List.mem_cons_of_mem _ he) e' (List.mem_cons_of_mem _ he')
  kept := (List.pairwise_cons.mp h.kept).2

theorem Holds.next {d d₂ : Disk} {e : Entry η} {es : List (Entry η)} (hSettled : Settled text (e :: es))
    (h : Holds d (e :: es))
    (hd₂ : ∀ p, d₂ (.file p) = if p = e.abs then some (encode (text e.abs)) else d (.file p)) :
    Holds d₂ es := by
  intro e' he'
  rw [hd₂]
  split
  · rename_i hSame
    have hText := (List.pairwise_cons.mp hSettled.kept).1 e' he' hSame
    rw [hSettled.same e List.mem_cons_self e' (List.mem_cons_of_mem _ he') hSame, hText]
  · exact h e' (List.mem_cons_of_mem _ he')

variable [DecidableEq η] {faults : Faults} {stamp : Nat → Nat}

/-- A file that `apply` has written, and how the loop goes on. -/
theorem applyEntries_cons {backups : List (Path × Text)} {i : Nat} {d d' : Disk} {e : Entry η}
    {es : List (Entry η)} (hMade : Made sha ws text e)
    (h : applyEntries sha ws faults stamp backups i d (e :: es) = (none, d')) :
    ∃ content d₂ backups', d (.file e.abs) = some content ∧ sha (decode content) = e.beforeHash ∧
      (∀ p, d₂ (.file p) = if p = e.abs then some (encode e.afterContent) else d (.file p)) ∧
      applyEntries sha ws faults stamp backups' (i + 1) d₂ es = (none, d') := by
  unfold applyEntries at h
  rw [hMade.abs] at h
  simp only at h
  split at h
  · cases h
  rename_i current hRead
  split at h
  · cases h
  rename_i hHash
  split at h
  · cases h
  rename_i d₁ hWrite
  split at h
  · cases h
  rename_i d₂ hRename
  split at h
  · cases h
  split at h
  · cases h
  obtain ⟨content, hContent, hDecode⟩ := Disk.readFile_eq_some hRead
  have hReplaced := Disk.replaced (fun _ hEq => by cases hEq) hWrite hRename
  refine ⟨content, d₂, _, hContent, ?_, hReplaced, h⟩
  rw [hDecode]
  exact not_not.mp hHash

/-- The loop of `apply` does not stop early with success. -/
theorem applyEntries_ne_ok {backups : List (Path × Text)} {i : Nat} {d d' : Disk}
    {es : List (Entry η)} {cs : Changeset η} :
    applyEntries sha ws faults stamp backups i d es ≠ (some (.ok cs), d') := by
  induction es generalizing backups i d with
  | nil =>
    intro h
    cases h
  | cons e es ih =>
    intro h
    unfold applyEntries at h
    split at h
    · cases h
    split at h
    · cases h
    split at h
    · cases h
    split at h
    · cases h
    split at h
    · cases h
    split at h
    · cases h
    split at h
    · cases h
    · exact ih h

theorem applyEntries_final {backups : List (Path × Text)} {i : Nat} {d d' : Disk}
    {es : List (Entry η)} (hMade : ∀ e ∈ es, Made sha ws text e)
    (h : applyEntries sha ws faults stamp backups i d es = (none, d')) (p : Path) :
    d' (.file p) = match lastAfter p es with
      | some t => some (encode t)
      | none => d (.file p) := by
  induction es generalizing backups i d with
  | nil =>
    cases h
    rfl
  | cons e es ih =>
    obtain ⟨content, d₂, backups', -, -, hReplaced, hRest⟩ :=
      applyEntries_cons (hMade e List.mem_cons_self) h
    rw [ih (fun e he => hMade e (List.mem_cons_of_mem _ he)) hRest, hReplaced]
    have hCons : lastAfter p (e :: es) =
        (lastAfter p es).or (if e.abs = p then some e.afterContent else none) := rfl
    rw [hCons]
    cases lastAfter p es with
    | some t => rfl
    | none =>
      simp only [Option.none_or, eq_comm]
      split <;> rfl

omit [DecidableEq η] in
theorem propose_entries {s s' : ChangesetStore η} {d : Disk} {runId : String}
    {files : Option (List FileInput)} {riskLevel : Option String} {id : ChangesetId}
    {cs : Changeset η} (h : s.propose sha ws d runId files riskLevel id = .ok (s', cs)) :
    s'.get id = some cs ∧
      ∀ e ∈ cs.entries, Made sha ws (fun p => (d.readFile (.file p) false).getD []) e := by
  unfold propose at h
  split at h
  · cases h
  split at h
  · cases h
  · cases h
  split at h
  · cases h
  split at h
  · cases h
  rename_i hFiles
  cases h
  exact ⟨OrderedMap.get_set_self _ _ _, proposeFiles_made hFiles⟩

theorem apply_ok {s s' : ChangesetStore η} {d d' : Disk} {id : ChangesetId} {now : Int}
    {record cs : Changeset η} (hGet : s.get id = some record)
    (h : s.apply sha ws d faults stamp id now = (.ok cs, s', d')) :
    applyEntries sha ws faults stamp [] 0 d record.entries = (none, d') ∧
      ∃ applied, s'.get id = some applied ∧ applied.status = .applied ∧
        applied.entries = record.entries := by
  unfold apply at h
  rw [hGet] at h
  simp only at h
  split at h
  · cases h
  split at h
  · rename_i hLoop
    cases h
    exact ⟨hLoop, _, OrderedMap.get_set_self _ _ _, rfl, rfl⟩
  · cases h
  · rename_i hLoop
    cases h
    exact absurd hLoop applyEntries_ne_ok

/-- The disk with one file `w/f`. -/
def oneFile (content : String) : Disk := fun r =>
  if r = .file [['w'], ['f']] then some (encode content.toList) else none

def oneEdit (oldText newText : String) : List FileInput :=
  [⟨['f'], some [⟨some oldText.toList, some newText.toList⟩]⟩]

end ChangesetStore

end OrchestraAI.Execution
