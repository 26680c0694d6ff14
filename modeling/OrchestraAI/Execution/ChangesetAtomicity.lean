import OrchestraAI.Execution.ChangesetRollback

/-! # All or nothing

What a failed `apply` and a failed `rollback` leave behind, whichever steps of their
loops fail. A backup holds the decoded text of a file, so restoring rewrites bytes
that were no text; `rollback` has no restoring at all.
-/

namespace OrchestraAI.Execution

open Utf8

namespace ChangesetStore

variable {η : Type} {sha : Text → η} {ws : Path} {text : Path → Text}

/-- The files that `apply` backs up unless a step fails: those of the entries up to the first
that meets another text. -/
def backedUp [DecidableEq η] (sha : Text → η) (ws : Path) : Disk → List (Entry η) → List Path
  | _, [] => []
  | d, e :: es =>
    match sandboxPath ws e.path with
    | .error _ => []
    | .ok abs =>
      match d.readFile (.file abs) false with
      | none => []
      | some current =>
        if sha current ≠ e.beforeHash then []
        else abs :: backedUp sha ws (d.put (.file abs) (encode e.afterContent)) es

theorem restore_file {d : Disk} {backups : List (Path × Text)}
    (hText : ∀ b ∈ backups, b.2 = text b.1) (p : Path) :
    restore d backups (.file p) =
      if p ∈ backups.map Prod.fst then some (encode (text p)) else d (.file p) := by
  induction backups generalizing d with
  | nil => rfl
  | cons b bs ih =>
    have hTail : ∀ b ∈ bs, b.2 = text b.1 := fun b hb => hText b (List.mem_cons_of_mem _ hb)
    have hStep : (d.put (.file b.1) (encode b.2)).put (.tempRestore b.1) none (.file p) =
        if p = b.1 then some (encode (text p)) else d (.file p) := by
      rw [Disk.put_of_ne _ _ (by simp)]
      by_cases hp : p = b.1
      · rw [hp, Disk.put_self, if_pos rfl, hText b List.mem_cons_self]
      · rw [Disk.put_of_ne _ _ (by simpa using hp), if_neg hp]
    change restore ((d.put (.file b.1) (encode b.2)).put (.tempRestore b.1) none) bs (.file p) = _
    rw [ih hTail, hStep, List.map_cons]
    by_cases hLater : p ∈ bs.map Prod.fst
    · rw [if_pos hLater, if_pos (List.mem_cons_of_mem _ hLater)]
    · rw [if_neg hLater]
      by_cases hp : p = b.1
      · rw [if_pos hp, if_pos (hp ▸ List.mem_cons_self)]
      · rw [if_neg hp, if_neg (List.not_mem_cons_of_ne_of_not_mem hp hLater)]

/-- What the loop of `apply` has backed up on its way from a disk. -/
structure BackedUp (text : Path → Text) (d₀ d : Disk) (backups : List (Path × Text)) : Prop where
  decoded : ∀ b ∈ backups, b.2 = text b.1
  kept : ∀ p ∉ backups.map Prod.fst, d (.file p) = d₀ (.file p)
  sound : ∀ b ∈ backups, d₀ (.file b.1) = some (encode (text b.1))

theorem BackedUp.restored {d₀ d : Disk} {backups : List (Path × Text)}
    (h : BackedUp text d₀ d backups) (p : Path) :
    restore d backups (.file p) = d₀ (.file p) := by
  rw [restore_file h.decoded]
  split
  · rename_i hMem
    obtain ⟨b, hb, rfl⟩ := List.mem_map.mp hMem
    exact (h.sound b hb).symm
  · rename_i hNew
    exact h.kept p hNew

theorem BackedUp.push {d₀ d d' : Disk} {backups : List (Path × Text)} {p : Path}
    (h : BackedUp text d₀ d backups) (hSound : d₀ (.file p) = some (encode (text p)))
    (hOther : ∀ q ≠ p, d' (.file q) = d (.file q)) :
    BackedUp text d₀ d' (backups ++ [(p, text p)]) where
  decoded b hb := by
    obtain hb | hb := List.mem_append.mp hb
    · exact h.decoded b hb
    · obtain rfl := List.mem_singleton.mp hb
      rfl
  kept q hq := by
    simp only [List.map_append, List.map_cons, List.map_nil, List.mem_append,
      List.mem_singleton, not_or] at hq
    rw [hOther q hq.2, h.kept q hq.1]
  sound b hb := by
    obtain hb | hb := List.mem_append.mp hb
    · exact h.sound b hb
    · obtain rfl := List.mem_singleton.mp hb
      exact hSound

variable [DecidableEq η] {faults : Faults} {stamp : Nat → Nat}

theorem backedUp_congr {d d' : Disk} (h : ∀ p, d' (.file p) = d (.file p)) (es : List (Entry η)) :
    backedUp sha ws d' es = backedUp sha ws d es := by
  induction es generalizing d d' with
  | nil => rfl
  | cons e es ih =>
    unfold backedUp
    split
    · rfl
    rename_i abs _
    have hRead : d'.readFile (.file abs) false = d.readFile (.file abs) false := by
      simp only [Disk.readFile, h]
    rw [hRead]
    split
    · rfl
    split
    · rfl
    · rw [ih fun p => ?_]
      by_cases hp : FileRef.file p = .file abs
      · rw [hp, Disk.put_self, Disk.put_self]
      · rw [Disk.put_of_ne _ _ hp, Disk.put_of_ne _ _ hp, h]

theorem put_file (d : Disk) (p q : Path) (t : Text) :
    d.put (.file q) (encode t) (.file p) = if p = q then some (encode t) else d (.file p) := by
  by_cases hp : p = q
  · rw [hp, Disk.put_self, if_pos rfl]
  · rw [Disk.put_of_ne _ _ (by simpa using hp), if_neg hp]

/-- A loop that stops early restores every file, if what it backs up is well formed. -/
theorem applyEntries_restores (hSha : Function.Injective sha) {d₀ d d' : Disk}
    {backups : List (Path × Text)} {i : Nat} {es : List (Entry η)} {result : ApplyResult η}
    (hMade : ∀ e ∈ es, Made sha ws text e) (hBacked : BackedUp text d₀ d backups)
    (hWell : ∀ p ∈ backedUp sha ws d es, ∀ content, d₀ (.file p) = some content →
      WellFormed content)
    (h : applyEntries sha ws faults stamp backups i d es = (some result, d')) :
    ∀ p, d' (.file p) = d₀ (.file p) := by
  induction es generalizing backups i d with
  | nil => cases h
  | cons e es ih =>
    have hMade₀ := hMade e List.mem_cons_self
    unfold applyEntries at h
    unfold backedUp at hWell
    rw [hMade₀.abs] at h hWell
    simp only at h hWell
    split at h
    · cases h
      exact hBacked.restored
    rename_i current hRead
    obtain ⟨content, hContent, rfl⟩ := Disk.readFile_eq_some hRead
    have hRead' : d.readFile (.file e.abs) false = some (decode content) := by
      simp [Disk.readFile, hContent]
    rw [hRead'] at hWell
    simp only at hWell
    split at h
    · cases h
      exact hBacked.restored
    rename_i hHash
    rw [if_neg hHash] at hWell
    have hText : decode content = text e.abs := hSha ((not_not.mp hHash).trans hMade₀.before)
    have hSound : d₀ (.file e.abs) = some (encode (text e.abs)) := by
      by_cases hOld : e.abs ∈ backups.map Prod.fst
      · obtain ⟨b, hb, hAbs⟩ := List.mem_map.mp hOld
        exact hAbs ▸ hBacked.sound b hb
      · have hFirst := (hBacked.kept _ hOld).symm.trans hContent
        rw [hFirst, ← hText]
        exact congrArg some (hWell e.abs List.mem_cons_self content hFirst).symm
    rw [hText] at h
    have hPush {d₁ : Disk} (hOther : ∀ q ≠ e.abs, d₁ (.file q) = d (.file q)) :=
      hBacked.push hSound hOther
    split at h
    · cases h
      exact (hPush fun _ _ => rfl).restored
    rename_i d₁ hWrite
    split at h
    · cases h
      apply (hPush fun q _ => ?_).restored
      rw [Disk.writeFile_eq_some hWrite, Disk.put_of_ne _ _ (by simp)]
    rename_i d₂ hRename
    have hReplaced := Disk.replaced (fun _ hEq => by cases hEq) hWrite hRename
    have hNext := hPush fun q hq => (hReplaced q).trans (if_neg hq)
    split at h
    · cases h
      exact hNext.restored
    split at h
    · cases h
      exact hNext.restored
    · apply ih (fun e he => hMade e (List.mem_cons_of_mem _ he)) hNext ?_ h
      intro p hp
      rw [backedUp_congr (fun q => (hReplaced q).trans (put_file d q e.abs _).symm)] at hp
      exact hWell p (List.mem_cons_of_mem _ hp)

def failingWrite (k : Nat) : Faults := { noFaults with write := fun n => n = k }

/-- Wherever `apply` backs a file up, a failing write makes it restore the decoded text. -/
theorem applyEntries_decoded (hSha : Function.Injective sha) {d : Disk} {p : Path} {i : Nat}
    {backups : List (Path × Text)} {es : List (Entry η)}
    (hMade : ∀ e ∈ es, Made sha ws text e) (hText : ∀ b ∈ backups, b.2 = text b.1)
    (hp : p ∈ backedUp sha ws d es) :
    ∃ k ≥ i, ∃ result d', applyEntries sha ws (failingWrite k) stamp backups i d es =
      (some result, d') ∧ d' (.file p) = some (encode (text p)) := by
  induction es generalizing backups i d with
  | nil => cases hp
  | cons e es ih =>
    have hMade₀ := hMade e List.mem_cons_self
    unfold backedUp at hp
    rw [hMade₀.abs] at hp
    simp only at hp
    split at hp
    · cases hp
    rename_i current hRead
    split at hp
    · cases hp
    rename_i hHash
    have hCurrent : current = text e.abs := hSha ((not_not.mp hHash).trans hMade₀.before)
    subst hCurrent
    have hAll : ∀ b ∈ backups ++ [(e.abs, text e.abs)], b.2 = text b.1 := by
      intro b hb
      obtain hb | hb := List.mem_append.mp hb
      · exact hText b hb
      · obtain rfl := List.mem_singleton.mp hb
        rfl
    cases hp with
    | head =>
      refine ⟨i, le_rfl, ?_⟩
      unfold applyEntries
      rw [hMade₀.abs]
      simp only [failingWrite, noFaults, hRead, if_neg hHash, Disk.writeFile, decide_true, if_true]
      refine ⟨_, _, rfl, ?_⟩
      rw [restore_file hAll, if_pos (by simp)]
    | tail _ hp =>
      obtain ⟨d₂, hRename⟩ : ∃ d₂, (d.put (.temp e.abs (stamp i)) (encode e.afterContent)).rename
          (.temp e.abs (stamp i)) (.file e.abs) false = some d₂ := by
        simp [Disk.rename]
      have hWrite : d.writeFile (.temp e.abs (stamp i)) e.afterContent false =
          some (d.put (.temp e.abs (stamp i)) (encode e.afterContent)) := rfl
      have hReplaced := Disk.replaced (fun _ hEq => by cases hEq) hWrite hRename
      have hVerify : d₂.readFile (.file e.abs) false = some e.afterContent := by
        simp [Disk.readFile, hReplaced]
      rw [← backedUp_congr (fun q => (hReplaced q).trans (put_file d q e.abs _).symm)] at hp
      obtain ⟨k, hk, result, d', hLoop, hFile⟩ := ih (i := i + 1)
        (fun e he => hMade e (List.mem_cons_of_mem _ he)) hAll hp
      have hPasses : (failingWrite k).write i = false := by
        simp only [failingWrite, decide_eq_false_iff_not]
        omega
      refine ⟨k, by omega, result, d', ?_, hFile⟩
      unfold applyEntries
      rw [hMade₀.abs]
      simp only [hPasses, hWrite]
      simp only [failingWrite, noFaults] at hLoop ⊢
      simp only [hRead, if_neg hHash, hRename, hVerify, hMade₀.after, ne_eq, not_true_eq_false,
        if_false]
      exact hLoop

theorem mem_of_backedUp {d : Disk} {p : Path} {es : List (Entry η)}
    (hMade : ∀ e ∈ es, Made sha ws text e) (hp : p ∈ backedUp sha ws d es) :
    ∃ e ∈ es, e.abs = p := by
  induction es generalizing d with
  | nil => cases hp
  | cons e es ih =>
    unfold backedUp at hp
    rw [(hMade e List.mem_cons_self).abs] at hp
    simp only at hp
    split at hp
    · cases hp
    split at hp
    · cases hp
    cases hp with
    | head => exact ⟨e, List.mem_cons_self, rfl⟩
    | tail _ hp =>
      obtain ⟨e', he', rfl⟩ := ih (fun e he => hMade e (List.mem_cons_of_mem _ he)) hp
      exact ⟨e', List.mem_cons_of_mem _ he', rfl⟩

/-- Where a record stands when `apply` takes it up. -/
def Appliable (status : ChangesetStatus) : Prop :=
  status ∈ [.proposed, .dryRun, .approved, ChangesetStatus.failed]

/-- What `apply` reports and leaves when its loop stops early. -/
theorem apply_of_stopped {s : ChangesetStore η} {d d' : Disk} {id : ChangesetId} (now : Int)
    {record : Changeset η} {result : ApplyResult η} (hGet : s.get id = some record)
    (hStatus : Appliable record.status)
    (hLoop : applyEntries sha ws faults stamp [] 0 d record.entries = (some result, d')) :
    (s.apply sha ws d faults stamp id now).1 = result ∧
      (s.apply sha ws d faults stamp id now).2.2 = d' := by
  unfold Appliable at hStatus
  unfold apply
  rw [hGet]
  simp only
  rw [if_neg (not_not.mpr hStatus), hLoop]
  cases result with
  | _ => exact ⟨rfl, rfl⟩

/-- A failed `apply` has left the disk alone or stopped early. -/
theorem apply_failed {s : ChangesetStore η} {d : Disk} {id : ChangesetId} {now : Int}
    {record : Changeset η} (hGet : s.get id = some record)
    (h : (s.apply sha ws d faults stamp id now).1.isOk = false) :
    (s.apply sha ws d faults stamp id now).2.2 = d ∨
      Appliable record.status ∧ ∃ result d',
        applyEntries sha ws faults stamp [] 0 d record.entries = (some result, d') ∧
          (s.apply sha ws d faults stamp id now).2.2 = d' := by
  by_cases hStatus : Appliable record.status
  · cases hLoop : applyEntries sha ws faults stamp [] 0 d record.entries with
    | mk stopped d' =>
      cases stopped with
      | some result =>
        exact .inr ⟨hStatus, result, d', rfl, (apply_of_stopped now hGet hStatus hLoop).2⟩
      | none =>
        unfold Appliable at hStatus
        unfold apply at h
        rw [hGet] at h
        simp only at h
        rw [if_neg (not_not.mpr hStatus), hLoop] at h
        cases h
  · unfold Appliable at hStatus
    unfold apply
    rw [hGet]
    simp only
    rw [if_pos hStatus]
    exact .inl rfl

theorem apply_restores_iff (hSha : Function.Injective sha) {s : ChangesetStore η} {d : Disk}
    {id : ChangesetId} {record : Changeset η} (hGet : s.get id = some record)
    (hMade : ∀ e ∈ record.entries, Made sha ws text e) :
    (∀ faults stamp now, (s.apply sha ws d faults stamp id now).1.isOk = false →
      ∀ e ∈ record.entries,
        (s.apply sha ws d faults stamp id now).2.2 (.file e.abs) = d (.file e.abs)) ↔
    (Appliable record.status → ∀ p ∈ backedUp sha ws d record.entries, ∀ content,
      d (.file p) = some content → WellFormed content) := by
  constructor
  · intro hAtomic hStatus p hp content hContent
    obtain ⟨e, he, rfl⟩ := mem_of_backedUp hMade hp
    have hDecoded : ∃ k ≥ 0, ∃ result d', applyEntries sha ws (failingWrite k) (fun _ => 0) [] 0 d
        record.entries = (some result, d') ∧ d' (.file e.abs) = some (encode (text e.abs)) :=
      applyEntries_decoded hSha hMade (fun b hb => by cases hb) hp
    obtain ⟨k, -, result, d', hLoop, hFile⟩ := hDecoded
    obtain ⟨hResult, hDisk⟩ := apply_of_stopped 0 hGet hStatus hLoop
    have hFailed : result.isOk = false := by
      cases result with
      | ok cs => exact absurd hLoop applyEntries_ne_ok
      | _ => rfl
    have hSame := hAtomic (failingWrite k) (fun _ => 0) 0 (by rw [hResult, hFailed]) e he
    rw [hDisk, hFile, hContent, Option.some.injEq] at hSame
    rw [← hSame]
    exact wellFormed_encode _
  · intro hWell faults stamp now hFailed e he
    obtain hDisk | ⟨hStatus, result, d', hLoop, hDisk⟩ := apply_failed hGet hFailed
    · rw [hDisk]
    · have hNone : BackedUp text d d [] := by
        constructor
        · intro b hb
          cases hb
        · intro p _
          rfl
        · intro b hb
          cases hb
      rw [hDisk]
      exact applyEntries_restores hSha hMade hNone (hWell hStatus) hLoop e.abs

/-- `rollback` would put other bytes in the place of what the file holds. -/
def Rewrites (sha : Text → η) (d : Disk) (e : Entry η) : Prop :=
  ∃ content, d (.file e.abs) = some content ∧ sha (decode content) = e.afterHash ∧
    sha (backward e.edits e.afterContent) = e.beforeHash ∧
    encode (backward e.edits e.afterContent) ≠ content

theorem rollbackEntries_unread (faults : Faults) {i : Nat} {d : Disk} {p : Progress}
    {es : List (Entry η)} (rest : List (Entry η)) (hMade : ∀ e ∈ es, Made sha ws text e)
    (hFails : ∀ k, i ≤ k → k < i + es.length → faults.read k = true) :
    rollbackEntries sha ws faults i d p (es ++ rest) = rollbackEntries sha ws faults
      (i + es.length) d ⟨p.conflicts ++ es.map fun e => (e.path, true), p.restored⟩ rest := by
  induction es generalizing i p with
  | nil => simp
  | cons e es ih =>
    have hRead : d.readFile (.file e.abs) (faults.read i) = none := by
      rw [hFails i le_rfl (by simp), Disk.readFile, if_pos rfl]
    rw [List.cons_append]
    conv_lhs => unfold rollbackEntries
    rw [(hMade e List.mem_cons_self).abs]
    simp only [hRead]
    rw [ih (fun e he => hMade e (List.mem_cons_of_mem _ he)) fun k hk hk' => hFails k (by omega)
      (by rw [List.length_cons]; omega)]
    simp only [List.length_cons, List.map_cons, List.append_assoc, List.singleton_append]
    rw [show i + 1 + es.length = i + (es.length + 1) by omega]

theorem rollbackEntries_changes {i : Nat} {d d' : Disk} {p : Progress} {r : Except FsError Progress}
    {es : List (Entry η)} (hMade : ∀ e ∈ es, Made sha ws text e)
    (h : rollbackEntries sha ws faults i d p es = (r, d')) {q : Path}
    (hChanged : d' (.file q) ≠ d (.file q)) : ∃ e ∈ es, e.abs = q ∧ Rewrites sha d e := by
  induction es generalizing i d p with
  | nil =>
    cases h
    exact absurd rfl hChanged
  | cons e es ih =>
    have hRest {d₂ : Disk} {j : Nat} {p₂ : Progress}
        (hSame : d₂ (.file q) = d (.file q))
        (h : rollbackEntries sha ws faults j d₂ p₂ es = (r, d')) :
        ∃ e ∈ es, e.abs = q ∧ Rewrites sha d e := by
      obtain ⟨e', he', rfl, content, hContent, hRewrites⟩ :=
        ih (fun e he => hMade e (List.mem_cons_of_mem _ he)) h (by rwa [hSame])
      exact ⟨e', he', rfl, content, hSame ▸ hContent, hRewrites⟩
    have hMore (h : ∃ e ∈ es, e.abs = q ∧ Rewrites sha d e) :
        ∃ e' ∈ e :: es, e'.abs = q ∧ Rewrites sha d e' := by
      obtain ⟨e', he', hBoth⟩ := h
      exact ⟨e', List.mem_cons_of_mem _ he', hBoth⟩
    unfold rollbackEntries at h
    rw [(hMade e List.mem_cons_self).abs] at h
    simp only at h
    split at h
    · exact hMore (hRest rfl h)
    rename_i current hRead
    obtain ⟨content, hContent, rfl⟩ := Disk.readFile_eq_some hRead
    split at h
    · exact hMore (hRest rfl h)
    split at h
    · rename_i hAfter
      split at h
      · cases h
        exact absurd rfl hChanged
      rename_i original hOriginal
      split at h
      · cases h
        exact absurd rfl hChanged
      rename_i d₁ hWrite
      split at h
      · cases h
        rw [Disk.writeFile_eq_some hWrite, Disk.put_of_ne _ _ (by simp)] at hChanged
        exact absurd rfl hChanged
      rename_i d₂ hRename
      have hReplaced := Disk.replaced (fun _ hEq => by cases hEq) hWrite hRename q
      by_cases hSame : d₂ (.file q) = d (.file q)
      · exact hMore (hRest hSame h)
      · by_cases hq : q = e.abs
        · subst hq
          rw [if_pos rfl] at hReplaced
          unfold reconstructBefore at hOriginal
          simp only at hOriginal
          split at hOriginal
          · cases hOriginal
          rename_i hIntegrity
          cases hOriginal
          refine ⟨e, List.mem_cons_self, rfl, content, hContent, hAfter, not_not.mp hIntegrity, ?_⟩
          rintro rfl
          exact hSame (hReplaced.trans hContent.symm)
        · rw [if_neg hq] at hReplaced
          exact absurd hReplaced hSame
    · exact hMore (hRest rfl h)

theorem rollbackEntries_rewrites (faults : Faults) {i : Nat} {d : Disk} {p : Progress}
    {e : Entry η} (es : List (Entry η)) (hMade : Made sha ws text e) (hRewrites : Rewrites sha d e)
    (hRead : faults.read i = false) (hWrite : faults.write i = false)
    (hRename : faults.rename i = false) :
    ∃ d₂, (∀ q, d₂ (.file q) = if q = e.abs then
        some (encode (backward e.edits e.afterContent)) else d (.file q)) ∧
      rollbackEntries sha ws faults i d p (e :: es) =
        rollbackEntries sha ws faults (i + 1) d₂ ⟨p.conflicts, p.restored ++ [e.path]⟩ es := by
  obtain ⟨content, hContent, hAfter, hIntegrity, -⟩ := hRewrites
  have hOriginal : reconstructBefore sha e = .ok (backward e.edits e.afterContent) := by
    unfold reconstructBefore
    simp only
    rw [if_neg (not_not.mpr hIntegrity)]
  obtain ⟨d₁, hWritten⟩ : ∃ d₁, d.writeFile (.tempRollback e.abs)
      (backward e.edits e.afterContent) (faults.write i) = some d₁ := by
    simp [Disk.writeFile, hWrite]
  obtain ⟨d₂, hRenamed⟩ : ∃ d₂, d₁.rename (.tempRollback e.abs) (.file e.abs) (faults.rename i) =
      some d₂ := by
    rw [Disk.writeFile_eq_some hWritten]
    simp [Disk.rename, hRename]
  refine ⟨d₂, Disk.replaced (fun _ hEq => by cases hEq) hWritten hRenamed, ?_⟩
  have hFound : d.readFile (.file e.abs) (faults.read i) = some (decode content) := by
    simp [Disk.readFile, hRead, hContent]
  conv_lhs => unfold rollbackEntries
  rw [hMade.abs]
  simp only [hFound]
  rw [if_neg (fun h => h.1 hAfter), if_pos hAfter, hOriginal]
  simp only [hWritten, hRenamed]

def onlyRead (k : Nat) : Faults := { noFaults with read := fun n => n ≠ k }

theorem rollbackEntries_blocked {d : Disk} {es : List (Entry η)} {e : Entry η}
    (hMade : ∀ e ∈ es, Made sha ws text e) (he : e ∈ es) (hRewrites : Rewrites sha d e) :
    ∃ k p d', rollbackEntries sha ws (onlyRead k) 0 d ⟨[], []⟩ es = (.ok p, d') ∧
      d' (.file e.abs) ≠ d (.file e.abs) ∧ (1 < es.length → p.conflicts ≠ []) := by
  obtain ⟨before, after, rfl⟩ := List.append_of_mem he
  have hBefore : ∀ e ∈ before, Made sha ws text e := fun e he =>
    hMade e (List.mem_append_left _ he)
  have hAfter : ∀ e ∈ after, Made sha ws text e := fun e he =>
    hMade e (List.mem_append_right _ (List.mem_cons_of_mem _ he))
  obtain ⟨d₂, hFile, hStep⟩ := rollbackEntries_rewrites (onlyRead before.length)
    (i := before.length) (p := ⟨before.map fun e => (e.path, true), []⟩) after (hMade e he) hRewrites (by simp [onlyRead]) rfl rfl
  have hRest := rollbackEntries_unread (onlyRead before.length) (i := before.length + 1)
    (d := d₂) (p := ⟨before.map fun e => (e.path, true), [e.path]⟩) [] hAfter
    fun k hk _ => by simp only [onlyRead, decide_eq_true_eq]; omega
  rw [List.append_nil] at hRest
  refine ⟨before.length, ⟨before.map (fun e => (e.path, true)) ++ after.map fun e => (e.path, true),
    [e.path]⟩, d₂, ?_, ?_, ?_⟩
  · rw [rollbackEntries_unread _ _ hBefore fun k _ hk => by
      simp only [onlyRead, decide_eq_true_eq]; omega]
    simp only [Nat.zero_add, List.nil_append]
    rw [hStep]
    simp only [List.nil_append]
    rw [hRest]
    rfl
  · obtain ⟨content, hContent, -, -, hOther⟩ := hRewrites
    rw [hFile, if_pos rfl, hContent]
    exact fun hEq => hOther (Option.some.inj hEq)
  · intro hLength hEmpty
    simp only [List.append_eq_nil_iff, List.map_eq_nil_iff] at hEmpty
    rw [hEmpty.1, hEmpty.2] at hLength
    exact absurd hLength (by simp)

theorem rollbackEntries_single {d : Disk} {e : Entry η} {q : Path}
    (hChanged : (rollbackEntries sha ws faults 0 d ⟨[], []⟩ [e]).2 (.file q) ≠ d (.file q)) :
    (rollbackEntries sha ws faults 0 d ⟨[], []⟩ [e]).1 = .ok ⟨[], [e.path]⟩ := by
  unfold rollbackEntries at hChanged ⊢
  split
  · rename_i hAbs
    simp only [hAbs] at hChanged
    exact absurd rfl hChanged
  rename_i abs hAbs
  simp only [hAbs] at hChanged
  split
  · rename_i hRead
    simp only [hRead] at hChanged
    exact absurd rfl hChanged
  rename_i current hRead
  simp only [hRead] at hChanged
  split
  · rename_i hKnown
    rw [if_pos hKnown] at hChanged
    exact absurd rfl hChanged
  rename_i hKnown
  rw [if_neg hKnown] at hChanged
  split
  · rename_i hAfter
    rw [if_pos hAfter] at hChanged
    split
    · rename_i hOriginal
      simp only [hOriginal] at hChanged
      exact absurd rfl hChanged
    rename_i original hOriginal
    simp only [hOriginal] at hChanged
    split
    · rename_i hWrite
      simp only [hWrite] at hChanged
      exact absurd rfl hChanged
    rename_i d₁ hWrite
    simp only [hWrite] at hChanged
    split
    · rename_i hRename
      simp only [hRename] at hChanged
      rw [Disk.writeFile_eq_some hWrite, Disk.put_of_ne _ _ (by simp)] at hChanged
      exact absurd rfl hChanged
    · rfl
  · rename_i hAfter
    rw [if_neg hAfter] at hChanged
    exact absurd rfl hChanged

theorem rollback_eq (faults : Faults) {s : ChangesetStore η} (d : Disk) {id : ChangesetId}
    {record : Changeset η} (hGet : s.get id = some record) :
    (record.status ≠ .applied ∧ (s.rollback sha ws d faults id).2.2 = d) ∨
    (record.status = .applied ∧ (s.rollback sha ws d faults id).2.2 =
        (rollbackEntries sha ws faults 0 d ⟨[], []⟩ record.entries).2 ∧
      ((s.rollback sha ws d faults id).1.isOk = true ↔ ∃ restored,
        (rollbackEntries sha ws faults 0 d ⟨[], []⟩ record.entries).1 = .ok ⟨[], restored⟩)) := by
  unfold rollback
  rw [hGet]
  simp only
  by_cases hStatus : record.status = .applied
  · rw [if_neg (not_not.mpr hStatus)]
    refine .inr ⟨hStatus, ?_⟩
    cases hLoop : rollbackEntries sha ws faults 0 d ⟨[], []⟩ record.entries with
    | mk result d' =>
      cases result with
      | error err => simp [RollbackResult.isOk]
      | ok p =>
        obtain ⟨conflicts, restored⟩ := p
        by_cases hClean : conflicts = []
        · simp [hClean, RollbackResult.isOk]
        · simp [hClean, RollbackResult.isOk]
  · rw [if_pos hStatus]
    exact .inl ⟨hStatus, rfl⟩

/-- `d₁` is the disk that `apply` left, and `d₂` the one that `rollback` finds. -/
theorem rollback_keeps_iff {s : ChangesetStore η} {d₁ d₂ : Disk} {id : ChangesetId}
    {record : Changeset η} (hGet : s.get id = some record)
    (hMade : ∀ e ∈ record.entries, Made sha ws text e) :
    (∀ faults, ∀ e ∈ record.entries,
      ((s.rollback sha ws d₂ faults id).1.isOk = false ∨
        d₂ (.file e.abs) ≠ d₁ (.file e.abs)) →
      (s.rollback sha ws d₂ faults id).2.2 (.file e.abs) = d₂ (.file e.abs)) ↔
    (record.status = .applied → ∀ e ∈ record.entries, Rewrites sha d₂ e →
      record.entries.length = 1 ∧ d₂ (.file e.abs) = d₁ (.file e.abs)) := by
  constructor
  · intro hKeeps hApplied e he hRewrites
    obtain ⟨k, p, d', hLoop, hChanged, hBlocked⟩ := rollbackEntries_blocked hMade he hRewrites
    have hFaulty := hKeeps (onlyRead k) e he
    obtain ⟨hStatus, -⟩ | ⟨-, hDisk, hOk⟩ := rollback_eq (onlyRead k) d₂ hGet
    · exact absurd hApplied hStatus
    rw [hDisk, hLoop] at hFaulty
    constructor
    · by_contra hLength
      have hPositive : 0 < record.entries.length := List.length_pos_of_mem he
      have hConflicts := hBlocked (by omega)
      apply hChanged (hFaulty (.inl _))
      by_contra hSucceeds
      obtain ⟨restored, hClean⟩ := hOk.mp (by simpa using hSucceeds)
      rw [hLoop] at hClean
      cases hClean
      exact hConflicts rfl
    · by_contra hModified
      exact hChanged (hFaulty (.inr hModified))
  · intro hOnly faults e he hWhen
    obtain ⟨-, hDisk⟩ | ⟨hApplied, hDisk, hOk⟩ := rollback_eq faults d₂ hGet
    · rw [hDisk]
    rw [hDisk]
    by_contra hChanged
    obtain ⟨e', he', hAbs, hRewrites⟩ := rollbackEntries_changes hMade rfl hChanged
    obtain ⟨hLength, hSame⟩ := hOnly hApplied e' he' hRewrites
    obtain hFailed | hModified := hWhen
    · obtain ⟨single, hSingle⟩ := List.length_eq_one_iff.mp hLength
      rw [hSingle] at hChanged hOk
      rw [hOk.mpr ⟨_, rollbackEntries_single hChanged⟩] at hFailed
      cases hFailed
    · exact hModified (hAbs ▸ hSame)

/-- A changeset is applied and rolled back as a whole, whichever steps fail, exactly when what
`apply` backs up is well formed, and `rollback` has one file or none to rewrite. -/
theorem all_or_nothing_iff (hSha : Function.Injective sha) {proposed s₀ s : ChangesetStore η}
    {d₀ : Disk} (d d₁ d₂ : Disk) {runId : String} {files : Option (List FileInput)}
    {riskLevel : Option String} {id : ChangesetId} {cs record : Changeset η}
    (hPropose : s₀.propose sha ws d₀ runId files riskLevel id = .ok (proposed, cs))
    (hGet : s.get id = some record) (hEntries : record.entries = cs.entries) :
    ((∀ faults stamp now, (s.apply sha ws d faults stamp id now).1.isOk = false →
        ∀ e ∈ cs.entries,
          (s.apply sha ws d faults stamp id now).2.2 (.file e.abs) = d (.file e.abs)) ∧
      ∀ faults, ∀ e ∈ cs.entries,
        ((s.rollback sha ws d₂ faults id).1.isOk = false ∨
          d₂ (.file e.abs) ≠ d₁ (.file e.abs)) →
        (s.rollback sha ws d₂ faults id).2.2 (.file e.abs) = d₂ (.file e.abs)) ↔
    (Appliable record.status → ∀ p ∈ backedUp sha ws d cs.entries, ∀ content,
        d (.file p) = some content → WellFormed content) ∧
      (record.status = .applied → ∀ e ∈ cs.entries, Rewrites sha d₂ e →
        cs.entries.length = 1 ∧ d₂ (.file e.abs) = d₁ (.file e.abs)) := by
  have hMade := (propose_entries hPropose).2
  rw [← hEntries] at hMade ⊢
  exact and_congr (apply_restores_iff hSha hGet hMade) (rollback_keeps_iff hGet hMade)

theorem all_or_nothing_one_edit :
    ∃ (s : ChangesetStore Text) (cs : Changeset Text),
      propose id .empty [['w']] (oneFile "abc") "run-1" (some (oneEdit "b" "x")) none "cs-1" =
        .ok (s, cs) ∧
      ((∀ faults stamp now, (apply id s [['w']] (oneFile "abc") faults stamp "cs-1" now).1.isOk =
          false → ∀ e ∈ cs.entries,
            (apply id s [['w']] (oneFile "abc") faults stamp "cs-1" now).2.2 (.file e.abs) =
              oneFile "abc" (.file e.abs)) ∧
        ∀ faults, ∀ e ∈ cs.entries,
          ((rollback id s [['w']] (oneFile "axc") faults "cs-1").1.isOk = false ∨
            oneFile "axc" (.file e.abs) ≠ oneFile "axc" (.file e.abs)) →
          (rollback id s [['w']] (oneFile "axc") faults "cs-1").2.2 (.file e.abs) =
            oneFile "axc" (.file e.abs)) := by
  have hIff {s : ChangesetStore Text} {cs record : Changeset Text}
      (hPropose : propose id .empty [['w']] (oneFile "abc") "run-1" (some (oneEdit "b" "x")) none
        "cs-1" = .ok (s, cs)) (hGet : s.get "cs-1" = some record)
      (hEntries : record.entries = cs.entries) :=
    all_or_nothing_iff Function.injective_id (oneFile "abc") (oneFile "axc") (oneFile "axc") hPropose
      hGet hEntries
  refine ⟨_, _, rfl, (hIff rfl rfl rfl).mpr ⟨?_, ?_⟩⟩
  · intro _ p hp content hContent
    obtain rfl : p = [['w'], ['f']] := by
      cases hp with
      | head => rfl
      | tail _ hp => cases hp
    obtain rfl : content = encode "abc".toList := (Option.some.inj hContent).symm
    exact wellFormed_encode _
  · intro hApplied
    cases hApplied

/-- The disk with the files `w/f` and `w/g`. -/
def twoFiles (first second : String) : Disk := fun r =>
  if r = .file [['w'], ['f']] then some (encode first.toList)
  else if r = .file [['w'], ['g']] then some (encode second.toList)
  else none

/-- The user has edited the second file since `apply`: `rollback` is blocked, and has restored
the first. -/
theorem rollback_blocked_halfway :
    ¬ ∀ (sha : Text → Text) (ws : Path) (d d₁ d₂ : Disk) (files : List FileInput)
      (s s₂ : ChangesetStore Text) (cs cs' : Changeset Text), Function.Injective sha →
      propose sha .empty ws d "run-1" (some files) none "cs-1" = .ok (s, cs) →
      apply sha s ws d noFaults (fun _ => 0) "cs-1" 0 = (.ok cs', s₂, d₁) →
      (rollback sha s₂ ws d₂ noFaults "cs-1").1.isOk = false →
      ∀ e ∈ cs.entries,
        (rollback sha s₂ ws d₂ noFaults "cs-1").2.2 (.file e.abs) = d₂ (.file e.abs) := by
  intro h
  have hKept := h id [['w']] (twoFiles "a" "b") _ (twoFiles "x" "user")
    [⟨['f'], some [⟨some ['a'], some ['x']⟩]⟩, ⟨['g'], some [⟨some ['b'], some ['y']⟩]⟩] _ _ _ _
    Function.injective_id rfl rfl (by decide +kernel) _ List.mem_cons_self
  exact absurd hKept (by decide +kernel)

end ChangesetStore

end OrchestraAI.Execution
