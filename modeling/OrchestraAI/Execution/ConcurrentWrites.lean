import OrchestraAI.Execution.ChangesetRollback
import OrchestraAI.Execution.Patch
import OrchestraAI.Library.GuardedUpdates
import OrchestraAI.Library.LabelledSystem

/-! # Two writers of one workspace

The loop of `apply` and the writing branch of `handleApplyPatch` cut at their awaits,
and two of them interleaved. The hash check runs in the turn in which the read comes
back. Nothing locks a file between the read and the rename.
-/

namespace OrchestraAI.Execution

open Utf8 GuardedUpdates
open ChangesetStore (Faults noFaults Made applyEntries)

/-- One file of an operation: what becomes of its text, and the hash its verification expects. -/
structure FileTask (η : Type) where
  path : Except FsError Path
  change : Text → Except FsError (Text × η)

inductive WriteOp (η : Type)
  | apply (record : Changeset η)
  | patch (params : PatchParams)

variable {η : Type} [DecidableEq η] (sha : Text → η) (ws : Path)

def entryTask (e : Entry η) : FileTask η where
  path := sandboxPath ws e.path
  change current :=
    if sha current ≠ e.beforeHash then
      .error ⟨"conflict: ".toList ++ e.path ++ " changed since proposal (user edit?)".toList, ""⟩
    else .ok (e.afterContent, e.afterHash)

omit [DecidableEq η] in
def patchTask (params : PatchParams) : FileTask η where
  path := sandboxPath ws params.path
  change content :=
    match patchContent params.path (params.edits.getD []) content with
    | .error err => .error err
    | .ok patched => .ok (patched, sha patched)

namespace WriteOp

def tasks : WriteOp η → List (FileTask η)
  | .apply record => record.entries.map (entryTask sha ws)
  | .patch params => [patchTask sha ws params]

def starts : WriteOp η → Bool
  | .apply record => record.status ∈ [.proposed, .dryRun, .approved, ChangesetStatus.failed]
  | .patch params => params.edits.getD [] ≠ []

/-- Only `apply` keeps backups. -/
def keepsBackups : WriteOp η → Bool
  | .apply _ => true
  | .patch _ => false

/-- The operation from its start to its end, with nothing in between: the disk it leaves when it
reports success. -/
def alone (stamp : Nat → Nat) (d : Disk) : WriteOp η → Option Disk
  | .apply record =>
    if (WriteOp.apply record).starts then
      match applyEntries sha ws noFaults stamp [] 0 d record.entries with
      | (none, d') => some d'
      | _ => none
    else none
  | .patch params =>
    match writePatch sha ws d noFaults (stamp 0) params with
    | (.applied _, d') => some d'
    | _ => none

/-- The operation is one that can be asked for: a changeset is one that `propose` made. -/
def Made : WriteOp η → Prop
  | .apply record => ∃ (s s' : ChangesetStore η) (d : Disk) (runId : String)
      (files : Option (List FileInput)) (riskLevel : Option String) (cs : Changeset η),
      s.propose sha ws d runId files riskLevel record.id = .ok (s', cs) ∧
        record.entries = cs.entries
  | .patch _ => True

end WriteOp

inductive Phase (η : Type)
  | reading
  | writing (abs : Path) (current next : Text) (hash : η)
  | renaming (abs : Path) (current next : Text) (hash : η) (stamp : Nat)
  | verifying (abs : Path) (hash : η)
  | restoring (backups : List (Path × Text)) (written : Bool)
  | ended (ok : Bool)
  deriving DecidableEq

/-- A file leaves `todo` with its rename. -/
structure Writer (η : Type) where
  todo : List (FileTask η)
  keepsBackups : Bool
  backups : List (Path × Text)
  phase : Phase η

namespace Writer

def start (op : WriteOp η) : Writer η :=
  { todo := op.tasks sha ws
    keepsBackups := op.keepsBackups
    backups := []
    phase := if op.starts then (if op.tasks sha ws = [] then .ended true else .reading)
      else .ended false }

def fail {η : Type} (w : Writer η) : Writer η :=
  { w with phase := if w.backups = [] then .ended false else .restoring w.backups false }

def backUp {η : Type} (w : Writer η) (abs : Path) (current : Text) : Writer η :=
  if w.keepsBackups then { w with backups := w.backups ++ [(abs, current)] } else w

/-- One await of a writer on the disk: the answer, and what runs until the next await. `stamp` is
the time that a temporary file's name gets. -/
def advance (w : Writer η) (d : Disk) (stamp : Nat) (fails : Bool) : Option (Writer η × Disk) :=
  match w.phase with
  | .reading =>
    match w.todo with
    | [] => some ({ w with phase := .ended true }, d)
    | t :: _ =>
      match t.path with
      | .error _ => some (w.fail, d)
      | .ok abs =>
        match d.readFile (.file abs) fails with
        | none => some (w.fail, d)
        | some current =>
          match t.change current with
          | .error _ => some (w.fail, d)
          | .ok (next, hash) =>
            some ({ w.backUp abs current with phase := .writing abs current next hash }, d)
  | .writing abs current next hash =>
    match d.writeFile (.temp abs stamp) next fails with
    | none => some (w.fail, d)
    | some d' => some ({ w with phase := .renaming abs current next hash stamp }, d')
  | .renaming abs _ _ hash stamp =>
    match d.rename (.temp abs stamp) (.file abs) fails with
    | none => some (w.fail, d)
    | some d' => some ({ w with todo := w.todo.tail, phase := .verifying abs hash }, d')
  | .verifying abs hash =>
    match d.readFile (.file abs) fails with
    | none => some (w.fail, d)
    | some verify =>
      if sha verify ≠ hash then some (w.fail, d)
      else some ({ w with phase := if w.todo = [] then .ended true else .reading }, d)
  | .restoring [] _ => some ({ w with phase := .ended false }, d)
  | .restoring (b :: bs) false =>
    match d.writeFile (.tempRestore b.1) b.2 fails with
    | none => some ({ w with phase := .restoring bs false }, d)
    | some d' => some ({ w with phase := .restoring (b :: bs) true }, d')
  | .restoring (b :: bs) true =>
    match d.rename (.tempRestore b.1) (.file b.1) fails with
    | none => some ({ w with phase := .restoring bs false }, d)
    | some d' => some ({ w with phase := .restoring bs false }, d')
  | .ended _ => none

def Failed {η : Type} (w : Writer η) : Prop :=
  match w.phase with
  | .restoring _ _ | .ended false => True
  | _ => False

end Writer

inductive Side
  | one
  | two
  deriving DecidableEq

def Side.other : Side → Side
  | .one => .two
  | .two => .one

theorem Side.other_other (side : Side) : side.other.other = side := by
  cases side <;> rfl

theorem Side.other_ne (side : Side) : side.other ≠ side := by
  cases side <;> decide

theorem Side.eq_or_other (side side' : Side) : side' = side ∨ side' = side.other := by
  cases side <;> cases side' <;> decide

structure TwoWriters (η : Type) where
  disk : Disk
  writer : Side → Writer η

namespace TwoWriters

structure Turn where
  side : Side
  stamp : Nat
  fails : Bool

def step (s : TwoWriters η) (l : Turn) : Option (TwoWriters η) :=
  ((s.writer l.side).advance sha s.disk l.stamp l.fails).map fun r =>
    ⟨r.2, Function.update s.writer l.side r.1⟩

def start (ops : Side → WriteOp η) (d : Disk) : TwoWriters η :=
  ⟨d, fun side => .start sha ws (ops side)⟩

/-- While neither has failed, a writer replaces a file only if it has the text that the writer
has read, and the second writer only if the first has no more to write there. -/
def InTurn {η : Type} (first : Side) (s : TwoWriters η) (l : Turn) : Prop :=
  match (s.writer l.side).phase with
  | .renaming abs current _ _ _ =>
    (∀ side, ¬ (s.writer side).Failed) → l.fails = false →
      s.disk.readFile (.file abs) false = some current ∧
      (l.side ≠ first → ∀ t ∈ (s.writer first).todo, t.path ≠ .ok abs)
  | _ => True

end TwoWriters

instance {η : Type} (w : Writer η) : Decidable w.Failed := by
  unfold Writer.Failed
  split <;> infer_instance

instance {P : Side → Prop} [DecidablePred P] : Decidable (∀ side, P side) :=
  decidable_of_iff (P .one ∧ P .two)
    ⟨fun h side => by cases side <;> simp [h], fun h => ⟨h .one, h .two⟩⟩

instance {η : Type} (first : Side) (s : TwoWriters η) (l : TwoWriters.Turn) :
    Decidable (TwoWriters.InTurn first s l) := by
  unfold TwoWriters.InTurn
  split <;> infer_instance

namespace Writer

variable {sha}

inductive Advances {η : Type} (w : Writer η) (d : Disk) (stamp : Nat) (fails : Bool)
    (w' : Writer η) (d' : Disk) : Prop
  | idle (hPhase : w.phase = .reading) (hTodo : w.todo = []) (hNext : w'.phase = .ended true)
      (hTodo' : w'.todo = []) (hDisk : d' = d)
  | read {t : FileTask η} {rest : List (FileTask η)} {abs : Path} {current next : Text} {hash : η}
      (hPhase : w.phase = .reading) (hTodo : w.todo = t :: rest) (hPath : t.path = .ok abs)
      (hChange : t.change current = .ok (next, hash))
      (hNext : w'.phase = .writing abs current next hash) (hTodo' : w'.todo = t :: rest)
      (hDisk : d' = d)
  | wrote {abs : Path} {current next : Text} {hash : η}
      (hPhase : w.phase = .writing abs current next hash)
      (hNext : w'.phase = .renaming abs current next hash stamp) (hTodo' : w'.todo = w.todo)
      (hDisk : d' = d.put (.temp abs stamp) (encode next))
  | renamed {abs : Path} {current next : Text} {hash : η} {drawn : Nat} {content : Bytes}
      (hPhase : w.phase = .renaming abs current next hash drawn) (hFails : fails = false)
      (hTemp : d (.temp abs drawn) = some content) (hNext : w'.phase = .verifying abs hash)
      (hTodo' : w'.todo = w.todo.tail)
      (hDisk : d' = (d.put (.file abs) content).put (.temp abs drawn) none)
  | verified {abs : Path} {hash : η} (hPhase : w.phase = .verifying abs hash)
      (hNext : w'.phase = if w.todo = [] then .ended true else .reading)
      (hTodo' : w'.todo = w.todo) (hDisk : d' = d)

omit [DecidableEq η] in
theorem fail_failed (w : Writer η) : w.fail.Failed := by
  unfold fail Failed
  by_cases h : w.backups = []
  · simp [h]
  · simp [h]

omit [DecidableEq η] in
theorem backUp_todo (w : Writer η) (abs : Path) (current : Text) :
    (w.backUp abs current).todo = w.todo := by
  unfold backUp
  split <;> rfl

theorem advance_cases {w w' : Writer η} {d d' : Disk} {stamp : Nat} {fails : Bool}
    (h : w.advance sha d stamp fails = some (w', d')) :
    w'.Failed ∨ ¬ w.Failed ∧ Advances w d stamp fails w' d' := by
  unfold advance at h
  split at h
  · rename_i hPhase
    have hAlive : ¬ w.Failed := by simp [Failed, hPhase]
    split at h
    · rename_i hTodo
      cases h
      exact .inr ⟨hAlive, .idle hPhase hTodo rfl hTodo rfl⟩
    rename_i t rest hTodo
    split at h
    · cases h
      exact .inl (fail_failed w)
    rename_i abs hPath
    split at h
    · cases h
      exact .inl (fail_failed w)
    split at h
    · cases h
      exact .inl (fail_failed w)
    rename_i hChange
    cases h
    exact .inr ⟨hAlive, .read hPhase hTodo hPath hChange rfl ((backUp_todo w _ _).trans hTodo) rfl⟩
  · rename_i hPhase
    have hAlive : ¬ w.Failed := by simp [Failed, hPhase]
    split at h
    · cases h
      exact .inl (fail_failed w)
    rename_i hWrite
    cases h
    rw [Disk.writeFile_eq_some hWrite]
    exact .inr ⟨hAlive, .wrote hPhase rfl rfl rfl⟩
  · rename_i hPhase
    have hAlive : ¬ w.Failed := by simp [Failed, hPhase]
    split at h
    · cases h
      exact .inl (fail_failed w)
    rename_i hRename
    cases h
    unfold Disk.rename at hRename
    split at hRename
    · rename_i hTemp
      cases hRename
      exact .inr ⟨hAlive, .renamed hPhase rfl hTemp rfl rfl rfl⟩
    · cases hRename
  · rename_i hPhase
    have hAlive : ¬ w.Failed := by simp [Failed, hPhase]
    split at h
    · cases h
      exact .inl (fail_failed w)
    split at h
    · cases h
      exact .inl (fail_failed w)
    cases h
    exact .inr ⟨hAlive, .verified hPhase rfl rfl rfl⟩
  · cases h
    exact .inl trivial
  · split at h
    · cases h
      exact .inl trivial
    · cases h
      exact .inl trivial
  · split at h
    · cases h
      exact .inl trivial
    · cases h
      exact .inl trivial
  · cases h

/-- The task in hand is the head of `todo` until its rename. -/
def InHand {η : Type} (w : Writer η) : Prop :=
  match w.phase with
  | .writing abs current next hash | .renaming abs current next hash _ =>
    ∃ t rest, w.todo = t :: rest ∧ t.path = .ok abs ∧ t.change current = .ok (next, hash)
  | .ended true => w.todo = []
  | _ => True

omit [DecidableEq η] in
theorem Advances.inHand {w w' : Writer η} {d d' : Disk} {stamp : Nat} {fails : Bool}
    (h : Advances w d stamp fails w' d') (hHand : w.InHand) : w'.InHand := by
  unfold InHand at hHand ⊢
  cases h with
  | idle _ _ hNext hTodo' => rwa [hNext]
  | read _ _ hPath hChange hNext hTodo' =>
    rw [hNext]
    exact ⟨_, _, hTodo', hPath, hChange⟩
  | wrote hPhase hNext hTodo' =>
    rw [hPhase] at hHand
    rw [hNext, hTodo']
    exact hHand
  | renamed _ _ _ hNext =>
    rw [hNext]
    trivial
  | verified _ hNext hTodo' =>
    rw [hNext, hTodo']
    by_cases hDone : w.todo = []
    · rw [if_pos hDone]
      exact hDone
    · rw [if_neg hDone]
      trivial

/-- The temporary file that waits for its rename, and what the writer has put into it. -/
def pending {η : Type} (w : Writer η) : Option (FileRef × Bytes) :=
  match w.phase with
  | .renaming abs _ next _ stamp => some (.temp abs stamp, encode next)
  | _ => none

omit [DecidableEq η] in
theorem pending_eq_some {w : Writer η} {r : FileRef} {c : Bytes} (h : w.pending = some (r, c)) :
    ∃ abs current next hash stamp, w.phase = .renaming abs current next hash stamp ∧
      r = .temp abs stamp ∧ c = encode next := by
  unfold pending at h
  split at h
  · rename_i hPhase
    cases h
    exact ⟨_, _, _, _, _, hPhase, rfl, rfl⟩
  · cases h

omit [DecidableEq η] in
theorem pending_of_renaming {w : Writer η} {abs : Path} {current next : Text} {hash : η}
    {stamp : Nat} (h : w.phase = .renaming abs current next hash stamp) :
    w.pending = some (.temp abs stamp, encode next) := by
  simp only [pending, h]

end Writer

namespace FileTask

def update (t : FileTask η) : Update (Option Path) (Option Bytes) where
  key := t.path.toOption
  change content := content.bind fun bytes =>
    match t.change (decode bytes) with
    | .ok (next, _) => some (some (encode next))
    | .error _ => none

omit [DecidableEq η] in
theorem update_change {t : FileTask η} {bytes : Bytes} {next : Text} {hash : η}
    (h : t.change (decode bytes) = .ok (next, hash)) :
    t.update.change (some bytes) = some (some (encode next)) := by
  simp [update, h]

end FileTask

def files (d : Disk) : Option Path → Option Bytes
  | some p => d (.file p)
  | none => none

theorem files_replaced {d : Disk} {abs : Path} {stamp : Nat} {content : Bytes} :
    files ((d.put (.file abs) content).put (.temp abs stamp) none) =
      Function.update (files d) (some abs) content := by
  funext p
  cases p with
  | none => rfl
  | some q =>
    unfold files
    simp only
    rw [Disk.put_of_ne _ _ (by simp)]
    by_cases hq : q = abs
    · rw [hq, Disk.put_self, Function.update_self]
    · rw [Disk.put_of_ne _ _ (by simpa using hq), Function.update_of_ne (by simpa using hq)]

theorem files_put_temp {d : Disk} {abs : Path} {stamp : Nat} {content : Option Bytes} :
    files (d.put (.temp abs stamp) content) = files d := by
  funext p
  cases p with
  | none => rfl
  | some q => exact Disk.put_of_ne _ _ (by simp)

namespace TwoWriters

variable {sha ws}

/-- Everything renamed so far could have been renamed by the first writer and then by the
second. -/
structure Serial (tasks : Side → List (FileTask η)) (d₀ : Disk) (first : Side) (s : TwoWriters η)
    (done : Side → List (FileTask η)) (middle : Option Path → Option Bytes) : Prop where
  split : ∀ side, tasks side = done side ++ (s.writer side).todo
  firstDone : exec ((done first).map FileTask.update) (files d₀) = some middle
  secondDone : exec ((done first.other).map FileTask.update) middle = some (files s.disk)
  apart : ∀ t ∈ (s.writer first).todo, ∀ u ∈ done first.other, u.update.key ≠ t.update.key

/-- Two writers that wait for their renames, each with a temporary file of its own. -/
structure Ready (s : TwoWriters η) : Prop where
  inHand : ∀ side, (s.writer side).InHand
  own : ∀ side r content, (s.writer side).pending = some (r, content) → s.disk r = some content
  distinct : ∀ side r c c', (s.writer side).pending = some (r, c) →
    (s.writer side.other).pending ≠ some (r, c')

/-- A writer waits for the rename of a temporary file that the other has taken or overwritten. -/
def Doomed (s : TwoWriters η) : Prop :=
  ∃ side r c, (s.writer side).pending = some (r, c) ∧
    (s.disk r = none ∨ ∃ c', (s.writer side.other).pending = some (r, c'))

def Inv (tasks : Side → List (FileTask η)) (d₀ : Disk) (first : Side) (s : TwoWriters η) : Prop :=
  (∃ side, (s.writer side).Failed) ∨ Doomed s ∨
    Ready s ∧ ∃ done middle, Serial tasks d₀ first s done middle

theorem step_cases {s t : TwoWriters η} {l : Turn} (h : s.step sha l = some t) :
    t.writer l.side.other = s.writer l.side.other ∧ ((t.writer l.side).Failed ∨
      ¬ (s.writer l.side).Failed ∧
        Writer.Advances (s.writer l.side) s.disk l.stamp l.fails (t.writer l.side) t.disk) := by
  obtain ⟨r, hAdvance, rfl⟩ := Option.map_eq_some_iff.mp h
  constructor
  · exact Function.update_of_ne (Side.other_ne _) _ _
  · simp only [Function.update_self]
    exact Writer.advance_cases hAdvance

theorem step_failed {s t : TwoWriters η} {l : Turn} (h : s.step sha l = some t)
    (hFailed : ∃ side, (s.writer side).Failed) : ∃ side, (t.writer side).Failed := by
  obtain ⟨hOther, hNext⟩ := step_cases h
  obtain ⟨side, hFailed⟩ := hFailed
  obtain rfl | rfl := Side.eq_or_other l.side side
  · obtain hNow | ⟨hAlive, -⟩ := hNext
    · exact ⟨l.side, hNow⟩
    · exact absurd hFailed hAlive
  · exact ⟨l.side.other, hOther ▸ hFailed⟩

theorem step_doomed {s t : TwoWriters η} {l : Turn} (h : s.step sha l = some t)
    (hDoomed : s.Doomed) : (∃ side, (t.writer side).Failed) ∨ t.Doomed := by
  obtain ⟨hOther, hFailed | ⟨-, hAdvances⟩⟩ := step_cases h
  · exact .inl ⟨l.side, hFailed⟩
  obtain ⟨side, r, c, hPending, hLost⟩ := hDoomed
  obtain ⟨abs, current, next, hash, stamp, hPhase, rfl, rfl⟩ := Writer.pending_eq_some hPending
  right
  obtain rfl | rfl := Side.eq_or_other l.side side
  · cases hAdvances with
    | renamed hPhase' _ hTemp _ _ hDisk =>
      cases hPhase.symm.trans hPhase'
      obtain hNone | ⟨c', hTheirs⟩ := hLost
      · rw [hNone] at hTemp
        cases hTemp
      · refine ⟨l.side.other, _, c', hOther ▸ hTheirs, .inl ?_⟩
        rw [hDisk]
        exact Disk.put_self _ _ _
    | idle hPhase' | read hPhase' | wrote hPhase' | verified hPhase' =>
      cases hPhase.symm.trans hPhase'
  · rw [Side.other_other] at hLost
    refine ⟨l.side.other, _, _, hOther ▸ hPending, ?_⟩
    rw [Side.other_other]
    have hIdle (hNone : (s.writer l.side).pending = none) (hDisk : t.disk = s.disk) :
        t.disk (.temp abs stamp) = none := by
      obtain hLost | ⟨c', hTheirs⟩ := hLost
      · rw [hDisk, hLost]
      · rw [hNone] at hTheirs
        cases hTheirs
    cases hAdvances with
    | idle hPhase' _ _ _ hDisk | read hPhase' _ _ _ _ _ hDisk | verified hPhase' _ _ hDisk =>
      exact .inl (hIdle (by simp only [Writer.pending, hPhase']) hDisk)
    | @wrote abs' _ _ _ hPhase' hNext _ hDisk =>
      by_cases hSame : FileRef.temp abs stamp = .temp abs' l.stamp
      · exact .inr ⟨_, hSame ▸ Writer.pending_of_renaming hNext⟩
      · obtain hLost | ⟨c', hTheirs⟩ := hLost
        · exact .inl (by rw [hDisk, Disk.put_of_ne _ _ hSame, hLost])
        · simp only [Writer.pending, hPhase'] at hTheirs
          cases hTheirs
    | @renamed abs' _ _ _ drawn content hPhase' _ hTemp _ _ hDisk =>
      left
      rw [hDisk]
      by_cases hSame : FileRef.temp abs stamp = .temp abs' drawn
      · rw [hSame, Disk.put_self]
      · rw [Disk.put_of_ne _ _ hSame, Disk.put_of_ne _ _ (by simp)]
        obtain hLost | ⟨c', hTheirs⟩ := hLost
        · exact hLost
        · rw [Writer.pending_of_renaming hPhase'] at hTheirs
          cases hTheirs
          exact absurd rfl hSame

omit [DecidableEq η] in
theorem Serial.keep {tasks : Side → List (FileTask η)} {d₀ : Disk} {first : Side}
    {s t : TwoWriters η} {done : Side → List (FileTask η)} {middle : Option Path → Option Bytes}
    (h : Serial tasks d₀ first s done middle) (hFiles : files t.disk = files s.disk)
    (hTodo : ∀ side, (t.writer side).todo = (s.writer side).todo) :
    Serial tasks d₀ first t done middle where
  split side := by rw [h.split, hTodo]
  firstDone := h.firstDone
  secondDone := by rw [h.secondDone, hFiles]
  apart := by
    rw [hTodo]
    exact h.apart

omit [DecidableEq η] in
theorem Serial.rename {tasks : Side → List (FileTask η)} {d₀ : Disk} {first side : Side}
    {s t : TwoWriters η} {done : Side → List (FileTask η)} {middle : Option Path → Option Bytes}
    {task : FileTask η} {rest : List (FileTask η)} {abs : Path} {bytes : Bytes} {next : Text}
    {hash : η} (h : Serial tasks d₀ first s done middle)
    (hTodo : (s.writer side).todo = task :: rest) (hPath : task.path = .ok abs)
    (hContent : s.disk (.file abs) = some bytes)
    (hChange : task.change (decode bytes) = .ok (next, hash))
    (hSecond : side ≠ first → ∀ u ∈ (s.writer first).todo, u.path ≠ .ok abs)
    (hFiles : files t.disk = Function.update (files s.disk) (some abs) (some (encode next)))
    (hRest : (t.writer side).todo = rest)
    (hOther : t.writer side.other = s.writer side.other) :
    ∃ middle', Serial tasks d₀ first t
      (Function.update done side (done side ++ [task])) middle' := by
  have hKey : task.update.key = some abs := by simp [FileTask.update, hPath, Except.toOption]
  have hValue : task.update.change (files s.disk task.update.key) = some (some (encode next)) := by
    rw [hKey]
    unfold files
    simp only
    rw [hContent]
    exact FileTask.update_change hChange
  have hSplit (σ : Side) : tasks σ =
      Function.update done side (done side ++ [task]) σ ++ (t.writer σ).todo := by
    obtain rfl | rfl := Side.eq_or_other side σ
    · rw [Function.update_self, hRest, h.split, hTodo, List.append_assoc, List.singleton_append]
    · rw [Function.update_of_ne (Side.other_ne _), hOther, h.split]
  by_cases hFirst : side = first
  · subst hFirst
    have hApart : ∀ u ∈ (done side.other).map FileTask.update, u.key ≠ task.update.key := by
      intro u hu
      obtain ⟨v, hv, rfl⟩ := List.mem_map.mp hu
      exact h.apart task (hTodo ▸ List.mem_cons_self) v hv
    obtain ⟨hBefore, hAfter⟩ := exec_insert h.firstDone h.secondDone hApart hValue
    refine ⟨Function.update middle task.update.key (some (encode next)), hSplit, ?_, ?_, ?_⟩
    · rw [Function.update_self, List.map_append]
      exact hBefore
    · rw [Function.update_of_ne (Side.other_ne _), hFiles, ← hKey]
      exact hAfter
    · rw [hRest, Function.update_of_ne (Side.other_ne _)]
      intro u hu
      exact h.apart u (hTodo ▸ List.mem_cons_of_mem _ hu)
  · obtain rfl : first = side.other := by
      obtain hSame | hOther := Side.eq_or_other side first
      · exact absurd hSame.symm hFirst
      · exact hOther
    have hSecondDone := h.secondDone
    have hApart := h.apart
    rw [Side.other_other] at hSecondDone hApart
    refine ⟨middle, hSplit, ?_, ?_, ?_⟩
    · rw [Function.update_of_ne (Side.other_ne _)]
      exact h.firstDone
    · rw [Side.other_other, Function.update_self, List.map_append, hFiles, ← hKey]
      exact exec_snoc hSecondDone hValue
    · rw [Side.other_other, Function.update_self, hOther]
      intro u hu v hv
      obtain hv | hv := List.mem_append.mp hv
      · exact hApart u hu v hv
      · obtain rfl := List.mem_singleton.mp hv
        rw [hKey]
        intro hEq
        apply hSecond hFirst u hu
        cases hU : u.path with
        | error err => simp [FileTask.update, hU, Except.toOption] at hEq
        | ok p =>
          simp only [FileTask.update, hU, Except.toOption, Option.some.injEq] at hEq
          rw [hEq]

omit [DecidableEq η] in
theorem Ready.next {s t : TwoWriters η} {side : Side} (h : Ready s)
    (hOther : t.writer side.other = s.writer side.other) (hHand : (t.writer side).InHand)
    (hMine : ∀ r c, (t.writer side).pending = some (r, c) →
      t.disk r = some c ∧ ∀ c', (s.writer side.other).pending ≠ some (r, c'))
    (hTheirs : ∀ r c, (s.writer side.other).pending = some (r, c) → t.disk r = some c) :
    Ready t where
  inHand σ := by
    obtain rfl | rfl := Side.eq_or_other side σ
    · exact hHand
    · rw [hOther]
      exact h.inHand _
  own σ r c hPending := by
    obtain rfl | rfl := Side.eq_or_other side σ
    · exact (hMine r c hPending).1
    · exact hTheirs r c (hOther ▸ hPending)
  distinct σ r c c' hPending := by
    obtain rfl | rfl := Side.eq_or_other side σ
    · rw [hOther]
      exact (hMine r c hPending).2 c'
    · rw [Side.other_other]
      intro hMine'
      exact (hMine r c' hMine').2 c (hOther ▸ hPending)

omit [DecidableEq η] in
/-- A writer that waits for no rename, before and after a step that leaves the disk alone. -/
theorem Ready.quiet {s t : TwoWriters η} {side : Side} (h : Ready s)
    (hOther : t.writer side.other = s.writer side.other) (hHand : (t.writer side).InHand)
    (hNone : (t.writer side).pending = none) (hDisk : t.disk = s.disk) : Ready t := by
  apply h.next hOther hHand
  · intro r c hPending
    rw [hNone] at hPending
    cases hPending
  · intro r c hPending
    rw [hDisk]
    exact h.own _ r c hPending

theorem step_inv {tasks : Side → List (FileTask η)} {d₀ : Disk} {first : Side}
    {s t : TwoWriters η} {l : Turn} (hInv : Inv tasks d₀ first s) (hTurn : InTurn first s l)
    (h : s.step sha l = some t) : Inv tasks d₀ first t := by
  obtain hFailed | hDoomed | ⟨hReady, done, middle, hSerial⟩ := hInv
  · exact .inl (step_failed h hFailed)
  · obtain hFailed | hDoomed := step_doomed h hDoomed
    · exact .inl hFailed
    · exact .inr (.inl hDoomed)
  by_cases hSafe : ∀ side, ¬ (s.writer side).Failed
  swap
  · simp only [not_forall, not_not] at hSafe
    exact .inl (step_failed h hSafe)
  obtain ⟨hOther, hFailed | ⟨-, hAdvances⟩⟩ := step_cases h
  · exact .inl ⟨l.side, hFailed⟩
  have hHand := hAdvances.inHand (hReady.inHand _)
  have hKeep (hFiles : files t.disk = files s.disk)
      (hTodo : (t.writer l.side).todo = (s.writer l.side).todo) :
      ∃ done middle, Serial tasks d₀ first t done middle := by
    refine ⟨done, middle, hSerial.keep hFiles fun side => ?_⟩
    obtain rfl | rfl := Side.eq_or_other l.side side
    · exact hTodo
    · rw [hOther]
  cases hAdvances with
  | idle hPhase hTodo hNext hTodo' hDisk =>
    have hNone : (t.writer l.side).pending = none := by simp only [Writer.pending, hNext]
    exact .inr (.inr ⟨hReady.quiet hOther hHand hNone hDisk,
      hKeep (congrArg files hDisk) (hTodo'.trans hTodo.symm)⟩)
  | read hPhase hTodo hPath hChange hNext hTodo' hDisk =>
    have hNone : (t.writer l.side).pending = none := by simp only [Writer.pending, hNext]
    exact .inr (.inr ⟨hReady.quiet hOther hHand hNone hDisk,
      hKeep (congrArg files hDisk) (hTodo'.trans hTodo.symm)⟩)
  | verified hPhase hNext hTodo' hDisk =>
    have hNone : (t.writer l.side).pending = none := by
      unfold Writer.pending
      rw [hNext]
      split_ifs <;> rfl
    exact .inr (.inr ⟨hReady.quiet hOther hHand hNone hDisk, hKeep (congrArg files hDisk) hTodo'⟩)
  | @wrote abs _ _ _ hPhase hNext hTodo' hDisk =>
    have hMine := Writer.pending_of_renaming hNext
    by_cases hClash : ∃ c', (s.writer l.side.other).pending = some (.temp abs l.stamp, c')
    · exact .inr (.inl ⟨l.side, _, _, hMine, .inr (hOther ▸ hClash)⟩)
    · refine .inr (.inr ⟨hReady.next hOther hHand ?_ ?_, hKeep ?_ hTodo'⟩)
      · intro r c hPending
        cases hMine.symm.trans hPending
        rw [hDisk, Disk.put_self]
        exact ⟨rfl, not_exists.mp hClash⟩
      · intro r c hPending
        rw [hDisk, Disk.put_of_ne, hReady.own _ r c hPending]
        rintro rfl
        exact hClash ⟨c, hPending⟩
      · rw [hDisk]
        exact files_put_temp
  | @renamed abs current next hash drawn content hPhase hFails hTemp hNext hTodo' hDisk =>
    have hMine := Writer.pending_of_renaming hPhase
    obtain rfl : content = encode next := by
      have hOwn := hReady.own _ _ _ hMine
      rw [hTemp] at hOwn
      exact Option.some.inj hOwn
    have hHandBefore := hReady.inHand l.side
    simp only [Writer.InHand, hPhase] at hHandBefore
    obtain ⟨task, rest, hTodo, hPath, hChange⟩ := hHandBefore
    simp only [InTurn, hPhase] at hTurn
    obtain ⟨hRead, hSecond⟩ := hTurn hSafe hFails
    obtain ⟨bytes, hContent, rfl⟩ := Disk.readFile_eq_some hRead
    refine .inr (.inr ⟨hReady.next hOther hHand ?_ ?_, _, hSerial.rename hTodo hPath hContent hChange
      hSecond (hDisk ▸ files_replaced) (by rw [hTodo', hTodo, List.tail_cons]) hOther⟩)
    · intro r c hPending
      simp only [Writer.pending, hNext] at hPending
      cases hPending
    · intro r c hPending
      obtain ⟨_, _, _, _, _, -, rfl, -⟩ := Writer.pending_eq_some hPending
      rw [hDisk, Disk.put_of_ne, Disk.put_of_ne _ _ (by simp), hReady.own _ _ c hPending]
      intro hSame
      exact hReady.distinct _ _ _ c hMine (hSame ▸ hPending)

end TwoWriters

section Alone

variable {sha ws} {d : Disk} {after : Option Path → Option Bytes}

omit [DecidableEq η] in
theorem exec_task {t : FileTask η} {us : List (Update (Option Path) (Option Bytes))} {abs : Path}
    (hPath : t.path = .ok abs) (h : exec (t.update :: us) (files d) = some after) :
    ∃ content next hash, d (.file abs) = some content ∧
      t.change (decode content) = .ok (next, hash) ∧
      exec us (Function.update (files d) (some abs) (some (encode next))) = some after := by
  have hKey : t.update.key = some abs := by simp [FileTask.update, hPath, Except.toOption]
  obtain ⟨v, hChange, hRest⟩ := Option.bind_eq_some_iff.mp h
  rw [hKey] at hChange hRest
  cases hContent : d (.file abs) with
  | none =>
    simp [FileTask.update, files, hContent] at hChange
  | some content =>
    cases hResult : t.change (decode content) with
    | error err => simp [FileTask.update, files, hContent, hResult] at hChange
    | ok r =>
      have hValue := FileTask.update_change hResult
      simp only [files, hContent] at hChange
      rw [hValue] at hChange
      cases hChange
      exact ⟨content, r.1, r.2, rfl, hResult, hRest⟩

theorem replace_steps (d : Disk) (abs : Path) (stamp : Nat) (next : Text) :
    ∃ d₁ d₂, d.writeFile (.temp abs stamp) next false = some d₁ ∧
      d₁.rename (.temp abs stamp) (.file abs) false = some d₂ ∧
      d₂.readFile (.file abs) false = some next ∧
      files d₂ = Function.update (files d) (some abs) (some (encode next)) := by
  refine ⟨d.put (.temp abs stamp) (encode next),
    ((d.put (.temp abs stamp) (encode next)).put (.file abs) (encode next)).put (.temp abs stamp)
      none, rfl, ?_, ?_, ?_⟩
  · simp [Disk.rename]
  · simp [Disk.readFile, Disk.put_of_ne]
  · rw [files_replaced, files_put_temp]

theorem applyEntries_of_exec (stamp : Nat → Nat) (backups : List (Path × Text)) (i : Nat)
    {text : Path → Text} {entries : List (Entry η)} (hMade : ∀ e ∈ entries, Made sha ws text e)
    (h : exec ((entries.map (entryTask sha ws)).map FileTask.update) (files d) = some after) :
    ∃ d', applyEntries sha ws noFaults stamp backups i d entries = (none, d') ∧
      files d' = after := by
  induction entries generalizing backups i d with
  | nil =>
    cases h
    exact ⟨d, rfl, rfl⟩
  | cons e es ih =>
    have hMade₀ := hMade e List.mem_cons_self
    obtain ⟨content, next, hash, hContent, hChange, hRest⟩ := exec_task hMade₀.abs h
    simp only [entryTask] at hChange
    split at hChange
    · cases hChange
    rename_i hHash
    cases hChange
    obtain ⟨d₁, d₂, hWrite, hRename, hVerify, hFiles⟩ :=
      replace_steps d e.abs (stamp i) e.afterContent
    rw [← hFiles] at hRest
    obtain ⟨d', hLoop, hAfter⟩ := ih (backups ++ [(e.abs, decode content)]) (i + 1)
      (fun e he => hMade e (List.mem_cons_of_mem _ he)) hRest
    have hRead : d.readFile (.file e.abs) false = some (decode content) := by
      simp [Disk.readFile, hContent]
    refine ⟨d', ?_, hAfter⟩
    unfold applyEntries
    rw [hMade₀.abs]
    simp only [noFaults, hRead, if_neg hHash, hWrite, hRename, hVerify]
    rw [if_neg (by rw [hMade₀.after]; exact not_not.mpr rfl)]
    exact hLoop

theorem alone_of_exec (stamp : Nat → Nat) {op : WriteOp η} (hMade : op.Made sha ws)
    (hStarts : op.starts)
    (h : exec ((op.tasks sha ws).map FileTask.update) (files d) = some after) :
    ∃ d', op.alone sha ws stamp d = some d' ∧ files d' = after := by
  cases op with
  | apply record =>
    obtain ⟨_, _, _, _, _, _, cs, hPropose, hEntries⟩ := hMade
    have hMade := (ChangesetStore.propose_entries hPropose).2
    rw [← hEntries] at hMade
    obtain ⟨d', hLoop, hFiles⟩ := applyEntries_of_exec stamp [] 0 hMade h
    refine ⟨d', ?_, hFiles⟩
    unfold WriteOp.alone
    simp only
    rw [if_pos hStarts, hLoop]
  | patch params =>
    have hEdits : params.edits.getD [] ≠ [] := by simpa [WriteOp.starts] using hStarts
    cases hPath : sandboxPath ws params.path with
    | error err =>
      have hNone : (patchTask sha ws params).update.key = none := by
        simp [FileTask.update, patchTask, hPath, Except.toOption]
      obtain ⟨v, hChange, -⟩ := Option.bind_eq_some_iff.mp h
      rw [hNone] at hChange
      cases hChange
    | ok abs =>
      obtain ⟨content, next, hash, hContent, hChange, hRest⟩ :=
        exec_task (t := patchTask sha ws params) hPath h
      cases hRest
      simp only [patchTask] at hChange
      split at hChange
      · cases hChange
      rename_i hPatch
      cases hChange
      obtain ⟨d₁, d₂, hWrite, hRename, hVerify, hFiles⟩ :=
        replace_steps d abs (stamp 0) next
      have hRead : d.readFile (.file abs) false = some (decode content) := by
        simp [Disk.readFile, hContent]
      refine ⟨d₂, ?_, hFiles⟩
      unfold WriteOp.alone writePatch
      simp only [hPath, if_neg hEdits, noFaults, hRead, hPatch, hWrite, hRename, hVerify]
      simp

end Alone

namespace TwoWriters

open LabelledSystem

variable {sha ws}

theorem start_inv {ops : Side → WriteOp η} {d₀ : Disk} {first : Side}
    (hStarts : ∀ side, (ops side).starts) :
    Inv (fun side => (ops side).tasks sha ws) d₀ first (start sha ws ops d₀) := by
  have hPhase (side : Side) : ((start sha ws ops d₀).writer side).phase =
      if (ops side).tasks sha ws = [] then .ended true else .reading := by
    simp only [start, Writer.start, if_pos (hStarts side)]
  have hNone (side : Side) : ((start sha ws ops d₀).writer side).pending = none := by
    unfold Writer.pending
    rw [hPhase]
    split_ifs <;> rfl
  right
  right
  constructor
  · constructor
    · intro side
      unfold Writer.InHand
      rw [hPhase]
      by_cases hTasks : (ops side).tasks sha ws = []
      · rw [if_pos hTasks]
        exact hTasks
      · rw [if_neg hTasks]
        trivial
    · intro side r content hPending
      rw [hNone] at hPending
      cases hPending
    · intro side r c c' hPending
      rw [hNone] at hPending
      cases hPending
  · refine ⟨fun _ => [], files d₀, fun side => rfl, rfl, rfl, ?_⟩
    intro t _ u hu
    cases hu

/-- Two writers that both report success have done what they would have done one after the
other, if every rename was in turn. -/
theorem no_lost_update {ops : Side → WriteOp η} {d₀ : Disk} {first : Side} {stamp : Nat → Nat}
    {s : TwoWriters η} (hMade : ∀ side, (ops side).Made sha ws)
    (h : Reach (step sha) (InTurn first) (· = start sha ws ops d₀) s)
    (hOk : ∀ side, (s.writer side).phase = .ended true) :
    ∃ d₁ d₂, (ops first).alone sha ws stamp d₀ = some d₁ ∧
      (ops first.other).alone sha ws stamp d₁ = some d₂ ∧
      ∀ p, s.disk (.file p) = d₂ (.file p) := by
  have hSound : ¬ ∃ side, (s.writer side).Failed := by
    rintro ⟨side, hFailed⟩
    simp only [Writer.Failed, hOk side] at hFailed
  have hStarts : ∀ side, (ops side).starts := by
    by_contra hNot
    obtain ⟨side, hRefused⟩ := not_forall.mp hNot
    apply hSound
    apply h.invariant
    · rintro _ rfl
      refine ⟨side, ?_⟩
      simp only [Writer.Failed, start, Writer.start, if_neg hRefused]
    · intro _ _ _ hFailed _ hStep
      exact step_failed hStep hFailed
  have hInv : Inv (fun side => (ops side).tasks sha ws) d₀ first s := by
    apply h.invariant
    · rintro _ rfl
      exact start_inv hStarts
    · intro _ _ _ hInv hTurn hStep
      exact step_inv hInv hTurn hStep
  obtain hFailed | ⟨side, r, c, hPending, -⟩ | ⟨hReady, done, middle, hSerial⟩ := hInv
  · exact absurd hFailed hSound
  · simp only [Writer.pending, hOk side] at hPending
    cases hPending
  have hDone (side : Side) : (ops side).tasks sha ws = done side := by
    have hHand := hReady.inHand side
    simp only [Writer.InHand, hOk side] at hHand
    rw [hSerial.split, hHand, List.append_nil]
  have hFirst := hSerial.firstDone
  have hSecond := hSerial.secondDone
  rw [← hDone] at hFirst hSecond
  obtain ⟨d₁, hAlone₁, rfl⟩ := alone_of_exec stamp (hMade first) (hStarts first) hFirst
  obtain ⟨d₂, hAlone₂, hFiles⟩ :=
    alone_of_exec stamp (hMade first.other) (hStarts first.other) hSecond
  refine ⟨d₁, d₂, hAlone₁, hAlone₂, fun p => ?_⟩
  exact (congrFun hFiles (some p)).symm

/-- Two patches of the file `w/f`. -/
def twoPatches (old₁ new₁ old₂ new₂ : String) : Side → WriteOp Text
  | .one => .patch ⟨['f'], some [⟨some old₁.toList, some new₁.toList⟩], false⟩
  | .two => .patch ⟨['f'], some [⟨some old₂.toList, some new₂.toList⟩], false⟩

def turn (side : Side) : Turn := ⟨side, 0, false⟩

theorem no_lost_update_in_turn :
    ∃ (s : TwoWriters Text) (d₁ d₂ : Disk), (∀ side, (s.writer side).phase = .ended true) ∧
      (twoPatches "a" "x" "b" "y" .one).alone id [['w']] (fun _ => 0)
        (ChangesetStore.oneFile "ab") = some d₁ ∧
      (twoPatches "a" "x" "b" "y" .two).alone id [['w']] (fun _ => 0) d₁ = some d₂ ∧
      ∀ p, s.disk (.file p) = d₂ (.file p) := by
  have hRun : ((run (step id) (start id [['w']] (twoPatches "a" "x" "b" "y")
      (ChangesetStore.oneFile "ab")) ([.one, .one, .one, .one, .two, .two, .two, .two].map turn)).map
      fun s => decide (∀ side, (s.writer side).phase = .ended true)) = some true := by
    decide +kernel
  obtain ⟨s, hs, hOk⟩ := Option.map_eq_some_iff.mp hRun
  have hReach : Reach (step id) (InTurn .one) (· = start id [['w']] (twoPatches "a" "x" "b" "y")
      (ChangesetStore.oneFile "ab")) s :=
    Reach.run (.start rfl) hs (by decide +kernel)
  have hMade (side : Side) : (twoPatches "a" "x" "b" "y" side).Made id [['w']] := by
    cases side <;> trivial
  obtain ⟨d₁, d₂, hAlone⟩ := no_lost_update hMade hReach (of_decide_eq_true hOk)
  exact ⟨s, d₁, d₂, of_decide_eq_true hOk, hAlone⟩

/-- Both patches read the file before one of them has replaced it: both report success, and the
first edit is gone. -/
theorem edit_overwritten :
    ¬ ∀ (ops : Side → WriteOp Text) (d₀ : Disk) (s : TwoWriters Text),
      (∀ side, (ops side).Made id [['w']]) →
      Reach (step id) Anything (· = start id [['w']] ops d₀) s →
      (∀ side, (s.writer side).phase = .ended true) →
      ∃ first d₁ d₂, (ops first).alone id [['w']] (fun _ => 0) d₀ = some d₁ ∧
        (ops first.other).alone id [['w']] (fun _ => 0) d₁ = some d₂ ∧
        ∀ p, s.disk (.file p) = d₂ (.file p) := by
  intro h
  have hRun : ((run (step id) (start id [['w']] (twoPatches "a" "x" "b" "y")
      (ChangesetStore.oneFile "ab")) ([.one, .two, .one, .one, .one, .two, .two, .two].map turn)).map
      fun s => (decide (∀ side, (s.writer side).phase = .ended true),
        s.disk (.file [['w'], ['f']]))) = some (true, some (encode "ay".toList)) := by
    decide +kernel
  obtain ⟨s, hs, hEq⟩ := Option.map_eq_some_iff.mp hRun
  obtain ⟨hOk, hFile⟩ := Prod.mk.inj hEq
  obtain ⟨first, d₁, d₂, hAlone₁, hAlone₂, hSame⟩ := h _ _ s
    (fun side => by cases side <;> trivial) (reach_of_run rfl hs) (of_decide_eq_true hOk)
  have hSerial (first : Side) : (((twoPatches "a" "x" "b" "y" first).alone id [['w']] (fun _ => 0)
      (ChangesetStore.oneFile "ab")).bind fun d =>
        ((twoPatches "a" "x" "b" "y" first.other).alone id [['w']] (fun _ => 0) d).map
          fun d => d (.file [['w'], ['f']])) = some (some (encode "xy".toList)) := by
    cases first <;> decide +kernel
  have hBoth := hSerial first
  rw [hAlone₁, Option.bind_some, hAlone₂, Option.map_some, ← hSame, hFile] at hBoth
  exact absurd hBoth (by decide +kernel)

end TwoWriters

end OrchestraAI.Execution
