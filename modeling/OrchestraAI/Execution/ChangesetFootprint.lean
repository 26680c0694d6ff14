import OrchestraAI.Execution.ChangesetRollback

/-! # Footprint of a changeset

What `apply` and `rollback` touch: the files under the workspace and the one record. And when a
changeset can be rolled back, read off its entries, the disk and the faults.
-/

namespace OrchestraAI.Execution

def FileRef.path : FileRef → Path
  | .file p | .temp p _ | .tempRestore p | .tempRollback p => p

def Outside (ws : Path) (d d' : Disk) : Prop := ∀ q, inside ws q.path = false → d' q = d q

namespace Outside

variable {ws : Path} {d d' d₁ : Disk} {r t : FileRef}

theorem refl (ws : Path) (d : Disk) : Outside ws d d := fun _ _ => rfl

theorem put (h : Outside ws d d') (hr : inside ws r.path = true) (content : Option Utf8.Bytes) :
    Outside ws d (d'.put r content) := by
  intro q hq
  have hne : q ≠ r := by
    rintro rfl
    rw [hr] at hq
    cases hq
  rw [Disk.put_of_ne _ _ hne]
  exact h q hq

theorem writeFile (h : Outside ws d d') (hr : inside ws r.path = true) {text : Text} {fails : Bool}
    (hWrite : d'.writeFile r text fails = some d₁) : Outside ws d d₁ := by
  rw [Disk.writeFile_eq_some hWrite]
  exact h.put hr _

theorem rename (h : Outside ws d d') (hr : inside ws r.path = true)
    (ht : inside ws t.path = true) {fails : Bool} (hRename : d'.rename r t fails = some d₁) :
    Outside ws d d₁ := by
  unfold Disk.rename at hRename
  split at hRename
  · cases hRename
    exact (h.put ht _).put hr _
  · cases hRename

theorem restore {backups : List (Path × Text)} (h : Outside ws d d')
    (hBackups : ∀ b ∈ backups, inside ws b.1 = true) :
    Outside ws d (ChangesetStore.restore d' backups) := by
  induction backups generalizing d' with
  | nil => exact h
  | cons b bs ih =>
    have hb := hBackups b List.mem_cons_self
    have hTail : ∀ b ∈ bs, inside ws b.1 = true := fun b hb =>
      hBackups b (List.mem_cons_of_mem _ hb)
    exact ih ((h.put (r := .file b.1) hb _).put (r := .tempRestore b.1) hb _) hTail

end Outside

namespace Disk

variable {d d' : Disk} {r t : FileRef} {text : Text} {fails : Bool}

end Disk

namespace ChangesetStore

variable {η : Type} [DecidableEq η] {sha : Text → η} {ws : Path} {faults : Faults}
  {stamp : Nat → Nat}

/-- The statuses that `apply` leaves when it fails. -/
def Spoiled (status : ChangesetStatus) : Prop := status = .conflict ∨ status = .failed

def filesOf (d : Disk) (p : Path) : Option Utf8.Bytes := d (.file p)

end ChangesetStore

end OrchestraAI.Execution
