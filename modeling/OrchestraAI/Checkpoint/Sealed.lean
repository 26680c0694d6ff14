import OrchestraAI.Checkpoint.Restore

/-! # When a stored checkpoint stays as it was sealed

A snapshot keeps references to the arrays and records of the live state, and a restore writes some
of the fields onto the live state and leaves the others. Along a run in which no operation puts
anything new where a captured state looks, or into a field that a restore leaves, the digest still
fits and the restored state is the captured one, if no list of it was cut.
-/

namespace OrchestraAI.Checkpoint

open ObjectHeap LabelledSystem OrchestraAI.State OrchestraAI.State.RuntimeState

variable {δ : Type} (c : Config δ)

def Shared (s : System δ) (a : Addr) : Prop :=
  ∃ d ∈ s.checkpoints, a ∈ d.stateAtCapture.toJSON.footprint s.heap c.nestingLimit

/-- An operation replaces no object that the state of a stored checkpoint reads by a different one,
and no field that a restore leaves. A checkpoint is taken of a state with a JSON text and without a
list that is too long. -/
def LeavesSnapshots (s : System δ) : Label → Prop
  | .op op =>
    (s.checkpoints ≠ [] → LeavesRest s.live op) ∧
      match effect s.heap s.live op with
      | none => True
      | some e => ∀ w ∈ e.writes, Shared c s w.1 → s.heap[w.1]? = some w.2
  | .captureCheckpoint .. =>
    Uncut s.heap s.live ∧ (s.live.toJSON.text s.heap c.nestingLimit).isSome

instance (s : System δ) (a : Addr) : Decidable (Shared c s a) :=
  inferInstanceAs (Decidable (∃ d ∈ s.checkpoints, a ∈ _))

instance (live : RuntimeState) (op : Op) : Decidable (LeavesRest live op) := by
  unfold LeavesRest
  split <;> infer_instance

instance (s : System δ) (l : Label) : Decidable (LeavesSnapshots c s l) := by
  unfold LeavesSnapshots Uncut
  split
  · split <;> infer_instance
  · infer_instance

def Start (s : System δ) : Prop :=
  WellTyped s.heap s.live ∧ s.checkpoints = [] ∧ s.idempotencyKeys = []

/-- Within the age limit the checkpoint is accepted, and restored onto the live state it gives the
whole state as it was at capture; the restore sets the time of the last update. -/
structure Sealed [DecidableEq δ] (s : System δ) (d : Stored δ) : Prop where
  accepted : ∀ now maxAgeMs, now - d.checkpoint.timestamp ≤ maxAgeMs →
    validateCheckpoint c s.heap (some d.checkpoint) s.live.runId now maxAgeMs = .ok d.checkpoint
  restored : ∀ now : ℚ, ∃ text,
    d.stateAtCapture.toJSON.text d.heapAtCapture c.nestingLimit = some text ∧
      ({ (applySnapshotToRuntime s.heap s.live d.checkpoint.stateSnapshot now).2 with
          updatedAt := d.stateAtCapture.updatedAt } : RuntimeState).toJSON.text
        (applySnapshotToRuntime s.heap s.live d.checkpoint.stateSnapshot now).1 c.nestingLimit =
          some text

structure Kept (s : System δ) (d : Stored δ) : Prop where
  snapshot : d.checkpoint.stateSnapshot = d.stateAtCapture.toSnapshot
  digest : checkpointIntegrity c d.heapAtCapture d.checkpoint.runId d.checkpoint.type
    d.checkpoint.stepNumber d.checkpoint.stateSnapshot = some d.checkpoint.integrity
  version : d.checkpoint.version = CHECKPOINT_VERSION
  completed : d.checkpoint.completed = true
  runId : d.checkpoint.runId = s.live.runId
  typed : WellTyped s.heap d.stateAtCapture
  uncut : Uncut d.heapAtCapture d.stateAtCapture
  text : (d.stateAtCapture.toJSON.text d.heapAtCapture c.nestingLimit).isSome
  agrees : Agrees d.heapAtCapture s.heap
    (d.stateAtCapture.toJSON.footprint d.heapAtCapture c.nestingLimit)
  rest : SameRest s.live d.stateAtCapture

structure Inv (s : System δ) : Prop where
  typed : WellTyped s.heap s.live
  kept : ∀ d ∈ s.checkpoints, Kept c s d

variable {c} {s : System δ} {d : Stored δ}

theorem checkpointIntegrity_congr {h k : Heap} {snapshot : RuntimeState}
    (hAgree : Agrees h k (snapshot.toJSON.footprint h c.nestingLimit)) (runId type : String)
    (stepNumber : Nat) : checkpointIntegrity c k runId type stepNumber snapshot =
      checkpointIntegrity c h runId type stepNumber snapshot := by
  simp only [checkpointIntegrity, integrityText, Doc.text_of_agrees hAgree]

theorem Kept.accepted [DecidableEq δ] (h : Kept c s d) {now maxAgeMs : Nat}
    (hAge : now - d.checkpoint.timestamp ≤ maxAgeMs) :
    validateCheckpoint c s.heap (some d.checkpoint) s.live.runId now maxAgeMs =
      .ok d.checkpoint := by
  have hAgree : Agrees d.heapAtCapture s.heap
      (d.checkpoint.stateSnapshot.toJSON.footprint d.heapAtCapture c.nestingLimit) := by
    rw [h.snapshot]
    exact h.agrees.mono (footprint_toSnapshot d.stateAtCapture)
  have hDigest := (checkpointIntegrity_congr hAgree d.checkpoint.runId d.checkpoint.type
    d.checkpoint.stepNumber).trans h.digest
  have hVersion : ¬ (d.checkpoint.version < 1 ∨ d.checkpoint.version > CHECKPOINT_VERSION) := by
    rw [h.version]
    decide
  simp only [validateCheckpoint, h.runId.symm, ne_eq, not_true_eq_false, and_false, if_false,
    if_neg hVersion, h.completed, Bool.true_eq_false, not_lt.mpr hAge, gt_iff_lt, hDigest]

theorem Kept.stillUncut (h : Kept c s d) : Uncut s.heap d.stateAtCapture := by
  have hDiscarded : Val.ref d.stateAtCapture.context.discardedItems ∈
      d.stateAtCapture.toJSON.values :=
    discarded_mem_values d.stateAtCapture
  have hSame : s.heap[d.stateAtCapture.context.discardedItems]? =
      d.heapAtCapture[d.stateAtCapture.context.discardedItems]? :=
    h.agrees _ (Doc.mem_footprint hDiscarded
      (self_mem_footprint (Doc.text_values h.text _ hDiscarded)))
  obtain ⟨hCosts, hSteps, hCalls, hFew⟩ := h.uncut
  refine ⟨hCosts, hSteps, hCalls, ?_⟩
  rwa [arrayAt, hSame, ← arrayAt]

theorem Kept.restored (h : Kept c s d) (now : ℚ) : ∃ text,
    d.stateAtCapture.toJSON.text d.heapAtCapture c.nestingLimit = some text ∧
      ({ (applySnapshotToRuntime s.heap s.live d.checkpoint.stateSnapshot now).2 with
          updatedAt := d.stateAtCapture.updatedAt } : RuntimeState).toJSON.text
        (applySnapshotToRuntime s.heap s.live d.checkpoint.stateSnapshot now).1 c.nestingLimit =
          some text := by
  obtain ⟨text, hText⟩ := Option.isSome_iff_exists.mp h.text
  have hNow := (Doc.text_of_agrees h.agrees).trans hText
  refine ⟨text, hText, ?_⟩
  rw [h.snapshot]
  exact (restore_text h.typed h.stillUncut (Option.isSome_of_eq_some hNow) h.rest now).trans hNow

theorem Kept.sealed [DecidableEq δ] (h : Kept c s d) : Sealed c s d :=
  ⟨fun _ _ hAge => h.accepted hAge, h.restored⟩

theorem Kept.op (h : Kept c s d) (hMem : d ∈ s.checkpoints) {op : Op} {e : Effect}
    (hEffect : effect s.heap s.live op = some e) (he : TypedEffect s.heap s.live e)
    (hRest : LeavesRest s.live op)
    (hLeaves : ∀ w ∈ e.writes, Shared c s w.1 → s.heap[w.1]? = some w.2) :
    Kept c { s with heap := e.heap s.heap, live := e.live } d := by
  refine ⟨h.snapshot, h.digest, h.version, h.completed, h.runId.trans he.runId.symm,
    h.typed.mono he.kindKept, h.uncut, h.text, fun a ha => ?_, h.rest.op hEffect hRest⟩
  have hAllocated := Doc.allocated h.text a ha
  have hNow : s.heap[a]? = d.heapAtCapture[a]? := h.agrees a ha
  have hlt : a < s.heap.length := by
    rw [List.getElem?_eq_getElem hAllocated] at hNow
    exact (List.getElem?_eq_some_iff.mp hNow).1
  have hShared : Shared c s a := ⟨d, hMem, (Doc.footprint_congr h.agrees).symm ▸ ha⟩
  have hWrites : (writeAll s.heap e.writes)[a]? = s.heap[a]? :=
    getElem?_writeAll fun w hw heq => heq ▸ hLeaves w hw (heq.symm ▸ hShared)
  rw [← hNow, ← hWrites]
  exact List.getElem?_append_left (by rwa [length_writeAll])

theorem Kept.congr {t : System δ} (h : Kept c s d) (hHeap : t.heap = s.heap)
    (hLive : t.live = s.live) : Kept c t d :=
  ⟨h.snapshot, h.digest, h.version, h.completed, hLive ▸ h.runId, hHeap ▸ h.typed, h.uncut, h.text,
    hHeap ▸ h.agrees, hLive ▸ h.rest⟩

theorem store_spec (c : Config δ) (s : System δ) (stored : Stored δ) :
    (s.store c stored).heap = s.heap ∧ (s.store c stored).live = s.live ∧
      ∀ d ∈ (s.store c stored).checkpoints, d ∈ s.checkpoints ∨ d = stored := by
  unfold System.store
  dsimp only
  split
  · refine ⟨rfl, rfl, fun d hd => ?_⟩
    simpa using List.mem_of_mem_tail hd
  · exact ⟨rfl, rfl, fun d hd => by simpa using hd⟩

theorem Inv.capture (h : Inv c s) (hUncut : Uncut s.heap s.live)
    (hText : (s.live.toJSON.text s.heap c.nestingLimit).isSome) (checkpointId type : String)
    (extraStep : Option Nat) (now : Nat) :
    Inv c (s.captureCheckpoint c checkpointId type extraStep now) := by
  unfold System.captureCheckpoint
  dsimp only
  split
  · exact h
  · rename_i integrity hDigest
    split
    · exact h
    · obtain ⟨hHeap, hLive, hMem⟩ := store_spec c s ⟨completedCheckpoint s.live checkpointId type
        (extraStep.getD s.live.execution.currentStep) now integrity, s.heap, s.live⟩
      refine ⟨by rw [hHeap, hLive]; exact h.typed, fun d hd => ?_⟩
      rcases hMem d hd with hd | rfl
      · exact (h.kept d hd).congr hHeap hLive
      · exact Kept.congr ⟨rfl, hDigest, rfl, rfl, rfl, h.typed, hUncut, hText, fun _ _ => rfl, rfl⟩
          hHeap hLive

theorem inv_step (s : System δ) (l : Label) (t : System δ) (h : Inv c s)
    (hLeaves : LeavesSnapshots c s l) (hs : s.step c l = some t) : Inv c t := by
  cases l with
  | op op =>
    obtain ⟨e, he, rfl⟩ := Option.map_eq_some_iff.mp hs
    have hTyped := effect_typed h.typed he
    obtain ⟨hRest, hWrites⟩ := hLeaves
    rw [he] at hWrites
    refine ⟨hTyped.wellTyped h.typed, fun d hd => ?_⟩
    exact (h.kept d hd).op hd he hTyped (hRest (List.ne_nil_of_mem hd)) hWrites
  | captureCheckpoint checkpointId type extraStep now =>
    cases hs
    exact h.capture hLeaves.1 hLeaves.2 checkpointId type extraStep now

/-- Stored checkpoints stay sealed along every run that leaves their snapshots alone. -/
theorem checkpoint_sealed [DecidableEq δ] (h : Reach (System.step c) (LeavesSnapshots c) Start s) :
    ∀ d ∈ s.checkpoints, Sealed c s d := by
  have hInv : Inv c s := by
    refine h.invariant (I := Inv c) ?_ fun s l t hI hok hs => inv_step s l t hI hok hs
    rintro s ⟨hTyped, hEmpty, -⟩
    refine ⟨hTyped, fun d hd => ?_⟩
    rw [hEmpty] at hd
    cases hd
  exact fun d hd => (hInv.kept d hd).sealed

def plainDigest : Config ObjectHeap.Text := ⟨id, 100, 50⟩

def newSystem : System ObjectHeap.Text :=
  let run := RuntimeState.new "run-1" "task-1" "fix the parser" 0
  ⟨run.1, run.2, [], []⟩

theorem newSystem_start : Start newSystem := ⟨new_wellTyped .., rfl, rfl⟩

/-- A context item, one step, a checkpoint, and then a model call and a second step. -/
def twoSteps : List Label :=
  [.op (.newObject (.record [("id", .str "ctx-1"), ("tokens", .num 120)])), .op (.addItem 18),
    .op (.startStep [] 1000), .op (.completeStep .null 1500),
    .captureCheckpoint "checkpoint-1" "step_complete" none 2000,
    .op (.newObject (.record [("id", .str "call-1")])), .op (.addModelCall 20 2500),
    .op (.startStep [] 3000), .op (.completeStep .null 3500),
    .captureCheckpoint "checkpoint-2" "step_complete" none 4000]

theorem checkpoint_sealed_two_steps :
    ∃ s, run (System.step plainDigest) newSystem twoSteps = some s ∧ s.checkpoints.length = 2 ∧
      ∀ d ∈ s.checkpoints, Sealed plainDigest s d := by
  have hRun : (run (System.step plainDigest) newSystem twoSteps).map
      (fun s => s.checkpoints.length) = some 2 := by decide +kernel
  obtain ⟨s, hs, hLength⟩ := Option.map_eq_some_iff.mp hRun
  refine ⟨s, hs, hLength, checkpoint_sealed ((Reach.start newSystem_start).run hs ?_)⟩
  decide +kernel

/-- A context item added after the checkpoint: the snapshot holds the live array, its digest no
longer fits, and the newest checkpoint is refused as corrupt. -/
theorem checkpoint_corrupted_by_addItem :
    ¬ ∀ c : Config ObjectHeap.Text, Function.Injective c.sha256Hex →
      ∀ s, Reach (System.step c) Anything Start s → ∀ d ∈ s.checkpoints, Sealed c s d := by
  intro h
  have hRun : (run (System.step plainDigest) newSystem
      [.op (.startStep [] 1000), .captureCheckpoint "checkpoint-1" "step_complete" none 2000,
        .op (.newObject (.record [("id", .str "ctx-1"), ("tokens", .num 120)])),
        .op (.addItem 19)]).map (fun s => s.checkpoints.map fun d =>
          (d.checkpoint.timestamp, match validateCheckpoint plainDigest s.heap (some d.checkpoint)
            s.live.runId 2001 with
          | .ok _ => none
          | .error e => some e.code)) = some [(2000, some .corrupt)] := by decide +kernel
  obtain ⟨s, hs, hEnd⟩ := Option.map_eq_some_iff.mp hRun
  obtain ⟨d, hd, hCorrupt⟩ := List.map_eq_singleton_iff.mp hEnd
  obtain ⟨hTime, hCode⟩ := Prod.mk.inj hCorrupt
  have hSealed := h plainDigest Function.injective_id s (reach_of_run newSystem_start hs) d
    (hd ▸ List.mem_singleton_self d)
  have hOk := hSealed.accepted 2001 CHECKPOINT_MAX_AGE_MS (by rw [hTime]; decide)
  rw [hOk] at hCode
  cases hCode

end OrchestraAI.Checkpoint
