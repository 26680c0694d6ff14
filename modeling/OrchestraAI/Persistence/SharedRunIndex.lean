import Mathlib.Data.Fintype.Basic
import Mathlib.Data.Prod.Lex
import Mathlib.Data.String.Basic
import OrchestraAI.Persistence.IndexAgreement
import OrchestraAI.Persistence.RunIndex

/-! # One run index for several instances

`restorePersisted`, `persistActive` and the persistence of a run's end in `server.js`, by several
processes over the table `run_index`. A process runs its tasks from one `await` to the next, and
between them the others do.
-/

namespace OrchestraAI.Persistence.SharedIndex

open LabelledSystem RankedRows
open OrchestraAI.Core (TaskStatus)

/-- What `getActiveRuns` says of a run. -/
structure Summary where
  id : RunId
  orgId : String
  internalStatus : TaskStatus
  /-- The episode of the run that the summary is of: a retry or a continuation starts one. -/
  episode : Nat
  deriving DecidableEq

/-- What a row holds: a summary, or one that `restorePersisted` has marked. -/
structure Entry where
  summary : Summary
  interrupted : Bool
  deriving DecidableEq

structure Row where
  entry : Entry
  updatedAt : Nat
  deriving DecidableEq

namespace Entry

def Settled (e : Entry) : Prop := e.summary.internalStatus.terminal = true ∧ e.interrupted = false

def Damaged (e : Entry) : Prop := e.summary.internalStatus = .failed ∨ e.interrupted = true

instance (e : Entry) : Decidable e.Settled := inferInstanceAs (Decidable (_ ∧ _))

instance (e : Entry) : Decidable e.Damaged := inferInstanceAs (Decidable (_ ∨ _))

/-- The rewriting of `restorePersisted`. -/
def interrupt (e : Entry) : Entry :=
  if e.summary.internalStatus.terminal then e
  else ⟨{ e.summary with internalStatus := .failed }, true⟩

end Entry

namespace Row

def id (row : Row) : RunId := row.entry.summary.id

def orgId (row : Row) : String := row.entry.summary.orgId

/-- `ORDER BY updated_at DESC, id DESC`. -/
def recency (row : Row) : Nat ×ₗ RunId := toLex (row.updatedAt, row.id)

end Row

def loadRunIndex (rows : List Row) : List Entry :=
  ((ordered Row.recency rows).take runIndexReadLimit).map Row.entry

/-- `INSERT … ON CONFLICT (id) DO UPDATE`. -/
def upsertRow (now : Nat) (rows : List Row) (e : Entry) : List Row :=
  rows.filter (fun row => row.id ≠ e.summary.id) ++ [⟨e, now⟩]

def pruneRunIndex (rows : List Row) : List Row :=
  pruned Row.orgId Row.recency RunEntry.maxRunIndexPerTenant rows

/-- `saveRunIndex`; `upsertRunSummary` is that of one summary. -/
def saveRunIndex (now : Nat) (rows : List Row) (list : List Entry) : List Row :=
  pruneRunIndex (list.foldl (upsertRow now) rows)

/-- A row after a save is one of the list, or an old one of a run that is not in it. -/
theorem mem_saveRunIndex {now : Nat} {rows : List Row} {list : List Entry} {row : Row}
    (h : row ∈ saveRunIndex now rows list) :
    row.entry ∈ list ∧ row.updatedAt = now ∨
      row ∈ rows ∧ row.id ∉ list.map fun e => e.summary.id := by
  have hFold := (mem_pruned.mp h).1
  clear h
  induction list generalizing rows with
  | nil => exact .inr ⟨hFold, List.not_mem_nil⟩
  | cons e list ih =>
    obtain ⟨hList, hNow⟩ | ⟨hRow, hOther⟩ := ih hFold
    · exact .inl ⟨List.mem_cons_of_mem e hList, hNow⟩
    · obtain hOld | hNew := List.mem_append.mp hRow
      · obtain ⟨hMem, hNe⟩ := List.mem_filter.mp hOld
        refine .inr ⟨hMem, ?_⟩
        rw [List.map_cons, List.mem_cons, not_or]
        exact ⟨of_decide_eq_true hNe, hOther⟩
      · rw [List.mem_singleton.mp hNew]
        exact .inl ⟨List.mem_cons_self, rfl⟩

structure ActiveRun where
  orgId : String
  internalStatus : TaskStatus
  episode : Nat
  /-- When its episode was opened. -/
  openedAt : Nat

def ActiveRun.summary (run : ActiveRun) (id : RunId) : Summary :=
  ⟨id, run.orgId, run.internalStatus, run.episode⟩

/-- A process is not started again: a restart is another process. -/
inductive Phase
  | new
  | live
  | stopped
  deriving DecidableEq

inductive Task
  /-- `restorePersisted` awaits the boot. -/
  | boots
  /-- It has the index. -/
  | restores (loaded : List Entry)
  /-- `persistActive` has its summaries. -/
  | captured (runs : List Summary)
  /-- It has the artifacts of these runs to persist. -/
  | artifacts (runs : List Summary)
  /-- `onRunEnd`. -/
  | runEnd (summary : Summary)

structure Instances (ι : Type) where
  phase : ι → Phase
  activeRuns : ι → OrderedMap RunId ActiveRun
  /-- The table `run_index`. -/
  rows : List Row
  now : Nat
  tasks : List (ι × Task)
  /-- The process that created a run, the only one that executes it. -/
  home : RunId → Option ι
  /-- The number of episodes of each run. -/
  episodes : RunId → Nat
  /-- The episodes whose end was written by the process that executed them. -/
  ended : List (RunId × Nat)

namespace Instances

variable {ι : Type}

def getActiveRuns (s : Instances ι) (p : ι) : List Summary :=
  (s.activeRuns p).entries.map fun run => run.2.summary run.1

def record (s : Instances ι) (list : List Entry) : Instances ι :=
  { s with rows := saveRunIndex (s.now + 1) s.rows list, now := s.now + 1 }

def recordRuns (s : Instances ι) (runs : List Summary) : Instances ι :=
  { s.record (runs.map fun r => ⟨r, false⟩) with
    ended := s.ended ++
      (runs.filter fun r => r.internalStatus.terminal).map fun r => (r.id, r.episode) }

inductive Label (ι : Type)
  | boots (p : ι)
  | stops (p : ι)
  /-- A run is created, or opened again for a retry or a continuation. -/
  | opens (p : ι) (id : RunId) (orgId : String) (status : TaskStatus)
  | moves (p : ι) (id : RunId) (status : TaskStatus)
  | retires (p : ι) (id : RunId)
  /-- `persistActive` takes the summaries of the active runs. -/
  | captures (p : ι)
  /-- A task goes on to its next `await`; what it writes may not be committed. -/
  | advances (task : Nat) (committed : Bool)
  /-- A task throws. -/
  | drops (task : Nat)

def advance (s : Instances ι) (task : Nat) (p : ι) (committed : Bool) : Task → Instances ι
  | .boots => { s with tasks := s.tasks.set task (p, .restores (loadRunIndex s.rows)) }
  | .restores loaded =>
    let s := if committed && loaded.any (fun e => !e.summary.internalStatus.terminal) then
      s.record (loaded.map Entry.interrupt) else s
    { s with tasks := s.tasks.eraseIdx task }
  | .captured runs =>
    let s := if committed && !runs.isEmpty then s.recordRuns runs else s
    { s with tasks := s.tasks.set task (p, .artifacts runs) }
  | .artifacts [] => { s with tasks := s.tasks.eraseIdx task }
  | .artifacts (run :: runs) =>
    let s := if committed then s.recordRuns [run] else s
    { s with tasks := s.tasks.set task (p, .artifacts runs) }
  | .runEnd summary =>
    let s := if committed then s.recordRuns [summary] else s
    { s with tasks := s.tasks.eraseIdx task }

def withRuns [DecidableEq ι] (s : Instances ι) (p : ι) (runs : OrderedMap RunId ActiveRun) :
    Instances ι :=
  { s with activeRuns := Function.update s.activeRuns p runs }

def step [DecidableEq ι] (s : Instances ι) : Label ι → Option (Instances ι)
  | .boots p =>
    if s.phase p = .new then
      some { s with phase := Function.update s.phase p .live, tasks := s.tasks ++ [(p, .boots)] }
    else none
  | .stops p =>
    some
      { s.withRuns p .empty with
        phase := Function.update s.phase p .stopped
        tasks := s.tasks.filter fun t => t.1 ≠ p }
  | .opens p id orgId status =>
    if s.phase p = .live ∧ (s.home id = none ∨ s.home id = some p) ∧ status.terminal = false ∧
        ((s.activeRuns p).get id).all (fun run => run.internalStatus.terminal) then
      let episode := s.episodes id + 1
      some
        { s.withRuns p ((s.activeRuns p).set id ⟨orgId, status, episode, s.now⟩) with
          home := Function.update s.home id (some p)
          episodes := Function.update s.episodes id episode }
    else none
  | .moves p id status =>
    ((s.activeRuns p).get id).bind fun run =>
      -- a terminal status is left by opening the run again
      if run.internalStatus.terminal && !status.terminal then none
      else
        let run := { run with internalStatus := status }
        some
          { s.withRuns p ((s.activeRuns p).set id run) with
            tasks := if status.terminal then s.tasks ++ [(p, .runEnd (run.summary id))]
              else s.tasks }
  | .retires p id => some (s.withRuns p ((s.activeRuns p).delete id))
  | .captures p => some { s with tasks := s.tasks ++ [(p, .captured (s.getActiveRuns p))] }
  | .advances task committed =>
    s.tasks[task]?.map fun suspended => s.advance task suspended.1 committed suspended.2
  | .drops task => some { s with tasks := s.tasks.eraseIdx task }

def Start (s : Instances ι) : Prop :=
  (∀ p, s.phase p = .new ∧ s.activeRuns p = .empty) ∧ s.rows = [] ∧ s.tasks = [] ∧ s.ended = []

def Running (s : Instances ι) (p : ι) (id : RunId) (run : ActiveRun) : Prop :=
  s.phase p = .live ∧ (s.activeRuns p).get id = some run ∧ run.internalStatus.terminal = false

/-- A run that is executed has not been recorded as failed or interrupted since it was opened,
and an end that its process wrote has not been overwritten in its episode. -/
structure Undamaged (s : Instances ι) : Prop where
  executed : ∀ row ∈ s.rows, row.entry.Damaged →
    ∀ p run, s.Running p row.id run → row.updatedAt ≤ run.openedAt
  ended : ∀ row ∈ s.rows, (row.id, row.entry.summary.episode) ∈ s.ended → row.entry.Settled

def Idle (s : Instances ι) (id : RunId) : Prop :=
  ∀ p, s.phase p = .live → ∀ run ∈ (s.activeRuns p).get id, run.internalStatus.terminal = true

/-- An entry that a boot has loaded is of a run that is not executed, unless it is of one that
was completed or cancelled; one that is not of a run's end is not of an episode that has ended. -/
def Abandoned (s : Instances ι) (e : Entry) : Prop :=
  (e.summary.internalStatus.terminal = false ∨ e.Damaged → s.Idle e.summary.id) ∧
    (¬ e.Settled → (e.summary.id, e.summary.episode) ∉ s.ended)

/-- The run of a summary that says failed has not been opened again, and the episode of one that
says that it goes on has not ended. -/
def NotOvertaken (s : Instances ι) (r : Summary) : Prop :=
  (r.internalStatus = .failed → s.Idle r.id) ∧
    (r.internalStatus.terminal = false → (r.id, r.episode) ∉ s.ended)

def Current (s : Instances ι) : Task → Prop
  | .boots => True
  | .restores loaded => (∃ e ∈ loaded, e.summary.internalStatus.terminal = false) →
    ∀ e ∈ loaded, s.Abandoned e
  | .captured runs => ∀ r ∈ runs, s.NotOvertaken r
  | .artifacts runs => ∀ r ∈ runs.head?, s.NotOvertaken r
  | .runEnd summary => s.NotOvertaken summary

def Orderly (s : Instances ι) : Label ι → Prop
  | .advances task committed => committed = true →
    ∀ suspended ∈ s.tasks[task]?, s.Current suspended.2
  | _ => True

/-- An entry that is written for a run that is idle if it says failed or interrupted, and that
is not of an episode that has ended unless it is of the end. -/
def Writable (s : Instances ι) (e : Entry) : Prop :=
  (e.Damaged → s.Idle e.summary.id) ∧
    (¬ e.Settled → (e.summary.id, e.summary.episode) ∉ s.ended)

/-- `persistActive` has one summary for each run, and the end of a run is one. -/
def Formed : Task → Prop
  | .captured runs => (runs.map Summary.id).Nodup
  | .runEnd summary => summary.internalStatus.terminal = true
  | _ => True

structure Sound (s : Instances ι) : Prop extends Undamaged s where
  clock : ∀ row ∈ s.rows, row.updatedAt ≤ s.now
  formed : ∀ t ∈ s.tasks, Formed t.2
  live : ∀ p id run, (s.activeRuns p).get id = some run → s.phase p = .live

variable {s t : Instances ι} {l : Label ι}

theorem Idle.not_running {id : RunId} (h : s.Idle id) {p : ι} {run : ActiveRun}
    (hRun : s.Running p id run) : False := by
  obtain ⟨hLive, hGet, hStatus⟩ := hRun
  rw [h p hLive run hGet] at hStatus
  cases hStatus

theorem interrupt_writable {e : Entry} (h : s.Abandoned e) : s.Writable e.interrupt := by
  obtain ⟨hIdle, hEnded⟩ := h
  unfold Entry.interrupt
  split
  · exact ⟨fun hDamaged => hIdle (.inr hDamaged), hEnded⟩
  · rename_i hStatus
    refine ⟨fun _ => hIdle (.inl (Bool.not_eq_true _ ▸ hStatus)), fun _ => hEnded ?_⟩
    exact fun hSettled => hStatus hSettled.1

theorem summary_writable {r : Summary} (h : s.NotOvertaken r) : s.Writable ⟨r, false⟩ := by
  obtain ⟨hIdle, hEnded⟩ := h
  constructor
  · rintro (hFailed | hInterrupted)
    · exact hIdle hFailed
    · cases hInterrupted
  · intro hSettled
    refine hEnded (Bool.not_eq_true _ ▸ fun hTerminal => hSettled ⟨hTerminal, rfl⟩)

theorem Sound.record (hs : s.Sound) {list : List Entry} (hList : ∀ e ∈ list, s.Writable e) :
    (s.record list).Sound := by
  refine ⟨⟨fun row hRow hDamaged p run hRun => ?_, fun row hRow hEnded => ?_⟩, fun row hRow => ?_,
    hs.formed, hs.live⟩
  · obtain ⟨hNew, -⟩ | ⟨hOld, -⟩ := mem_saveRunIndex hRow
    · exact (((hList _ hNew).1 hDamaged).not_running hRun).elim
    · exact hs.executed row hOld hDamaged p run hRun
  · obtain ⟨hNew, -⟩ | ⟨hOld, -⟩ := mem_saveRunIndex hRow
    · by_contra hSettled
      exact (hList _ hNew).2 hSettled hEnded
    · exact hs.ended row hOld hEnded
  · obtain ⟨-, hNow⟩ | ⟨hOld, -⟩ := mem_saveRunIndex hRow
    · exact hNow.le
    · exact (hs.clock row hOld).trans (Nat.le_succ _)

theorem Sound.recordRuns (hs : s.Sound) {runs : List Summary} (hNodup : (runs.map Summary.id).Nodup)
    (hRuns : ∀ r ∈ runs, s.NotOvertaken r) : (s.recordRuns runs).Sound := by
  have hRecord : (s.record (runs.map fun r => ⟨r, false⟩)).Sound := by
    refine hs.record fun e he => ?_
    obtain ⟨r, hr, rfl⟩ := List.mem_map.mp he
    exact summary_writable (hRuns r hr)
  refine { hRecord with ended := fun row hRow hEnded => ?_ }
  obtain hOld | hNew := List.mem_append.mp hEnded
  · exact hRecord.ended row hRow hOld
  · -- the row is that of the summary, since no other of the list is of its run
    obtain ⟨r, hr, hSame⟩ := List.mem_map.mp hNew
    obtain ⟨hMem, hTerminal⟩ := List.mem_filter.mp hr
    have hId : r.id = row.id := (Prod.mk.inj hSame).1
    obtain ⟨hWritten, -⟩ | ⟨-, hOther⟩ := mem_saveRunIndex hRow
    · obtain ⟨r', hr', hEntry⟩ := List.mem_map.mp hWritten
      have hIds : r'.id = r.id := by
        rw [hId, Row.id, ← hEntry]
      obtain rfl := List.inj_on_of_nodup_map hNodup hr' hMem hIds
      rw [← hEntry]
      exact ⟨hTerminal, rfl⟩
    · refine absurd ?_ hOther
      rw [List.map_map, ← hId]
      exact List.mem_map_of_mem hMem

theorem Sound.withTasks (hs : s.Sound) {tasks : List (ι × Task)}
    (hTasks : ∀ t ∈ tasks, t ∈ s.tasks ∨ Formed t.2) : Sound { s with tasks := tasks } :=
  { hs with formed := fun t ht => (hTasks t ht).elim (hs.formed t) id }

theorem sound_advance (hs : s.Sound) {task : Nat} {p : ι} {committed : Bool} {suspended : Task}
    (hFormed : Formed suspended) (hCurrent : committed = true → s.Current suspended) :
    (s.advance task p committed suspended).Sound := by
  have hSet {u : Instances ι} (hu : u.Sound) {next : Task} (hNext : Formed next) :
      Sound { u with tasks := u.tasks.set task (p, next) } := by
    refine hu.withTasks fun t ht => ?_
    obtain hOld | rfl := List.mem_or_eq_of_mem_set ht
    · exact .inl hOld
    · exact .inr hNext
  have hErase {u : Instances ι} (hu : u.Sound) :
      Sound { u with tasks := u.tasks.eraseIdx task } :=
    hu.withTasks fun t ht => .inl (List.mem_of_mem_eraseIdx ht)
  cases suspended with
  | boots => exact hSet hs trivial
  | restores loaded =>
    refine hErase ?_
    split
    · rename_i hSaves
      obtain ⟨hCommitted, hAny⟩ := Bool.and_eq_true_iff.mp hSaves
      obtain ⟨e, he, hStatus⟩ := List.any_eq_true.mp hAny
      refine hs.record fun e' he' => ?_
      obtain ⟨entry, hEntry, rfl⟩ := List.mem_map.mp he'
      exact interrupt_writable (hCurrent hCommitted ⟨e, he, by simpa using hStatus⟩ entry hEntry)
    · exact hs
  | captured runs =>
    refine hSet ?_ trivial
    split
    · rename_i hSaves
      exact hs.recordRuns hFormed (hCurrent (Bool.and_eq_true_iff.mp hSaves).1)
    · exact hs
  | artifacts runs =>
    cases runs with
    | nil => exact hErase hs
    | cons run runs =>
      refine hSet ?_ trivial
      split
      · rename_i hCommitted
        refine hs.recordRuns (List.nodup_singleton _) fun r hr => ?_
        exact hCurrent hCommitted r (List.mem_singleton.mp hr ▸ rfl)
      · exact hs
  | runEnd summary =>
    refine hErase ?_
    split
    · rename_i hCommitted
      refine hs.recordRuns (List.nodup_singleton _) fun r hr => ?_
      exact List.mem_singleton.mp hr ▸ hCurrent hCommitted
    · exact hs

theorem withRuns_same [DecidableEq ι] (s : Instances ι) (p : ι)
    (runs : OrderedMap RunId ActiveRun) : (s.withRuns p runs).activeRuns p = runs :=
  Function.update_self ..

theorem withRuns_other [DecidableEq ι] (s : Instances ι) {p q : ι}
    (runs : OrderedMap RunId ActiveRun) (h : q ≠ p) :
    (s.withRuns p runs).activeRuns q = s.activeRuns q := Function.update_of_ne h ..

/-- What the active runs of a live process become: a run that is executed was so before, or is
opened now. -/
theorem Sound.withRuns [DecidableEq ι] (hs : s.Sound) {p : ι}
    {runs : OrderedMap RunId ActiveRun}
    (hLive : ∀ id run, runs.get id = some run → s.phase p = .live)
    (hRuns : ∀ id run, runs.get id = some run → run.internalStatus.terminal = false →
      run.openedAt = s.now ∨ ∃ old, (s.activeRuns p).get id = some old ∧
        old.internalStatus.terminal = false ∧ old.openedAt = run.openedAt) :
    (s.withRuns p runs).Sound := by
  have hActive : ∀ q id run, ((s.withRuns p runs).activeRuns q).get id = some run →
      q = p ∧ runs.get id = some run ∨ (s.activeRuns q).get id = some run := by
    intro q id run hGet
    obtain rfl | hOther := eq_or_ne q p
    · rw [withRuns_same] at hGet
      exact .inl ⟨rfl, hGet⟩
    · rw [withRuns_other _ _ hOther] at hGet
      exact .inr hGet
  refine { hs with
    executed := fun row hRow hDamaged q run hRun => ?_, live := fun q id run hGet => ?_ }
  · obtain ⟨hPhase, hGet, hStatus⟩ := hRun
    obtain ⟨rfl, hNew⟩ | hOld := hActive q row.id run hGet
    · obtain hNow | ⟨old, hOld, hOldStatus, hOpened⟩ := hRuns row.id run hNew hStatus
      · rw [hNow]
        exact hs.clock row hRow
      · rw [← hOpened]
        exact hs.executed row hRow hDamaged q old ⟨hPhase, hOld, hOldStatus⟩
    · exact hs.executed row hRow hDamaged q run ⟨hPhase, hOld, hStatus⟩
  · obtain ⟨rfl, hNew⟩ | hOld := hActive q id run hGet
    · exact hLive id run hNew
    · exact hs.live q id run hOld

theorem getActiveRuns_nodup (s : Instances ι) (p : ι) :
    ((s.getActiveRuns p).map Summary.id).Nodup := by
  rw [getActiveRuns, List.map_map]
  exact OrderedMap.keys_nodup (s.activeRuns p)

theorem sound_step [DecidableEq ι] (hs : s.Sound) (hok : Orderly s l) (h : step s l = some t) :
    t.Sound := by
  cases l with
  | boots p =>
    simp only [step] at h
    split at h
    · rename_i hNew
      cases h
      have hTasks : Sound { s with tasks := s.tasks ++ [(p, .boots)] } := by
        refine hs.withTasks fun u hu => (List.mem_append.mp hu).imp_right fun hLast => ?_
        rw [List.mem_singleton.mp hLast]
        trivial
      have hNone : ∀ id run, (s.activeRuns p).get id ≠ some run := by
        intro id run hGet
        rw [hs.live p id run hGet] at hNew
        cases hNew
      refine { hTasks with
        executed := fun row hRow hDamaged q run hRun => ?_, live := fun q id run hGet => ?_ }
      · obtain ⟨-, hGet, hStatus⟩ := hRun
        exact hs.executed row hRow hDamaged q run ⟨hs.live q _ _ hGet, hGet, hStatus⟩
      · obtain rfl | hOther := eq_or_ne q p
        · exact absurd hGet (hNone id run)
        · exact (Function.update_of_ne hOther ..).trans (hs.live q id run hGet)
    · cases h
  | stops p =>
    cases h
    have hRuns : (s.withRuns p .empty).Sound := by
      refine hs.withRuns (fun id run hGet => ?_) fun id run hGet => ?_
      · rw [OrderedMap.get_empty] at hGet
        cases hGet
      · rw [OrderedMap.get_empty] at hGet
        cases hGet
    have hTasks : Sound { s.withRuns p .empty with tasks := s.tasks.filter fun t => t.1 ≠ p } :=
      hRuns.withTasks fun u hu => .inl (List.mem_filter.mp hu).1
    refine { hTasks with
      executed := fun row hRow hDamaged q run hRun => ?_, live := fun q id run hGet => ?_ }
    · obtain ⟨-, hGet, hStatus⟩ := hRun
      exact hTasks.executed row hRow hDamaged q run ⟨hTasks.live q _ _ hGet, hGet, hStatus⟩
    · obtain rfl | hOther := eq_or_ne q p
      · change ((s.withRuns q .empty).activeRuns q).get id = some run at hGet
        rw [withRuns_same, OrderedMap.get_empty] at hGet
        cases hGet
      · exact (Function.update_of_ne hOther ..).trans (hTasks.live q id run hGet)
  | opens p id orgId status =>
    simp only [step] at h
    split at h
    · rename_i hOpens
      cases h
      have hRuns : (s.withRuns p ((s.activeRuns p).set id
          ⟨orgId, status, s.episodes id + 1, s.now⟩)).Sound := by
        refine hs.withRuns (fun _ _ _ => hOpens.1) fun run active hGet hStatus => ?_
        rw [OrderedMap.get_set] at hGet
        split at hGet
        · cases hGet
          exact .inl rfl
        · exact .inr ⟨active, hGet, hStatus, rfl⟩
      exact { hRuns with }
    · cases h
  | moves p id status =>
    obtain ⟨run, hRun, h⟩ := Option.bind_eq_some_iff.mp h
    split at h
    · cases h
    · rename_i hMoves
      cases h
      have hRuns : (s.withRuns p ((s.activeRuns p).set id
          { run with internalStatus := status })).Sound := by
        refine hs.withRuns (fun _ _ _ => hs.live p id run hRun) fun other active hGet hStatus => ?_
        rw [OrderedMap.get_set] at hGet
        split at hGet
        · rename_i hSame
          cases hGet
          subst hSame
          refine .inr ⟨run, hRun, ?_, rfl⟩
          simpa [hStatus] using hMoves
        · exact .inr ⟨active, hGet, hStatus, rfl⟩
      refine hRuns.withTasks fun u hu => ?_
      split at hu
      · rename_i hTerminal
        refine (List.mem_append.mp hu).imp_right fun hLast => ?_
        rw [List.mem_singleton.mp hLast]
        exact hTerminal
      · exact .inl hu
  | retires p id =>
    cases h
    have hKept : ∀ other run, ((s.activeRuns p).delete id).get other = some run →
        (s.activeRuns p).get other = some run := by
      intro other run hGet
      rw [OrderedMap.get_delete] at hGet
      split at hGet
      · cases hGet
      · exact hGet
    exact hs.withRuns (fun other run hGet => hs.live p other run (hKept other run hGet))
      fun other run hGet hStatus => .inr ⟨run, hKept other run hGet, hStatus, rfl⟩
  | captures p =>
    cases h
    refine hs.withTasks fun u hu => (List.mem_append.mp hu).imp_right fun hLast => ?_
    rw [List.mem_singleton.mp hLast]
    exact s.getActiveRuns_nodup p
  | advances task committed =>
    obtain ⟨suspended, hTask, rfl⟩ := Option.map_eq_some_iff.mp h
    exact sound_advance hs (hs.formed suspended (List.mem_of_getElem? hTask))
      fun hCommitted => hok hCommitted suspended hTask
  | drops task =>
    cases h
    exact hs.withTasks fun u hu => .inl (List.mem_of_mem_eraseIdx hu)

theorem sound_start (h : Start s) : s.Sound := by
  obtain ⟨hNew, hRows, hTasks, -⟩ := h
  refine ⟨⟨fun row hRow => ?_, fun row hRow => ?_⟩, fun row hRow => ?_, fun u hu => ?_,
    fun p id run hGet => ?_⟩
  · rw [hRows] at hRow
    cases hRow
  · rw [hRows] at hRow
    cases hRow
  · rw [hRows] at hRow
    cases hRow
  · rw [hTasks] at hu
    cases hu
  · rw [(hNew p).2, OrderedMap.get_empty] at hGet
    cases hGet

/-- In every interleaving in which no task writes what has been overtaken, and in which what a
boot rewrites was abandoned, no run of a live process is damaged. -/
theorem boots_undamaging [DecidableEq ι] (h : Reach step Orderly Start s) : s.Undamaged :=
  (h.invariant (I := Sound) (fun _ => sound_start)
    fun _ _ _ hs hok hstep => sound_step hs hok hstep).toUndamaged

section Decide

variable [Fintype ι] (s : Instances ι)

instance (id : RunId) : Decidable (s.Idle id) :=
  inferInstanceAs (Decidable (∀ p, s.phase p = .live → ∀ run ∈ (s.activeRuns p).get id, _))

instance (e : Entry) : Decidable (s.Abandoned e) :=
  inferInstanceAs (Decidable ((_ ∨ _ → s.Idle e.summary.id) ∧ (¬ e.Settled → ¬ _)))

instance (r : Summary) : Decidable (s.NotOvertaken r) :=
  inferInstanceAs (Decidable ((_ → s.Idle r.id) ∧ (_ → ¬ _)))

instance : ∀ task, Decidable (s.Current task)
  | .boots => inferInstanceAs (Decidable True)
  | .restores loaded => inferInstanceAs (Decidable ((∃ e ∈ loaded, _) → ∀ e ∈ loaded, s.Abandoned e))
  | .captured runs => inferInstanceAs (Decidable (∀ r ∈ runs, s.NotOvertaken r))
  | .artifacts runs => inferInstanceAs (Decidable (∀ r ∈ runs.head?, s.NotOvertaken r))
  | .runEnd summary => inferInstanceAs (Decidable (s.NotOvertaken summary))

instance : ∀ l, Decidable (Orderly s l)
  | .advances task _ =>
    inferInstanceAs (Decidable (_ → ∀ suspended ∈ s.tasks[task]?, s.Current suspended.2))
  | .boots _ | .stops _ | .opens .. | .moves .. | .retires .. | .captures _ | .drops _ =>
    inferInstanceAs (Decidable True)

end Decide

def empty : Instances (Fin 2) :=
  ⟨fun _ => .new, fun _ => .empty, [], 0, [], fun _ => none, fun _ => 0, []⟩

theorem start_empty : empty.Start := ⟨fun _ => ⟨rfl, rfl⟩, rfl, rfl, rfl⟩

def runId : RunId := Server.runId

def persisted : List (Label (Fin 2)) :=
  [.boots 0, .advances 0 true, .advances 0 true, .opens 0 runId "org" .created,
    .moves 0 runId .executing, .captures 0, .advances 0 true, .advances 0 true, .advances 0 true]

def secondBoot : List (Label (Fin 2)) := [.boots 1, .advances 0 true, .advances 0 true]

def interruptedEntry : Entry := ⟨⟨runId, "org", .failed, 1⟩, true⟩

/-- When the first process has stopped, the boot of the second marks its run. -/
theorem boots_undamaging_restart : ∃ s,
    run step empty (persisted ++ .stops 0 :: secondBoot) = some s ∧
    s.rows.map Row.entry = [interruptedEntry] ∧ s.Undamaged := by
  have hRun : (run step empty (persisted ++ .stops 0 :: secondBoot)).map
      (fun s => s.rows.map Row.entry) = some [interruptedEntry] := by
    decide +kernel
  obtain ⟨s, hs, hRows⟩ := Option.map_eq_some_iff.mp hRun
  exact ⟨s, hs, hRows, boots_undamaging ((Reach.start start_empty).run hs (by decide +kernel))⟩

/-- When it executes its run, the boot marks it all the same. -/
theorem live_run_interrupted : ¬ ∀ s : Instances (Fin 2), Reach step Anything Start s →
    s.Undamaged := by
  intro h
  have hRun : (run step empty (persisted ++ secondBoot)).map (fun s =>
      (s.rows, s.phase 0, ((s.activeRuns 0).get runId).map fun run =>
        (run.internalStatus, run.openedAt))) =
      some ([⟨interruptedEntry, 3⟩], .live, some (.executing, 0)) := by
    decide +kernel
  obtain ⟨s, hs, hState⟩ := Option.map_eq_some_iff.mp hRun
  obtain ⟨hRows, hRest⟩ := Prod.mk.inj hState
  obtain ⟨hLive, hActive⟩ := Prod.mk.inj hRest
  obtain ⟨active, hGet, hRunning⟩ := Option.map_eq_some_iff.mp hActive
  obtain ⟨hStatus, hOpened⟩ := Prod.mk.inj hRunning
  have hLate := (h s (reach_of_run start_empty hs)).executed ⟨interruptedEntry, 3⟩
    (hRows ▸ List.mem_singleton_self _) (.inl rfl) 0 active
    ⟨hLive, hGet, hStatus ▸ rfl⟩
  rw [hOpened] at hLate
  exact absurd hLate (by decide)

end Instances

end OrchestraAI.Persistence.SharedIndex
