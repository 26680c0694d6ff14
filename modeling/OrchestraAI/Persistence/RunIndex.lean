import OrchestraAI.Core.StateMachine
import OrchestraAI.Library.LabelledSystem
import OrchestraAI.Library.OrderedMap
import OrchestraAI.Persistence.FileStore

/-! # The run index in a file

`retainPerTenant`, `saveRunIndex` and `upsertRunSummary` of `persistence.js` and the tasks
of `server.js` that write the index: `persistActive` and the persistence of a run's end.
A task is suspended at each `await`, and any other may run there.
-/

namespace OrchestraAI.Persistence

open LabelledSystem
open OrchestraAI.Core (TaskStatus)

abbrev RunId := { id : String // id ≠ "" }

structure RunSummary where
  id : RunId
  orgId : String
  internalStatus : TaskStatus
  /-- The episode of the run that the summary is of: a retry or a continuation starts one. -/
  episode : Nat
  /-- The length of its text. -/
  bytes : Nat
  deriving DecidableEq

namespace RunSummary

def maxRunIndexPerTenant : Nat := 1000

def runTenantKey (run : RunSummary) : List Char := run.orgId.toList.take 128

def retainPerTenant (cap : Nat) : List RunSummary → List RunSummary
  | [] => []
  | run :: runs =>
    if (runs.filter fun r => runTenantKey r = runTenantKey run).length < cap then
      run :: retainPerTenant cap runs
    else retainPerTenant cap runs

theorem retainPerTenant_sublist (cap : Nat) (runs : List RunSummary) :
    (retainPerTenant cap runs).Sublist runs := by
  induction runs with
  | nil => exact List.Sublist.refl _
  | cons run runs ih =>
    unfold retainPerTenant
    split
    · exact ih.cons_cons run
    · exact ih.cons run

end RunSummary

open RunSummary (maxRunIndexPerTenant runTenantKey retainPerTenant retainPerTenant_sublist)

def mergeIndex (persisted live : List RunSummary) : List RunSummary :=
  ((OrderedMap.empty.setAll RunSummary.id persisted).setAll RunSummary.id live).values

def upserted (index : List RunSummary) (summary : RunSummary) : List RunSummary :=
  index.filter (fun r => r.id ≠ summary.id) ++ [summary]

inductive Task
  /-- `persistActive` has its summaries. -/
  | captured (runs : List RunSummary)
  /-- It awaits the index that was loaded. -/
  | loaded (runs index : List RunSummary)
  /-- It has the artifacts of these runs to persist. -/
  | artifacts (runs : List RunSummary)
  /-- `onRunEnd`. -/
  | runEnd (summary : RunSummary)

structure Server where
  activeRuns : OrderedMap RunId RunSummary
  /-- `runs.json`. -/
  index : List RunSummary
  tasks : List Task
  /-- The number of episodes of each run. -/
  episodes : RunId → Nat
  /-- The episodes whose terminal summary has been in the index. -/
  ended : List (RunId × Nat)
  /-- The runs that have been in the index and that retention has not removed. -/
  written : List RunId

namespace Server

variable (maxBytes : Nat)

/-- `saveRunIndex`. -/
def saveRunIndex (s : Server) (runs : List RunSummary) : Server :=
  let limits : FileLimits RunSummary := ⟨maxBytes, RunSummary.bytes⟩
  let index := limits.writeJson s.index (retainPerTenant maxRunIndexPerTenant runs)
  { s with
    index := index
    ended := s.ended ++
      (index.filter fun r => r.internalStatus.terminal).map fun r => (r.id, r.episode)
    written := s.written.filter (fun id => id ∉ runs.map RunSummary.id) ++
      index.map RunSummary.id }

def upsertRunSummary (s : Server) (summary : RunSummary) : Server :=
  s.saveRunIndex maxBytes (upserted s.index summary)

inductive Label
  /-- A run is created, or opened again for a retry or a continuation. -/
  | opens (id : RunId) (orgId : String) (status : TaskStatus) (bytes : Nat)
  | moves (id : RunId) (status : TaskStatus) (bytes : Nat)
  | retires (id : RunId)
  /-- `persistActive` takes the summaries of the active runs. -/
  | captures
  /-- A task goes on to its next `await`; an upserted summary has text of this length. -/
  | advances (task : Nat) (bytes : Nat)

def advance (s : Server) (task bytes : Nat) : Task → Server
  | .captured runs => { s with tasks := s.tasks.set task (.loaded runs s.index) }
  | .loaded runs index =>
    let s := s.saveRunIndex maxBytes (mergeIndex index runs)
    { s with tasks := s.tasks.set task (.artifacts runs) }
  | .artifacts [] => { s with tasks := s.tasks.eraseIdx task }
  | .artifacts (run :: runs) =>
    let s := s.upsertRunSummary maxBytes { run with bytes := bytes }
    { s with tasks := s.tasks.set task (.artifacts runs) }
  | .runEnd summary =>
    let s := s.upsertRunSummary maxBytes { summary with bytes := bytes }
    { s with tasks := s.tasks.eraseIdx task }

def step (s : Server) : Label → Option Server
  | .opens id orgId status bytes =>
    if status.terminal then none
    else
      let episode := s.episodes id + 1
      some
        { s with
          activeRuns := s.activeRuns.set id ⟨id, orgId, status, episode, bytes⟩
          episodes := fun run => if run = id then episode else s.episodes run }
  | .moves id status bytes =>
    (s.activeRuns.get id).bind fun run =>
      -- a terminal status is left by opening the run again
      if run.internalStatus.terminal && !status.terminal then none
      else
        let summary := { run with internalStatus := status, bytes := bytes }
        some
          { s with
            activeRuns := s.activeRuns.set id summary
            tasks := if status.terminal then s.tasks ++ [.runEnd summary] else s.tasks }
  | .retires id => some { s with activeRuns := s.activeRuns.delete id }
  | .captures => some { s with tasks := s.tasks ++ [.captured s.activeRuns.values] }
  | .advances task bytes => s.tasks[task]?.map (s.advance maxBytes task bytes)

def Start (s : Server) : Prop :=
  s.activeRuns = .empty ∧ s.tasks = [] ∧ (s.index.map RunSummary.id).Nodup ∧
    s.ended = (s.index.filter fun r => r.internalStatus.terminal).map (fun r => (r.id, r.episode)) ∧
    s.written = s.index.map RunSummary.id

def Fresh (s : Server) (r : RunSummary) : Prop :=
  (r.id, r.episode) ∈ s.ended → r.internalStatus.terminal

instance (s : Server) (r : RunSummary) : Decidable (s.Fresh r) :=
  inferInstanceAs (Decidable (_ ∈ _ → _))

/-- No ended episode is in the index as running, and no run that was put there is missing. -/
structure Kept (s : Server) : Prop where
  terminal : ∀ r ∈ s.index, s.Fresh r
  present : ∀ id ∈ s.written, id ∈ s.index.map RunSummary.id

/-- What a task of `persistActive` writes next has not been overtaken: the summaries are not of
episodes that have been persisted as ended since, and every run of the index is among those
that it has. -/
def NotOvertaken (s : Server) : Task → Prop
  | .loaded runs index => (∀ r ∈ runs, s.Fresh r) ∧
      (∀ r ∈ index, r.id ∉ runs.map RunSummary.id → s.Fresh r) ∧
      ∀ r ∈ s.index, r.id ∈ (index ++ runs).map RunSummary.id
  | .artifacts runs => ∀ r ∈ runs.head?, s.Fresh r
  | .captured _ | .runEnd _ => True

def Current (s : Server) : Label → Prop
  | .advances task _ => ∀ suspended ∈ s.tasks[task]?, s.NotOvertaken suspended
  | .opens _ _ _ _ | .moves _ _ _ | .retires _ | .captures => True

instance (s : Server) : ∀ task, Decidable (s.NotOvertaken task)
  | .loaded _ _ => inferInstanceAs (Decidable (_ ∧ _ ∧ _))
  | .artifacts runs => inferInstanceAs (Decidable (∀ r ∈ runs.head?, s.Fresh r))
  | .captured _ | .runEnd _ => inferInstanceAs (Decidable True)

instance (s : Server) : ∀ l, Decidable (Current s l)
  | .advances task _ =>
    inferInstanceAs (Decidable (∀ suspended ∈ s.tasks[task]?, s.NotOvertaken suspended))
  | .opens _ _ _ _ | .moves _ _ _ | .retires _ | .captures => inferInstanceAs (Decidable True)

end Server

theorem mem_mergeIndex {persisted live : List RunSummary} {r : RunSummary}
    (h : r ∈ mergeIndex persisted live) :
    r ∈ live ∨ r ∈ persisted ∧ r.id ∉ live.map RunSummary.id := by
  obtain ⟨id, hGet⟩ := (OrderedMap.mem_values_iff _ r).mp h
  obtain ⟨hLive, -⟩ | ⟨hGet, hOther⟩ := OrderedMap.get_setAll hGet
  · exact .inl hLive
  · obtain ⟨hPersisted, rfl⟩ | ⟨hEmpty, -⟩ := OrderedMap.get_setAll hGet
    · exact .inr ⟨hPersisted, hOther⟩
    · rw [OrderedMap.get_empty] at hEmpty
      cases hEmpty

theorem mergeIndex_ids (persisted live : List RunSummary) :
    ((mergeIndex persisted live).map RunSummary.id).Nodup ∧
      ∀ id, id ∈ (persisted ++ live).map RunSummary.id →
        id ∈ (mergeIndex persisted live).map RunSummary.id := by
  unfold mergeIndex
  rw [OrderedMap.keyed_empty.setAll.setAll.values_map]
  refine ⟨OrderedMap.keys_nodup _, fun id h => ?_⟩
  rw [List.map_append, List.mem_append] at h
  rw [OrderedMap.mem_keys_setAll, OrderedMap.mem_keys_setAll]
  exact h.imp_left .inr

theorem mem_upserted {index : List RunSummary} {summary r : RunSummary}
    (h : r ∈ upserted index summary) : r ∈ index ∨ r = summary := by
  obtain hOld | hNew := List.mem_append.mp h
  · exact .inl (List.mem_filter.mp hOld).1
  · exact .inr (List.mem_singleton.mp hNew)

theorem upserted_ids {index : List RunSummary} (h : (index.map RunSummary.id).Nodup)
    (summary : RunSummary) : ((upserted index summary).map RunSummary.id).Nodup ∧
      ∀ r ∈ index, r.id ∈ (upserted index summary).map RunSummary.id := by
  constructor
  · unfold upserted
    rw [List.map_append, List.map_cons, List.map_nil, List.nodup_append]
    refine ⟨h.sublist (List.filter_sublist.map _), List.nodup_singleton _, ?_⟩
    intro id hOld id' hNew hSame
    obtain ⟨r, hr, rfl⟩ := List.mem_map.mp hOld
    rw [List.mem_singleton] at hNew
    exact absurd (hSame.trans hNew) (of_decide_eq_true (List.mem_filter.mp hr).2)
  · intro r hr
    unfold upserted
    rw [List.map_append, List.mem_append]
    by_cases hSame : r.id = summary.id
    · exact .inr (List.mem_singleton.mpr hSame)
    · exact .inl (List.mem_map_of_mem (List.mem_filter.mpr ⟨hr, decide_eq_true hSame⟩))

namespace Server

variable {s t : Server} {l : Label} {maxBytes}

/-- The index with one summary a run, in a state that has kept what was written. -/
structure Sound (s : Server) : Prop extends Kept s where
  nodup : (s.index.map RunSummary.id).Nodup
  ends : ∀ r, .runEnd r ∈ s.tasks → r.internalStatus.terminal

theorem saveRunIndex_cases (maxBytes : Nat) (s : Server) (runs : List RunSummary) :
    (s.saveRunIndex maxBytes runs).index = s.index ∨
      (s.saveRunIndex maxBytes runs).index.Sublist runs := by
  let limits : FileLimits RunSummary := ⟨maxBytes, RunSummary.bytes⟩
  obtain hFile | hValue :=
    limits.writeJson_cases s.index (retainPerTenant maxRunIndexPerTenant runs)
  · exact .inl hFile
  · exact .inr (hValue.trans (retainPerTenant_sublist _ _))

theorem Sound.saveRunIndex (hs : s.Sound) {runs : List RunSummary}
    (hNodup : (runs.map RunSummary.id).Nodup) (hFresh : ∀ r ∈ runs, s.Fresh r)
    (hPresent : ∀ r ∈ s.index, r.id ∈ runs.map RunSummary.id) :
    (s.saveRunIndex maxBytes runs).Sound := by
  have hIndex : ∀ r ∈ (s.saveRunIndex maxBytes runs).index, s.Fresh r := by
    intro r hr
    obtain hFile | hValue := s.saveRunIndex_cases maxBytes runs
    · exact hs.terminal r (hFile ▸ hr)
    · exact hFresh r (hValue.subset hr)
  have hIds : ((s.saveRunIndex maxBytes runs).index.map RunSummary.id).Nodup := by
    obtain hFile | hValue := s.saveRunIndex_cases maxBytes runs
    · rw [hFile]
      exact hs.nodup
    · exact hNodup.sublist (hValue.map _)
  refine ⟨⟨fun r hr hEnded => ?_, fun id hid => ?_⟩, hIds, hs.ends⟩
  · obtain hOld | hNew := List.mem_append.mp hEnded
    · exact hIndex r hr hOld
    · obtain ⟨r', hr', hSame⟩ := List.mem_map.mp hNew
      obtain ⟨hMem, hTerminal⟩ := List.mem_filter.mp hr'
      obtain rfl : r' = r := List.inj_on_of_nodup_map hIds hMem hr (Prod.mk.inj hSame).1
      exact hTerminal
  · obtain hOld | hNew := List.mem_append.mp hid
    · obtain ⟨hWritten, hNot⟩ := List.mem_filter.mp hOld
      obtain ⟨r, hr, rfl⟩ := List.mem_map.mp (hs.present id hWritten)
      exact absurd (hPresent r hr) (of_decide_eq_true hNot)
    · exact hNew

theorem Sound.upsertRunSummary (hs : s.Sound) {summary : RunSummary} (hFresh : s.Fresh summary) :
    (s.upsertRunSummary maxBytes summary).Sound := by
  obtain ⟨hNodup, hPresent⟩ := upserted_ids hs.nodup summary
  refine hs.saveRunIndex hNodup (fun r hr => ?_) hPresent
  obtain hOld | rfl := mem_upserted hr
  · exact hs.terminal r hOld
  · exact hFresh

theorem Sound.withTasks (hs : s.Sound) {tasks : List Task}
    (hTasks : ∀ r, .runEnd r ∈ tasks → .runEnd r ∈ s.tasks) :
    ({ s with tasks := tasks } : Server).Sound :=
  ⟨⟨hs.terminal, hs.present⟩, hs.nodup, fun r hr => hs.ends r (hTasks r hr)⟩

theorem sound_advance (hs : s.Sound) {task bytes : Nat} {suspended : Task}
    (hTask : s.tasks[task]? = some suspended) (hCurrent : s.NotOvertaken suspended) :
    (s.advance maxBytes task bytes suspended).Sound := by
  have hSet {next : Task} (hNext : ∀ r, next ≠ .runEnd r) (r : RunSummary)
      (hr : .runEnd r ∈ s.tasks.set task next) : .runEnd r ∈ s.tasks := by
    obtain hOld | hNew := List.mem_or_eq_of_mem_set hr
    · exact hOld
    · exact absurd hNew.symm (hNext r)
  cases suspended with
  | captured runs => exact hs.withTasks (hSet fun r => by simp)
  | loaded runs index =>
    obtain ⟨hRuns, hIndex, hPresent⟩ := hCurrent
    obtain ⟨hNodup, hIds⟩ := mergeIndex_ids index runs
    refine (hs.saveRunIndex hNodup (fun r hr => ?_) fun r hr => hIds _ (hPresent r hr)).withTasks
      (hSet fun r => by simp)
    obtain hLive | ⟨hLoaded, hOther⟩ := mem_mergeIndex hr
    · exact hRuns r hLive
    · exact hIndex r hLoaded hOther
  | artifacts runs =>
    cases runs with
    | nil => exact hs.withTasks fun r hr => List.mem_of_mem_eraseIdx hr
    | cons run runs =>
      have hFresh : s.Fresh { run with bytes := bytes } := hCurrent run rfl
      exact (Sound.upsertRunSummary hs hFresh).withTasks (hSet fun r => by simp)
  | runEnd summary =>
    have hFresh : s.Fresh { summary with bytes := bytes } :=
      fun _ => hs.ends summary (List.mem_of_getElem? hTask)
    exact (Sound.upsertRunSummary hs hFresh).withTasks fun r hr => List.mem_of_mem_eraseIdx hr

theorem sound_step (hs : s.Sound) (hCurrent : Current s l) (h : step maxBytes s l = some t) :
    t.Sound := by
  cases l with
  | opens id orgId status bytes =>
    simp only [step] at h
    split at h
    · cases h
    · cases h
      exact ⟨⟨hs.terminal, hs.present⟩, hs.nodup, hs.ends⟩
  | moves id status bytes =>
    obtain ⟨run, -, h⟩ := Option.bind_eq_some_iff.mp h
    split at h
    · cases h
    · cases h
      refine ⟨⟨hs.terminal, hs.present⟩, hs.nodup, fun r hr => ?_⟩
      simp only at hr
      split at hr
      · rename_i hTerminal
        obtain hOld | hNew := List.mem_append.mp hr
        · exact hs.ends r hOld
        · cases List.mem_singleton.mp hNew
          exact hTerminal
      · exact hs.ends r hr
  | retires id =>
    cases h
    exact ⟨⟨hs.terminal, hs.present⟩, hs.nodup, hs.ends⟩
  | captures =>
    cases h
    refine hs.withTasks fun r hr => ?_
    obtain hOld | hNew := List.mem_append.mp hr
    · exact hOld
    · cases List.mem_singleton.mp hNew
  | advances task bytes =>
    obtain ⟨suspended, hTask, rfl⟩ := Option.map_eq_some_iff.mp h
    exact sound_advance hs hTask (hCurrent suspended hTask)

theorem sound_start (h : Start s) : s.Sound := by
  obtain ⟨-, hTasks, hNodup, hEnded, hWritten⟩ := h
  refine ⟨⟨fun r hr hMem => ?_, fun id hid => hWritten ▸ hid⟩, hNodup, fun r hr => ?_⟩
  · rw [hEnded] at hMem
    obtain ⟨r', hr', hSame⟩ := List.mem_map.mp hMem
    obtain ⟨hIndex, hTerminal⟩ := List.mem_filter.mp hr'
    obtain rfl : r' = r := List.inj_on_of_nodup_map hNodup hIndex hr (Prod.mk.inj hSame).1
    exact hTerminal
  · rw [hTasks] at hr
    cases hr

/-- In every interleaving in which no task writes what has been overtaken, an episode that was
persisted as ended stays so and no run is lost. -/
theorem index_kept (h : Reach (step maxBytes) Current Start s) : s.Kept :=
  (h.invariant (I := Sound) (fun _ => sound_start)
    fun _ _ _ hs hCurrent hstep => sound_step hs hCurrent hstep).toKept

def fresh : Server := ⟨.empty, [], [], fun _ => 0, [], []⟩

theorem start_fresh : fresh.Start := ⟨rfl, rfl, List.nodup_nil, rfl, rfl⟩

def runId : RunId := ⟨"run-1", by decide⟩

def persistedInTurn : List Label :=
  [.opens runId "org" .created 100, .moves runId .executing 100, .captures, .advances 0 0,
    .advances 0 0, .advances 0 100, .moves runId .completed 100, .advances 1 120, .advances 0 0]

theorem index_kept_persistedInTurn : ∃ s, run (step 5000000) fresh persistedInTurn = some s ∧
    s.index = [⟨runId, "org", .completed, 1, 120⟩] ∧ s.Kept := by
  have hRun : (run (step 5000000) fresh persistedInTurn).map index =
      some [⟨runId, "org", .completed, 1, 120⟩] := by
    decide +kernel
  obtain ⟨s, hs, hIndex⟩ := Option.map_eq_some_iff.mp hRun
  exact ⟨s, hs, hIndex, index_kept ((Reach.start start_fresh).run hs (by decide +kernel))⟩

/-- The run ends while `persistActive` awaits the index. -/
def endsMeanwhile : List Label :=
  [.opens runId "org" .created 100, .moves runId .executing 100, .captures, .advances 0 0,
    .moves runId .completed 100, .advances 1 120, .advances 0 0]

/-- The completed run is in the index as executing. -/
theorem terminal_summary_reverts :
    ¬ ∀ s, Reach (step 5000000) Anything Start s → s.Kept := by
  intro h
  have hRun : (run (step 5000000) fresh endsMeanwhile).map (fun s => (s.index, s.ended)) =
      some ([⟨runId, "org", .executing, 1, 100⟩], [(runId, 1)]) := by
    decide +kernel
  obtain ⟨s, hs, hState⟩ := Option.map_eq_some_iff.mp hRun
  obtain ⟨hIndex, hEnded⟩ := Prod.mk.inj hState
  have hFresh := (h s (reach_of_run start_fresh hs)).terminal ⟨runId, "org", .executing, 1, 100⟩
    (hIndex ▸ List.mem_singleton_self _)
  exact absurd (hFresh (hEnded ▸ List.mem_singleton_self _)) (by decide)

end Server

end OrchestraAI.Persistence
