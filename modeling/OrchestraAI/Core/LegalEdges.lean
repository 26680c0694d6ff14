import OrchestraAI.Core.LiveRuns
import OrchestraAI.Core.Pausing

/-! # The edges a run takes

Which operations move a run along the table of the state machine and keep its status
and its machine together. The endings and the reopenings fall back on writing the
status by force, a restore writes the status without the machine.
-/

namespace OrchestraAI.Core

open OrchestraAI.Recovery

namespace TaskStatus

def Edge (s t : TaskStatus) : Prop := t = s ∨ s.canTransition t = true

instance (s t : TaskStatus) : Decidable (Edge s t) := inferInstanceAs (Decidable (_ ∨ _))

theorem edge_refl (s : TaskStatus) : Edge s s := .inl rfl

theorem cancelled_edge {t : TaskStatus} (h : Edge cancelled t) : t = cancelled := by
  obtain h | h := h
  · exact h
  · cases h

theorem canTransition_retrying {s : TaskStatus} (h : s.terminal = true) (hs : s ≠ cancelled) :
    s.canTransition retrying = true := by
  cases s with
  | cancelled => exact absurd rfl hs
  | completed | failed => rfl
  | _ => cases h

end TaskStatus

open TaskStatus

namespace Run

variable {r t : Run} {next : TaskStatus}

def Synced (r : Run) : Prop := r.status = r.machine

def life (r : Run) : TaskStatus × TaskStatus := (r.status, r.machine)

structure Follows (r t : Run) : Prop where
  edge : Edge r.machine t.machine
  synced : t.Synced

theorem Synced.of_life (h : r.Synced) (hLife : t.life = r.life) : t.Synced := by
  obtain ⟨hStatus, hMachine⟩ := Prod.mk.inj hLife
  exact hStatus.trans (h.trans hMachine.symm)

theorem machine_of_life (hLife : t.life = r.life) : t.machine = r.machine :=
  congrArg Prod.snd hLife

theorem Synced.follows (h : r.Synced) : Follows r r := ⟨edge_refl _, h⟩

theorem Synced.transition (h : r.Synced) (hMove : r.transition next = some t) : Follows r t := by
  unfold Run.transition at hMove
  split at hMove
  · cases hMove
    exact h.follows
  split at hMove
  · rename_i hEdge
    cases hMove
    exact ⟨.inr hEdge, rfl⟩
  · cases hMove

theorem Synced.enter (h : r.Synced) (hEdge : Edge r.machine next) (u : Run) :
    Follows r ((r.transition next).getD u) := by
  cases hMove : r.transition next with
  | some t => exact h.transition hMove
  | none =>
    unfold Run.transition at hMove
    split at hMove
    · cases hMove
    rename_i hOther
    split at hMove
    · cases hMove
    rename_i hRejected
    obtain hSame | hEdge := hEdge
    · exact absurd hSame.symm hOther
    · exact absurd hEdge hRejected

theorem Synced.cancelled (h : r.Synced) (hStatus : r.status.terminal = false) (reason : String) :
    Follows r (r.cancelled reason) := by
  have hFollows := h.enter (.inr (canTransition_cancelled (h ▸ hStatus))) (r.force .cancelled)
  exact ⟨hFollows.edge, hFollows.synced⟩

theorem Synced.fail (h : r.Synced) (hStatus : r.status.terminal = false)
    (hEdge : r.abort = true ∨ Edge r.machine .failed) (error : RunError) :
    Follows r (r.fail error) := by
  unfold Run.fail
  split
  · exact h.cancelled hStatus _
  rename_i hAbort
  have hEdge : Edge r.machine .failed := hEdge.resolve_left hAbort
  -- Warning of the budget first changes neither the status nor the machine.
  have hForced (w : Run) (hWarned : w.life = r.life) :
      Follows r ((w.transition .failed).getD (w.force .failed)) := by
    have hMachine := machine_of_life hWarned
    have hFollows := (h.of_life hWarned).enter (hMachine.symm ▸ hEdge) (w.force .failed)
    exact ⟨hMachine ▸ hFollows.edge, hFollows.synced⟩
  simp only
  split
  · have hFollows := hForced
      (r.emit (.budgetExceeded r.budget.currentSpend r.budget.maximumCost)) rfl
    exact ⟨hFollows.edge, hFollows.synced⟩
  · have hFollows := hForced r rfl
    exact ⟨hFollows.edge, hFollows.synced⟩

theorem Synced.routeBack (h : r.Synced) (hMove : r.routeBack = some t) : Follows r t := by
  unfold Run.routeBack at hMove
  split at hMove
  · exact h.transition hMove
  · cases hMove
    exact h.follows

theorem Synced.complete (h : r.Synced) {summary : Option String}
    (hMove : r.complete summary = some t) :
    ∃ routed, r.routeBack = some routed ∧ Follows r routed ∧ Follows routed t := by
  obtain ⟨routed, hRouted, hMapped⟩ := Option.bind_eq_some_iff.mp hMove
  obtain ⟨done, hDone, rfl⟩ := Option.map_eq_some_iff.mp hMapped
  have hFirst := h.routeBack hRouted
  have hSecond := hFirst.synced.transition hDone
  exact ⟨routed, hRouted, hFirst, hSecond.edge, hSecond.synced⟩

end Run

namespace Registry

variable {c : Config} {o o' o'' : Registry} {id : RunId} {r : Run}

def Synced (o : Registry) : Prop := ∀ id ∈ o.created, (o.runs id).Synced

structure Rests (o o' : Registry) : Prop where
  created : o'.created = o.created
  life : ∀ j, (o'.runs j).life = (o.runs j).life

structure Moves (o : Registry) (id : RunId) (r : Run) (o' : Registry) : Prop where
  created : o'.created = o.created
  life : ∀ j, (o'.runs j).life = if j = id then r.life else (o.runs j).life

theorem Rests.refl (o : Registry) : Rests o o := ⟨rfl, fun _ => rfl⟩

theorem Rests.trans (h : Rests o o') (h' : Rests o' o'') : Rests o o'' :=
  ⟨h'.created.trans h.created, fun j => (h'.life j).trans (h.life j)⟩

theorem Moves.rests (h : Moves o id r o') (h' : Rests o' o'') : Moves o id r o'' :=
  ⟨h'.created.trans h.created, fun j => (h'.life j).trans (h.life j)⟩

theorem Rests.moves (h : Rests o o') (h' : Moves o' id r o'') : Moves o id r o'' where
  created := h'.created.trans h.created
  life j := by rw [h'.life, h.life]

theorem write_moves (o : Registry) (id : RunId) (r : Run) : Moves o id r (o.write id r) where
  created := rfl
  life j := by
    rw [write_runs]
    split <;> rfl

theorem Rests.still (h : Rests o o') : Moves o id (o.runs id) o' where
  created := h.created
  life j := by
    rw [h.life]
    split
    · rename_i hj
      rw [hj]
    · rfl

theorem Moves.rest (h : Moves o id r o') (hSame : r.life = (o.runs id).life) : Rests o o' where
  created := h.created
  life j := by
    rw [h.life]
    split
    · rename_i hj
      rw [hj, hSame]
    · rfl

theorem Moves.congr (h : Moves o id r o') {t : Run} (hSame : t.life = r.life) : Moves o id t o' :=
  ⟨h.created, fun j => by rw [h.life, hSame]⟩

theorem write_rests (hSame : r.life = (o.runs id).life) : Rests o (o.write id r) :=
  (write_moves o id r).rest hSame

theorem retireRun_rests (c : Config) (o : Registry) (id : RunId) : Rests o (o.retireRun c id) := by
  unfold retireRun
  split
  · have hWritten : Rests o (o.write id (o.runs id).retire) := write_rests rfl
    exact ⟨rfl, hWritten.life⟩
  · exact .refl o

theorem Moves.synced (h : Moves o id r o') (hSynced : Synced o)
    (hRun : id ∈ o.created → r.Synced) : Synced o' := by
  intro j hj
  rw [h.created] at hj
  have hLife := h.life j
  split at hLife
  · rename_i hid
    exact (hRun (hid ▸ hj)).of_life hLife
  · exact (hSynced j hj).of_life hLife

theorem transition_moves (o : Registry) (id : RunId) (next : TaskStatus) :
    Rests o (o.transition id next) ∨
      ∃ r, (o.runs id).transition next = some r ∧ Moves o id r (o.transition id next) := by
  unfold Registry.transition
  split
  · split
    · rename_i r hMove
      exact .inr ⟨r, hMove, write_moves o id r⟩
    · exact .inl (.refl o)
  · exact .inl (.refl o)

theorem nonterminal_of_endsNothing (h : ¬ o.endsNothing id = true) :
    (o.runs id).status.terminal = false := by
  unfold endsNothing at h
  rw [Bool.or_eq_true, not_or] at h
  exact Bool.eq_false_iff.mpr h.1

theorem cancelledRun_moves (c : Config) (o : Registry) (id : RunId) (reason : String) :
    Rests o (o.cancelledRun c id reason) ∨ ((o.runs id).status.terminal = false ∧
      Moves o id ((o.runs id).cancelled reason) (o.cancelledRun c id reason)) := by
  unfold cancelledRun
  split
  · exact .inl (.refl o)
  · rename_i hEnds
    exact .inr ⟨nonterminal_of_endsNothing hEnds,
      (write_moves o id _).rests (retireRun_rests c _ id)⟩

theorem failRun_moves (c : Config) (o : Registry) (id : RunId) (error : RunError) :
    Rests o (o.failRun c id error) ∨ (o.endsNothing id = false ∧
      Moves o id ((o.runs id).fail error) (o.failRun c id error)) := by
  unfold failRun
  split
  · exact .inl (.refl o)
  · rename_i hEnds
    exact .inr ⟨Bool.eq_false_iff.mpr hEnds, (write_moves o id _).rests (retireRun_rests c _ id)⟩

theorem startRun_rests (o : Registry) (id : RunId) : Rests o (o.startRun id) := by
  unfold startRun
  simp only
  split
  · exact .refl o
  · have hWritten : Rests o (o.write id
        { o.runs id with running := true, abort := false }.armDeadline) := write_rests rfl
    exact ⟨rfl, hWritten.life⟩

theorem cancelRun_rests (o : Registry) (id : RunId) (reason : String) :
    Rests o (o.cancelRun id reason) := by
  unfold cancelRun
  simp only
  split
  · exact .refl o
  · have hWritten : Rests o (o.write id { o.runs id with abort := true }.disarmDeadline) :=
      write_rests rfl
    exact ⟨rfl, hWritten.life⟩

/-- `continueRun` takes the run up again: it finds it idle, live or in the history. -/
def Reopens (o : Registry) (id : RunId) : Prop :=
  (o.runs id).running = false ∧
    if o.activeRuns.has id then o.hasControl id = true else o.terminalRuns.has id = true

instance (o : Registry) (id : RunId) : Decidable (o.Reopens id) := inferInstanceAs (Decidable (_ ∧ _))

def reopened (r : Run) : Run :=
  if r.status.terminal then (r.transition .retrying).getD (r.force .retrying) else r

theorem reopened_life {t : Run} (h : t.life = r.life) : (reopened t).life = (reopened r).life := by
  obtain ⟨hStatus, hMachine⟩ := Prod.mk.inj h
  unfold reopened Run.transition
  rw [hStatus, hMachine]
  split
  · split
    · exact h
    split
    · rfl
    · rfl
  · exact h

theorem openEpisode_moves (o : Registry) (id : RunId) :
    Rests o (o.openEpisode id) ∨ ((o.activeRuns.has id = true ∧ o.hasControl id = true ∧
      (o.runs id).running = false) ∧ Moves o id (reopened (o.runs id)) (o.openEpisode id)) := by
  unfold openEpisode
  simp only
  split
  · exact .inl (.refl o)
  rename_i hTaken
  simp only [Bool.or_eq_true, Bool.not_eq_true', not_or, Bool.not_eq_false, Bool.not_eq_true]
    at hTaken
  refine .inr ⟨⟨hTaken.1.1, hTaken.1.2, hTaken.2⟩, ?_⟩
  unfold reopened
  split
  · exact (write_moves o id _).rests (startRun_rests _ id)
  · exact (startRun_rests o id).still

theorem continueRun_moves (o : Registry) (id : RunId) :
    Rests o (o.continueRun id) ∨
      (o.Reopens id ∧ Moves o id (reopened (o.runs id)) (o.continueRun id)) := by
  unfold continueRun
  split
  · rename_i hRetired
    rw [Bool.and_eq_true, Bool.not_eq_true'] at hRetired
    split
    · exact .inl (.refl o)
    rename_i hIdle
    have hBack : Rests o (o.resurrect id) := ⟨rfl, fun _ => rfl⟩
    have hIdled : Rests (o.resurrect id) ((o.resurrect id).write id
        { o.runs id with abort := false, running := false }) := write_rests rfl
    have hWritten := hBack.trans hIdled
    obtain hRests | ⟨-, hMoves⟩ := openEpisode_moves ((o.resurrect id).write id
      { o.runs id with abort := false, running := false }) id
    · exact .inl (hWritten.trans hRests)
    · refine .inr ⟨⟨Bool.eq_false_iff.mpr hIdle, ?_⟩, ?_⟩
      · rw [if_neg (by simp [hRetired.1])]
        exact hRetired.2
      · exact (hWritten.moves hMoves).congr (reopened_life (hWritten.life id)).symm
  · rename_i hRetired
    obtain hRests | ⟨⟨hActive, hControl, hIdle⟩, hMoves⟩ := openEpisode_moves o id
    · exact .inl hRests
    · exact .inr ⟨⟨hIdle, by rw [if_pos hActive]; exact hControl⟩, hMoves⟩

theorem evaluate_emit (r : Run) (event : Event) (query : Except String RecoveryQuery) :
    (evaluate (r.emit event) query).2.status = (evaluate r query).2.status ∧
      (evaluate (r.emit event) query).2.machine = r.machine := by
  cases query with
  | error text => exact ⟨rfl, rfl⟩
  | ok query =>
    unfold evaluate
    simp only
    cases query.restore with
    | error text => exact ⟨rfl, rfl⟩
    | ok snapshot =>
      constructor
      · rw [apply_ite Run.status, apply_ite Run.status]
        rfl
      · rw [apply_ite Run.machine]
        exact ite_self _

theorem evaluateRetry_rests {query : Except String RecoveryQuery}
    (hSame : (evaluate (o.runs id) query).2.status = (o.runs id).status) :
    Rests o (o.evaluateRetry id query) := by
  unfold evaluateRetry
  simp only
  split
  · exact .refl o
  split
  · exact write_rests rfl
  · obtain ⟨hStatus, hMachine⟩ :=
      evaluate_emit (o.runs id) (.other .executionRecoveryStarted) query
    have hLife : (evaluate ((o.runs id).emit (.other .executionRecoveryStarted)) query).2.life =
        (o.runs id).life := by
      rw [Run.life, hStatus, hSame, hMachine]
      rfl
    have hWritten : Rests o (o.write id
        { (evaluate ((o.runs id).emit (.other .executionRecoveryStarted)) query).2 with
          recoveryInProgress := true }) := write_rests hLife
    exact ⟨rfl, hWritten.life⟩

theorem retryRun_rests {query : Except String RecoveryQuery}
    (hSame : (evaluate (o.runs id) query).2.status = (o.runs id).status) :
    Rests o (o.retryRun id query) := by
  unfold retryRun
  split
  · exact .refl o
  split
  · exact .refl o
  · rename_i revived hRevived
    unfold reviveFailed at hRevived
    split at hRevived
    · cases hRevived
      exact evaluateRetry_rests hSame
    split at hRevived
    · cases hRevived
    · cases hRevived
      have hBack : Rests o (o.resurrect id) := ⟨rfl, fun _ => rfl⟩
      exact hBack.trans (evaluateRetry_rests hSame)

theorem clearFlag_life (o : Registry) (id : RunId) (r : Run) : (o.clearFlag id r).life = r.life := by
  unfold clearFlag
  split
  · rfl
  · rfl

theorem serve_rests (o : Registry) (k : Nat) (ts : List Task) : Rests o (o.serve k ts) :=
  ⟨rfl, fun _ => rfl⟩

theorem finishRetry_moves (o : Registry) (k : Nat) (id : RunId)
    (recovery : Except String RecoveryResult) :
    Rests o (o.finishRetry k id recovery) ∨ (refusedBy recovery = false ∧
      Moves o id (o.retried id) (o.finishRetry k id recovery)) := by
  unfold finishRetry
  split
  · exact .inl ((serve_rests o k []).trans (write_rests (clearFlag_life o id _)))
  rename_i hAccepted
  refine .inr ⟨Bool.eq_false_iff.mpr hAccepted, ?_⟩
  split
  · have hLife := clearFlag_life o id (o.retried id).armDeadline
    exact (serve_rests o k _).moves ((write_moves _ id _).congr hLife.symm)
  · exact (serve_rests o k []).moves (write_moves _ id _)

theorem retried_follows (hSynced : (o.runs id).Synced) (hControl : o.hasControl id = true)
    (hEdge : Edge (o.runs id).machine .retrying) : (o.runs id).Follows (o.retried id) := by
  unfold retried
  simp only [if_pos hControl]
  have hFollows := hSynced.enter hEdge ((o.runs id).updateStatus .retrying)
  exact ⟨hFollows.edge, hFollows.synced⟩

theorem reopened_follows (hSynced : r.Synced) (hOpen : r.status ≠ .cancelled) :
    r.Follows (reopened r) := by
  unfold reopened
  split
  · rename_i hTerminal
    have hEdge := canTransition_retrying hTerminal hOpen
    exact hSynced.enter (.inr (hSynced ▸ hEdge)) _
  · exact hSynced.follows

/-- The steps that stay within the table: a restore keeps the status, a retry that goes on finds
its run where it may be retried, a run that fails may fail, and no cancelled run is continued. -/
def Lawful (o : Registry) : Label → Prop
  | .retryRun id query => (evaluate (o.runs id) query).2.status = (o.runs id).status
  | .recovers k =>
    match o.tasks[k]? with
    | some (.recovering id recovery) => refusedBy recovery = false →
        o.hasControl id = true ∧ Edge (o.runs id).machine .retrying
    | _ => True
  | .catches k =>
    match o.tasks[k]? with
    | some (.failing id _) => o.endsNothing id = false →
        (o.runs id).abort = true ∨ Edge (o.runs id).machine .failed
    | _ => True
  | .continueRun id => o.Reopens id → (o.runs id).status ≠ .cancelled
  | _ => True

instance (o : Registry) (l : Label) : Decidable (o.Lawful l) := by
  obtain _ | _ := l <;> dsimp only [Lawful] <;> first
    | infer_instance
    | generalize o.tasks[(_ : Nat)]? = task
      obtain _ | _ | _ := task <;> infer_instance

/-- A step goes along at most two edges, by way of a registry halfway, and keeps every run in
step. -/
structure Legal (o halfway o' : Registry) : Prop where
  first : ∀ id ∈ o.created, Edge (o.runs id).machine (halfway.runs id).machine
  second : ∀ id ∈ o.created, Edge (halfway.runs id).machine (o'.runs id).machine
  synced : Synced o'

theorem Rests.legal (h : Rests o o') (hSynced : Synced o) : Legal o o o' where
  first _ _ := edge_refl _
  second j _ := .inl (Run.machine_of_life (h.life j))
  synced j hj := (hSynced j (h.created ▸ hj)).of_life (h.life j)

theorem Moves.legal (h : Moves o id r o') (hSynced : Synced o)
    (hRun : id ∈ o.created → (o.runs id).Follows r) : Legal o o o' where
  first _ _ := edge_refl _
  second j hj := by
    have hLife := h.life j
    split at hLife
    · rename_i hid
      rw [Run.machine_of_life hLife, hid]
      exact (hRun (hid ▸ hj)).edge
    · exact .inl (Run.machine_of_life hLife)
  synced := h.synced hSynced fun hid => (hRun hid).synced

theorem Legal.then (h : Legal o o o') (hCreated : o'.created = o.created) (h' : Legal o' o' o'') :
    Legal o o' o'' where
  first := h.second
  second j hj := h'.second j (hCreated ▸ hj)
  synced := h'.synced

theorem transition_legal (hSynced : Synced o) (id : RunId) (next : TaskStatus) :
    Legal o o (o.transition id next) ∧ (o.transition id next).created = o.created := by
  obtain hRests | ⟨r, hMove, hMoves⟩ := transition_moves o id next
  · exact ⟨hRests.legal hSynced, hRests.created⟩
  · exact ⟨hMoves.legal hSynced fun hid => (hSynced id hid).transition hMove, hMoves.created⟩

/-- Where a completion passes through: the run has been routed back to EXECUTING. -/
def routed (o : Registry) (id : RunId) : Registry :=
  if o.endsNothing id then o
  else
    match (o.runs id).routeBack with
    | some r => o.write id r
    | none => o

theorem completeRun_legal {summary : Option String} (hSynced : Synced o)
    (h : o.completeRun c id summary = some o') : Legal o (o.routed id) o' := by
  unfold completeRun at h
  unfold routed
  split at h
  · rename_i hEnds
    cases h
    rw [if_pos hEnds]
    exact (Rests.refl o).legal hSynced
  · rename_i hEnds
    rw [if_neg hEnds]
    obtain ⟨r, hComplete, rfl⟩ := Option.map_eq_some_iff.mp h
    obtain ⟨done, hRouted, hDone⟩ := Option.bind_eq_some_iff.mp hComplete
    simp only [hRouted]
    have hHalf := write_moves o id done
    have hMoves : Moves (o.write id done) id r ((o.write id r).retireRun c id) := by
      refine (⟨rfl, fun j => ?_⟩ : Moves (o.write id done) id r (o.write id r)).rests
        (retireRun_rests c _ id)
      rw [write_runs, write_runs]
      split <;> rfl
    have hFirst : id ∈ o.created → (o.runs id).Follows done := fun hid =>
      (hSynced id hid).routeBack hRouted
    refine (hHalf.legal hSynced hFirst).then rfl (hMoves.legal (hHalf.synced hSynced
      fun hid => (hFirst hid).synced) fun hid => ?_)
    obtain ⟨done', hRouted', -, hSecond⟩ := (hSynced id hid).complete hComplete
    obtain rfl := Option.some.inj (hRouted.symm.trans hRouted')
    rw [write_runs_self]
    exact hSecond

theorem deadline_moves (c : Config) (o : Registry) (id : RunId) :
    Rests o (o.deadline c id) ∨ ∃ (r : Run) (error : RunError), r.life = (o.runs id).life ∧ r.abort = true ∧
      r.status.terminal = false ∧ Moves o id (r.fail error) (o.deadline c id) := by
  have hFlagged : Rests o
      (o.write id { o.runs id with deadlineTimer := false, abort := true }) := write_rests rfl
  unfold Registry.deadline
  obtain hRests | ⟨hEnds, hMoves⟩ := failRun_moves c
    (o.write id { o.runs id with deadlineTimer := false, abort := true }) id
    (timeoutError (o.runs id).timeoutMs)
  · exact .inl (hFlagged.trans hRests)
  · have hStatus := nonterminal_of_endsNothing (Bool.not_eq_true _ ▸ hEnds)
    have hMoves := hFlagged.moves hMoves
    rw [write_runs_self] at hMoves hStatus
    exact .inr ⟨{ o.runs id with deadlineTimer := false, abort := true }, _, rfl, rfl, hStatus,
      hMoves⟩

theorem graceElapses_moves (c : Config) (o : Registry) (id : RunId) (reason : String) :
    Rests o (o.graceElapses c id reason) ∨ ((o.runs id).status.terminal = false ∧
      Moves o id ((o.runs id).cancelled reason) (o.graceElapses c id reason)) := by
  unfold graceElapses
  have hIdled (o : Registry) : Rests o (o.write id { o.runs id with running := false }) :=
    write_rests rfl
  obtain hRests | ⟨hStatus, hMoves⟩ := cancelledRun_moves c o id reason
  · exact .inl (hRests.trans (hIdled _))
  · exact .inr ⟨hStatus, hMoves.rests (hIdled _)⟩

def halfway (o : Registry) : Label → Registry
  | .completes k _ =>
    match o.tasks[k]? with
    | some (.episode id) => o.routed id
    | _ => o
  | _ => o

theorem step_legal {l : Label} (hSynced : Synced o) (hLawful : o.Lawful l)
    (hStep : o.step c l = some o') : Legal o (o.halfway l) o' := by
  cases l with
  | createRun timeoutMs maximumCost maximumLatency =>
    cases hStep
    unfold createRun
    split
    · exact (Rests.refl o).legal hSynced
    · exact Rests.legal ⟨rfl, fun _ => rfl⟩ hSynced
  | createSettles k id? =>
    simp only [Registry.step] at hStep
    split at hStep
    · rename_i timeoutMs maximumCost maximumLatency id hTask
      split at hStep
      · cases hStep
      rename_i hNew
      cases hStep
      have hMoves := write_moves o id (.new timeoutMs maximumCost maximumLatency)
      constructor
      · exact fun _ _ => edge_refl _
      · intro j hj
        have hOther : j ≠ id := by
          rintro rfl
          exact hNew hj
        have hLife := hMoves.life j
        rw [if_neg hOther] at hLife
        exact .inl (Run.machine_of_life hLife)
      · intro j hj
        obtain hj | rfl := (List.mem_append.mp hj).imp_right List.mem_singleton.mp
        · have hLife := hMoves.life j
          split at hLife
          · exact Run.Synced.of_life (r := .new timeoutMs maximumCost maximumLatency) rfl hLife
          · exact (hSynced j hj).of_life hLife
        · have hLife := hMoves.life j
          rw [if_pos rfl] at hLife
          exact Run.Synced.of_life (r := .new timeoutMs maximumCost maximumLatency) rfl hLife
    · cases hStep
      exact (serve_rests o k []).legal hSynced
    · cases hStep
  | startRun id =>
    cases hStep
    exact (startRun_rests o id).legal hSynced
  | moves id next =>
    simp only [Registry.step] at hStep
    split at hStep
    · cases hStep
    · cases hStep
      exact (transition_legal hSynced id next).1
  | charges id amount =>
    cases hStep
    have hCharged : Rests o (o.write id
        { o.runs id with budget := (o.runs id).budget.addCost amount }) := write_rests rfl
    exact hCharged.legal hSynced
  | marks id effect =>
    cases hStep
    have hMarked : Rests o (o.write id { o.runs id with lastToolEffect := effect }) :=
      write_rests rfl
    exact hMarked.legal hSynced
  | completes k summary =>
    simp only [Registry.step] at hStep
    split at hStep
    · rename_i id hTask
      simp only [halfway, hTask]
      exact completeRun_legal hSynced hStep
    · cases hStep
  | observesAbort k reason =>
    simp only [Registry.step] at hStep
    split at hStep
    · split at hStep
      · rename_i id _ _
        cases hStep
        obtain hRests | ⟨hStatus, hMoves⟩ := cancelledRun_moves c o id reason
        · exact hRests.legal hSynced
        · exact hMoves.legal hSynced fun hid => (hSynced id hid).cancelled hStatus reason
      · cases hStep
    · cases hStep
  | throws k error =>
    simp only [Registry.step] at hStep
    split at hStep
    · cases hStep
      exact (serve_rests o k _).legal hSynced
    · cases hStep
  | returns k =>
    simp only [Registry.step] at hStep
    split at hStep
    · cases hStep
      exact (serve_rests o k _).legal hSynced
    · cases hStep
  | catches k =>
    simp only [Registry.step] at hStep
    simp only [Lawful] at hLawful
    split at hStep
    · rename_i id error hTask
      rw [hTask] at hLawful
      cases hStep
      have hServed := serve_rests o k [.settling id]
      obtain hRests | ⟨hEnds, hMoves⟩ := failRun_moves c (o.serve k [.settling id]) id error
      · exact (hServed.trans hRests).legal hSynced
      · have hStatus : (o.runs id).status.terminal = false :=
          nonterminal_of_endsNothing (Bool.not_eq_true _ ▸ hEnds)
        exact (hServed.moves hMoves).legal hSynced fun hid =>
          (hSynced id hid).fail hStatus (hLawful hEnds) error
    · cases hStep
  | settles k =>
    simp only [Registry.step] at hStep
    split at hStep
    · rename_i id hTask
      cases hStep
      have hSettled : Rests (o.serve k []) ((o.serve k []).settle id) := write_rests rfl
      exact ((serve_rests o k []).trans hSettled).legal hSynced
    · cases hStep
  | deadline id =>
    simp only [Registry.step] at hStep
    split at hStep
    · cases hStep
      obtain hRests | ⟨r, error, hLife, hAbort, hStatus, hMoves⟩ := deadline_moves c o id
      · exact hRests.legal hSynced
      · refine hMoves.legal hSynced fun hid => ?_
        have hFollows := ((hSynced id hid).of_life hLife).fail hStatus (.inl hAbort) error
        exact ⟨Run.machine_of_life hLife ▸ hFollows.edge, hFollows.synced⟩
    · cases hStep
  | cancelRun id reason =>
    cases hStep
    exact (cancelRun_rests o id reason).legal hSynced
  | graceElapses k =>
    simp only [Registry.step] at hStep
    split at hStep
    · rename_i id reason hTask
      cases hStep
      have hServed := serve_rests o k []
      obtain hRests | ⟨hStatus, hMoves⟩ := graceElapses_moves c (o.serve k []) id reason
      · exact (hServed.trans hRests).legal hSynced
      · exact (hServed.moves hMoves).legal hSynced fun hid =>
          (hSynced id hid).cancelled hStatus reason
    · cases hStep
  | retryRun id query =>
    cases hStep
    exact (retryRun_rests hLawful).legal hSynced
  | recovers k =>
    simp only [Registry.step] at hStep
    simp only [Lawful] at hLawful
    split at hStep
    · rename_i id recovery hTask
      rw [hTask] at hLawful
      cases hStep
      obtain hRests | ⟨hAccepted, hMoves⟩ := finishRetry_moves o k id recovery
      · exact hRests.legal hSynced
      · obtain ⟨hControl, hEdge⟩ := hLawful hAccepted
        exact hMoves.legal hSynced fun hid => retried_follows (hSynced id hid) hControl hEdge
    · cases hStep
  | continueRun id =>
    cases hStep
    obtain hRests | ⟨hReopens, hMoves⟩ := continueRun_moves o id
    · exact hRests.legal hSynced
    · exact hMoves.legal hSynced fun hid => reopened_follows (hSynced id hid) (hLawful hReopens)

end Registry

namespace ExecutionController

open LabelledSystem Registry

variable {c : Config} {s t : ExecutionController} {o : Registry} {id : RunId}

def Lawful (s : ExecutionController) : Operation → Prop
  | .orch label => s.orch.Lawful label
  | .executeRunJob id continuing => (continuing || startsTerminal s.orch id) = true →
      s.orch.Reopens id → (s.orch.runs id).status ≠ .cancelled
  | .pauseRun _ | .resumeRun _ | .holdForPause _ => True

instance (s : ExecutionController) (op : Operation) : Decidable (s.Lawful op) := by
  obtain _ | _ := op <;> dsimp only [Lawful] <;> infer_instance

def halfway (s : ExecutionController) : Operation → Registry
  | .orch label => s.orch.halfway label
  | .resumeRun id =>
    if s.orch.activeRuns.has id ∧ (s.pause id).requestResume = .resuming then
      leavePause s.orch id
    else s.orch
  | .pauseRun _ | .holdForPause _ | .executeRunJob _ _ => s.orch

theorem emit_rests (id : RunId) (type : EventType) (o : Registry) : Rests o (emit id type o) :=
  write_rests rfl

theorem Legal.emitted {o o' : Registry} (h : Legal o o o') (id : RunId) (type : EventType) :
    Legal o o (emit id type o') where
  first := h.first
  second j hj := by
    rw [Run.machine_of_life ((emit_rests id type o').life j)]
    exact h.second j hj
  synced := ((emit_rests id type o').legal h.synced).synced

theorem leavePause_legal (hSynced : Synced o) (id : RunId) :
    Legal o o (leavePause o id) ∧ (leavePause o id).created = o.created := by
  unfold leavePause
  split
  · exact transition_legal hSynced id .resuming
  · exact transition_legal hSynced id .paused
  · exact ⟨(Rests.refl o).legal hSynced, rfl⟩

theorem goOn_legal (hSynced : Synced o) (id : RunId) : Legal o o (goOn o id) := by
  unfold goOn
  split
  · exact (transition_legal hSynced id .executing).1
  · exact (transition_legal hSynced id .executing).1
  · exact (Rests.refl o).legal hSynced

theorem executeRunJob_legal (hSynced : Synced o) {continuing : Bool}
    (hOpen : (continuing || startsTerminal o id) = true → o.Reopens id →
      (o.runs id).status ≠ .cancelled) : Legal o o (executeRunJob o id continuing) := by
  unfold executeRunJob
  split
  · rename_i hContinues
    obtain hRests | ⟨hReopens, hMoves⟩ := continueRun_moves o id
    · exact hRests.legal hSynced
    · exact hMoves.legal hSynced fun hid =>
        reopened_follows (hSynced id hid) (hOpen hContinues hReopens)
  · exact (startRun_rests o id).legal hSynced

theorem legal_step {op : Operation} (hSynced : s.orch.Synced) (hLawful : s.Lawful op)
    (hStep : s.step c op = some t) : Legal s.orch (s.halfway op) t.orch := by
  have hRests : Legal s.orch s.orch s.orch := (Rests.refl s.orch).legal hSynced
  cases op with
  | orch label =>
    obtain ⟨o, ho, rfl⟩ := Option.map_eq_some_iff.mp hStep
    exact step_legal hSynced hLawful ho
  | pauseRun id =>
    cases hStep
    unfold pauseRun
    simp only
    split
    · exact Legal.emitted (transition_legal hSynced id .pausing).1 id _
    · exact hRests
  | resumeRun id =>
    cases hStep
    unfold resumeRun
    simp only [halfway]
    split
    · obtain ⟨hLeft, hCreated⟩ := leavePause_legal hSynced id
      exact hLeft.then hCreated (Legal.emitted (goOn_legal hLeft.synced id) id _)
    · exact hRests
  | holdForPause id =>
    cases hStep
    unfold holdForPause
    simp only
    split
    · exact Legal.emitted (transition_legal hSynced id .paused).1 id _
    · exact hRests
  | executeRunJob id continuing =>
    cases hStep
    exact executeRunJob_legal hSynced hLawful

theorem synced_reach (h : Reach (step c) Lawful Start s) : s.orch.Synced := by
  apply h.invariant
  · rintro s ⟨⟨hCreated, -⟩, -⟩ id hid
    rw [hCreated] at hid
    cases hid
  · intro s op t hSynced hLawful hStep
    exact (legal_step hSynced hLawful hStep).synced

/-- As long as its operations are lawful, a run takes edges of the table only, one or two in an
operation, never leaves CANCELLED, and has its status in its machine. -/
theorem legal_of_lawful (h : Reach (step c) Lawful Start s) :
    s.orch.Synced ∧ ∀ op t, s.Lawful op → s.step c op = some t → ∀ id ∈ s.orch.created,
      Edge (s.orch.runs id).machine ((s.halfway op).runs id).machine ∧
      Edge ((s.halfway op).runs id).machine (t.orch.runs id).machine ∧
      ((s.orch.runs id).machine = .cancelled → (t.orch.runs id).machine = .cancelled) := by
  have hSynced := synced_reach h
  constructor
  · exact hSynced
  · intro op t hLawful hStep id hid
    have hLegal := legal_step hSynced hLawful hStep
    have hFirst := hLegal.first id hid
    have hSecond := hLegal.second id hid
    refine ⟨hFirst, hSecond, fun hCancelled => ?_⟩
    rw [hCancelled] at hFirst
    rw [cancelled_edge hFirst] at hSecond
    exact cancelled_edge hSecond

def idle : ExecutionController := ⟨.empty, fun _ => .running⟩

def pausedOnce : List Operation :=
  [.orch (.createRun 300000 (1 / 2) 300000), .orch (.createSettles 0 (some 7)),
    .executeRunJob 7 false, .orch (.moves 7 .planning), .orch (.moves 7 .contextBuild),
    .orch (.moves 7 .modelSelect), .orch (.moves 7 .executing), .pauseRun 7, .holdForPause 7,
    .resumeRun 7, .orch (.completes 0 (some "done"))]

theorem legal_of_lawful_paused :
    ∃ s, run (step ⟨2, 1⟩) idle pausedOnce = some s ∧ s.orch.Synced ∧
      ∀ op t, s.Lawful op → s.step ⟨2, 1⟩ op = some t → ∀ id ∈ s.orch.created,
        Edge (s.orch.runs id).machine ((s.halfway op).runs id).machine ∧
        Edge ((s.halfway op).runs id).machine (t.orch.runs id).machine ∧
        ((s.orch.runs id).machine = .cancelled → (t.orch.runs id).machine = .cancelled) := by
  have hRun : (run (step ⟨2, 1⟩) idle pausedOnce).map (fun s => (s.orch.runs 7).machine) =
      some .completed := by decide +kernel
  obtain ⟨s, hs, -⟩ := Option.map_eq_some_iff.mp hRun
  refine ⟨s, hs, legal_of_lawful ((Reach.start ⟨empty_start, fun _ => rfl⟩).run hs ?_)⟩
  decide +kernel

/-- A cancelled run is continued: its machine goes from CANCELLED to RETRYING. -/
theorem cancelled_run_continues :
    ¬ ∀ (c : Config) (s : ExecutionController), Reach (step c) Anything Start s →
      s.orch.Synced ∧ ∀ op t, s.step c op = some t → ∀ id ∈ s.orch.created,
        Edge (s.orch.runs id).machine ((s.halfway op).runs id).machine ∧
        Edge ((s.halfway op).runs id).machine (t.orch.runs id).machine := by
  intro h
  have hRun : (run (step ⟨2, 1⟩) idle
      [.orch (.createRun 300000 (1 / 2) 300000), .orch (.createSettles 0 (some 7)),
        .orch (.startRun 7), .orch (.moves 7 .planning), .orch (.cancelRun 7 "User cancelled"),
        .orch (.graceElapses 1)]).map
      (fun s => ((s.orch.created, (s.orch.runs 7).machine),
        (s.step ⟨2, 1⟩ (.orch (.continueRun 7))).map fun t => (t.orch.runs 7).machine)) =
      some (([7], .cancelled), some .retrying) := by decide +kernel
  obtain ⟨s, hs, hEnd⟩ := Option.map_eq_some_iff.mp hRun
  simp only [Prod.mk.injEq] at hEnd
  obtain ⟨⟨hCreated, hMachine⟩, hStep⟩ := hEnd
  obtain ⟨t, ht, hRetrying⟩ := Option.map_eq_some_iff.mp hStep
  have hReach : Reach (step ⟨2, 1⟩) Anything Start s :=
    reach_of_run ⟨empty_start, fun _ => rfl⟩ hs
  obtain ⟨-, hEdge⟩ := (h _ s hReach).2 _ t ht 7 (by rw [hCreated]; decide)
  change Edge (s.orch.runs 7).machine (t.orch.runs 7).machine at hEdge
  rw [hMachine, hRetrying] at hEdge
  exact absurd hEdge (by decide)

end ExecutionController

end OrchestraAI.Core
