import OrchestraAI.Frontend.RunStream

/-! # When the stream and the snapshot agree

An operation keeps the page and the snapshot together exactly when its events say what it changes,
and a run does for all of its segments exactly when each of its operations does.
-/

namespace OrchestraAI.Console

open OrchestraAI.Core OrchestraAI.Privacy LabelledSystem

variable {s t u : RunState} {next : TaskStatus}

theorem transition_cases (s : RunState) (next : TaskStatus) :
    s.machine = next ∧ s.transition next = some s ∨
    Moves s next ∧ s.transition next = some { s with machine := next, status := next } ∨
    s.machine ≠ next ∧ s.machine.canTransition next = false ∧ s.transition next = none := by
  rw [RunState.transition]
  split
  next hSame => exact .inl ⟨hSame, rfl⟩
  next hOther =>
    split
    next hLegal => exact .inr (.inl ⟨⟨hOther, hLegal⟩, rfl⟩)
    next hIllegal => exact .inr (.inr ⟨hOther, by simpa using hIllegal, rfl⟩)

theorem transition_log (h : s.transition next = some t) : t.log = s.log := by
  obtain ⟨-, hStep⟩ | ⟨-, hStep⟩ | ⟨-, -, hStep⟩ := transition_cases s next <;> rw [hStep] at h <;>
    cases h <;> rfl

theorem attempt_cases (s : RunState) (next : TaskStatus) :
    Moves s next ∧ s.attempt next = { s with machine := next, status := next } ∨
    ¬ Moves s next ∧ s.attempt next = s := by
  rw [RunState.attempt]
  obtain ⟨hSame, hStep⟩ | ⟨hMoves, hStep⟩ | ⟨hOther, hIllegal, hStep⟩ := transition_cases s next
  · exact .inr ⟨fun h => h.1 hSame, by rw [hStep]; rfl⟩
  · exact .inl ⟨hMoves, by rw [hStep]; rfl⟩
  · exact .inr ⟨fun h => by simp [h.2] at hIllegal, by rw [hStep]; rfl⟩

theorem attempt_frame (s : RunState) (next : TaskStatus) : (s.attempt next).log = s.log ∧
    (s.attempt next).currentModel = s.currentModel ∧ (s.attempt next).budget = s.budget := by
  obtain ⟨-, h⟩ | ⟨-, h⟩ := attempt_cases s next <;> rw [h] <;> exact ⟨rfl, rfl, rfl⟩

theorem describes_iff (events : List StreamEvent) (h : t.log = s.log ++ events) : Describes s t ↔
    events.foldl applyEventToSnapshot (buildSnapshot s) = buildSnapshot t := by
  rw [Describes, h, List.drop_left]

theorem foldl_quiet (types : List String) (p : Panels) :
    (types.map StreamEvent.other).foldl applyEventToSnapshot p = p := by
  rw [List.foldl_map]
  exact List.foldl_fixed' (fun _ => rfl) types

theorem describes_quiet (types : List String) (h : t.log = s.log ++ types.map .other)
    (hModel : t.currentModel = s.currentModel) (hBudget : t.budget = s.budget) :
    Describes s t ↔ frontendStatus s.status = frontendStatus t.status := by
  rw [describes_iff _ h, foldl_quiet, buildSnapshot, buildSnapshot, Panels.mk.injEq, hModel,
    hBudget]
  exact and_iff_left ⟨rfl, rfl⟩

theorem describes_status (events : List StreamEvent) (status : String)
    (h : t.log = s.log ++ events)
    (hEvents : events.foldl applyEventToSnapshot (buildSnapshot s) =
      { buildSnapshot s with status := status })
    (hModel : t.currentModel = s.currentModel) (hBudget : t.budget = s.budget) :
    Describes s t ↔ status = frontendStatus t.status := by
  rw [describes_iff _ h, hEvents, buildSnapshot, buildSnapshot, Panels.mk.injEq, hModel, hBudget]
  exact and_iff_left ⟨rfl, rfl⟩

theorem describes_self (s : RunState) : Describes s s := by
  rw [Describes, List.drop_length]
  rfl

theorem describes_attempt (types : List String) :
    Describes s ((s.attempt next).emit (types.map .other)) ↔
      (Moves s next → frontendStatus s.status = frontendStatus next) := by
  obtain ⟨hMoves, hStep⟩ | ⟨hStays, hStep⟩ := attempt_cases s next
  · rw [hStep]
    refine Iff.trans (describes_quiet types rfl rfl rfl) ?_
    exact ⟨fun h _ => h, fun h => h hMoves⟩
  · rw [hStep]
    refine Iff.trans (describes_quiet types rfl rfl rfl) ?_
    exact iff_of_true rfl fun h => absurd h hStays

theorem plan_iff (types : List String) (hPlanning : t.machine = .planning)
    (h : t.log = s.log ++ types.map .other) (hModel : t.currentModel = s.currentModel)
    (hBudget : t.budget = s.budget) : Describes s t.plan ↔
      (t.budget.isBudgetExceeded = true → frontendStatus t.status = "planning") := by
  rw [RunState.plan]
  split
  next hExceeded =>
    refine Iff.trans (describes_status (types.map .other ++ [.taskStarted, .planning]) "planning" ?_
      ?_ hModel hBudget) ?_
    · rw [← List.append_assoc, ← h]
      rfl
    · rw [List.foldl_append, foldl_quiet]
      rfl
    · exact ⟨fun hShown _ => hShown.symm, fun hShown => (hShown hExceeded).symm⟩
  next hAffordable =>
    have hMoves : Moves (t.emit [.taskStarted, .planning]) .contextBuild := by
      change t.machine ≠ _ ∧ t.machine.canTransition _ = true
      rw [hPlanning]
      decide
    obtain ⟨-, hStep⟩ | ⟨hStays, -⟩ :=
      attempt_cases (t.emit [.taskStarted, .planning]) .contextBuild
    · rw [hStep]
      refine Iff.trans (describes_status
        (types.map .other ++ [.taskStarted, .planning, .contextBuilt]) "running" ?_ ?_ hModel
        hBudget) ?_
      · rw [← List.append_assoc, ← h]
        exact List.append_assoc ..
      · rw [List.foldl_append, foldl_quiet]
        rfl
      · exact iff_of_true rfl fun hExceeded => absurd hExceeded hAffordable
    · exact absurd hMoves hStays

theorem executeFresh_iff (types : List String) (h : t.log = s.log ++ types.map .other)
    (hModel : t.currentModel = s.currentModel) (hBudget : t.budget = s.budget) :
    Describes s t.executeFresh ↔
      if t.machine = .planning then
        t.budget.isBudgetExceeded = true → frontendStatus t.status = "planning"
      else t.machine.canTransition .planning = true ∨
        frontendStatus s.status = frontendStatus t.status := by
  rw [RunState.executeFresh]
  obtain ⟨hSame, hStep⟩ | ⟨hMoves, hStep⟩ | ⟨hOther, hIllegal, hStep⟩ :=
    transition_cases t .planning
  · rw [hStep, if_pos hSame]
    exact plan_iff types hSame h hModel hBudget
  · rw [hStep, if_neg hMoves.1]
    refine Iff.trans (plan_iff types rfl h hModel hBudget) ?_
    exact iff_of_true (fun _ => rfl) (.inl hMoves.2)
  · rw [hStep, if_neg hOther, or_iff_right (by simp [hIllegal])]
    exact describes_quiet types h hModel hBudget

theorem startRun_iff (types : List String) (h : t.log = s.log ++ types.map .other)
    (hMachine : t.machine = s.machine) (hStatus : t.status = s.status)
    (hModel : t.currentModel = s.currentModel) (hBudget : t.budget = s.budget) :
    Describes s t.startRun ↔ s.status.terminal = true ∨ StartShown s := by
  rw [RunState.startRun, hStatus]
  split
  next hTerminal =>
    refine iff_of_true ?_ (.inl hTerminal)
    exact (describes_quiet types h hModel hBudget).mpr (by rw [hStatus])
  next hOpen =>
    rw [executeFresh_iff types h hModel hBudget, or_iff_right hOpen, StartShown, hMachine, hStatus,
      hBudget]
    split
    next hPlanning => exact ⟨fun h _ => h, fun h => h hPlanning⟩
    next hOther => exact iff_of_true (.inr rfl) fun h => absurd h hOther

theorem continueRun_iff (s : RunState) :
    Describes s s.continueRun ↔ s.status.terminal = true ∨ StartShown s := by
  rw [RunState.continueRun]
  split
  next hTerminal =>
    refine iff_of_true ?_ (.inl hTerminal)
    have hReopened : Describes s
        ({ s.emit [.other "episode.started"] with machine := .retrying, status := .retrying } :
          RunState).startRun := by
      refine Iff.mpr (executeFresh_iff ["episode.started"] rfl rfl rfl) ?_
      exact .inl rfl
    rw [RunState.reopen]
    obtain ⟨-, hStep⟩ | ⟨-, hStep⟩ | ⟨-, -, hStep⟩ :=
      transition_cases (s.emit [.other "episode.started"]) .retrying
    · rw [hStep]
      exact Iff.mpr (startRun_iff ["episode.started"] rfl rfl rfl rfl rfl) (.inl hTerminal)
    · rw [hStep]
      exact hReopened
    · rw [hStep]
      exact hReopened
  next => exact startRun_iff ["episode.started"] rfl rfl rfl rfl rfl

theorem retrying_cases (s : RunState) :
    s.machine = .retrying ∧ s.retrying = s ∨
    s.machine.canTransition .retrying = true ∧
      s.retrying = { s with machine := .retrying, status := .retrying } ∨
    ¬ (s.machine = .retrying ∨ s.machine.canTransition .retrying = true) ∧
      s.retrying = { s with status := .retrying } := by
  rw [RunState.retrying]
  obtain ⟨hSame, hStep⟩ | ⟨hMoves, hStep⟩ | ⟨hOther, hIllegal, hStep⟩ :=
    transition_cases s .retrying
  · exact .inl ⟨hSame, by rw [hStep]; rfl⟩
  · exact .inr (.inl ⟨hMoves.2, by rw [hStep]; rfl⟩)
  · exact .inr (.inr ⟨by simp [hOther, hIllegal], by rw [hStep]; rfl⟩)

theorem retrying_frame (s : RunState) : s.retrying.log = s.log ∧
    s.retrying.currentModel = s.currentModel ∧ s.retrying.budget = s.budget := by
  obtain ⟨-, h⟩ | ⟨-, h⟩ | ⟨-, h⟩ := retrying_cases s <;> rw [h] <;> exact ⟨rfl, rfl, rfl⟩

theorem resumed_running (s : RunState) (events : List StreamEvent) :
    Running ((s.retrying.emit events).attempt .executing) := by
  obtain ⟨-, hStep⟩ | ⟨hStays, hStep⟩ := attempt_cases (s.retrying.emit events) .executing
  · rw [hStep]
    rfl
  · rw [hStep]
    obtain ⟨hMachine, h⟩ | ⟨-, h⟩ | ⟨-, h⟩ := retrying_cases s
    · rw [h] at hStays
      refine absurd (show Moves s .executing from ?_) hStays
      rw [Moves, hMachine]
      decide
    · rw [h]
      rfl
    · rw [h]
      rfl

theorem retryRun_iff (s : RunState) : Describes s s.retryRun ↔ Announced s .retried := by
  obtain ⟨hLog, hModel, hBudget⟩ := retrying_frame s
  rw [RunState.retryRun, Announced]
  split
  next hHas =>
    refine iff_of_false ?_ fun h => by simp [hHas] at h
    have hEmit : (s.retrying.emit [.other "execution.recovered", .other "execution.retry"]).emit
        [.planning] = s.retrying.emit
          [.other "execution.recovered", .other "execution.retry", .planning] := by
      simp [RunState.emit]
    rw [RunState.executeResumed, hEmit]
    have hRunning := resumed_running s
      [.other "execution.recovered", .other "execution.retry", .planning]
    obtain ⟨hLog', hModel', hBudget'⟩ := attempt_frame (s.retrying.emit
      [.other "execution.recovered", .other "execution.retry", .planning]) .executing
    intro hShown
    have hPlanning := (describes_status _ "planning" (hLog'.trans (congrArg (· ++ _) hLog)) rfl
      (hModel'.trans hModel) (hBudget'.trans hBudget)).mp hShown
    rw [hRunning] at hPlanning
    exact absurd hPlanning (by decide)
  next hNone =>
    rw [and_iff_right (by simpa using hNone)]
    refine Iff.trans (executeFresh_iff ["execution.recovered", "execution.retry"]
      (congrArg (· ++ _) hLog) hModel hBudget) ?_
    change (if s.retrying.machine = .planning then
      s.retrying.budget.isBudgetExceeded = true → frontendStatus s.retrying.status = "planning"
      else s.retrying.machine.canTransition .planning = true ∨
        frontendStatus s.status = frontendStatus s.retrying.status) ↔ _
    obtain ⟨hMachine, h⟩ | ⟨hLegal, h⟩ | ⟨hStays, h⟩ := retrying_cases s
    · rw [h, hMachine]
      exact iff_of_true (.inl rfl) (.inl rfl)
    · rw [h]
      exact iff_of_true (.inl rfl) (.inr (.inl hLegal))
    · rw [h, ← or_assoc, or_iff_right hStays]
      have hStart : s.machine.canTransition .planning = true ↔ s.machine = .created := by
        have hRetrying : s.machine ≠ .retrying := fun hSame => hStays (.inl hSame)
        revert hRetrying
        generalize s.machine = machine
        cases machine <;> decide
      dsimp only
      split
      · simp [frontendStatus]
      · rw [hStart]
        rfl

theorem toObserving_cases (s : RunState) :
    (s.machine = .waitingForTool ∨ s.machine = .executing) ∧
      s.toObserving = some { s with machine := .observing, status := .observing } ∨
    s.machine = .observing ∧ s.toObserving = some s ∨
    ¬ (s.machine = .waitingForTool ∨ s.machine = .executing ∨ s.machine = .observing) ∧
      s.toObserving = none := by
  obtain ⟨machine, status, model, budget, log⟩ := s
  cases machine <;> simp [RunState.toObserving, RunState.transition, TaskStatus.canTransition,
    TaskStatus.transitions]

theorem toolsObserved_iff (s : RunState) :
    Describes s (s.after .toolsObserved) ↔ Announced s .toolsObserved := by
  have hEnd {t : RunState} (hMachine : t.machine = .observing) (h : t.log = s.log)
      (hModel : t.currentModel = s.currentModel) (hBudget : t.budget = s.budget) :
      Describes s ((t.emit [.other "execution.step_completed"]).attempt .executing) ↔
        Running s := by
    have hMoves : Moves (t.emit [.other "execution.step_completed"]) .executing := by
      change t.machine ≠ _ ∧ t.machine.canTransition _ = true
      rw [hMachine]
      decide
    obtain ⟨-, hStep⟩ | ⟨hStays, -⟩ :=
      attempt_cases (t.emit [.other "execution.step_completed"]) .executing
    · rw [hStep]
      exact describes_quiet ["execution.step_completed"] (congrArg (· ++ _) h) hModel hBudget
    · exact absurd hMoves hStays
  rw [RunState.after]
  obtain ⟨hMachine, hStep⟩ | ⟨hMachine, hStep⟩ | ⟨hMachine, hStep⟩ := toObserving_cases s
  · rw [hStep]
    refine Iff.trans (hEnd rfl rfl rfl rfl) ?_
    exact ⟨fun h _ => h, fun h => h (hMachine.imp_right .inl)⟩
  · rw [hStep]
    refine Iff.trans (hEnd hMachine rfl rfl rfl) ?_
    exact ⟨fun h _ => h, fun h => h (.inr (.inr hMachine))⟩
  · rw [hStep]
    exact iff_of_true (describes_self s) fun h => absurd h hMachine

theorem shown_iff (id : String) {m n : Option String} (hn : id = "" → n = m) :
    nameOr (nameOr (some id) n) m = some id ↔ id ≠ "" ∨ m = some "" := by
  by_cases h : id = ""
  · obtain rfl := hn h
    subst h
    have hSelf : nameOr n n = n := by
      cases n with
      | none => rfl
      | some name => by_cases hName : name = "" <;> simp [nameOr, Option.filter, hName]
    change nameOr n n = some "" ↔ _
    rw [hSelf]
    simp
  · have hShown (n : Option String) : nameOr (some id) n = some id := by simp [nameOr, h]
    rw [hShown, hShown]
    simp [h]

theorem addCosts_spend (s : RunState) (amounts : List ℚ) :
    (s.addCosts amounts).budget.currentSpend = s.budget.currentSpend + amounts.sum := by
  change (amounts.foldl Budget.addCost s.budget).currentSpend = _
  generalize s.budget = budget
  induction amounts generalizing budget with
  | nil => simp
  | cons a amounts ih =>
    rw [List.foldl_cons, ih, List.sum_cons, Budget.addCost]
    ring

theorem goOn_cases (s : RunState) :
    (s.machine = .paused ∨ s.machine = .pausing ∨ s.machine = .resuming) ∧
      s.goOn = { s with machine := .executing, status := .executing } ∨
    ¬ (s.machine = .paused ∨ s.machine = .pausing ∨ s.machine = .resuming) ∧ s.goOn = s := by
  obtain ⟨machine, status, model, budget, log⟩ := s
  cases machine with
  | paused => exact .inl ⟨.inl rfl, rfl⟩
  | pausing => exact .inl ⟨.inr (.inl rfl), rfl⟩
  | resuming => exact .inl ⟨.inr (.inr rfl), rfl⟩
  | _ => exact .inr ⟨by simp, rfl⟩

theorem resumed_iff (s : RunState) : Describes s (s.after .resumed) ↔ Announced s .resumed := by
  rw [RunState.after]
  obtain ⟨hMachine, hStep⟩ | ⟨hMachine, hStep⟩ := goOn_cases s
  · rw [hStep]
    refine Iff.trans (describes_quiet ["execution.resumed"] rfl rfl rfl) ?_
    exact ⟨fun h _ => h, fun h => h hMachine⟩
  · rw [hStep]
    refine Iff.trans (describes_quiet ["execution.resumed"] rfl rfl rfl) ?_
    exact iff_of_true rfl fun h => absurd h hMachine

theorem routeBack_cases (s : RunState) :
    ¬ (s.status = .observing ∨ s.status = .waitingForTool) ∧ s.routeBack = some s ∨
    (s.status = .observing ∨ s.status = .waitingForTool) ∧ (s.routeBack = none ∨
      ∃ status, s.routeBack = some { s with machine := .executing, status := status }) := by
  rw [RunState.routeBack]
  split
  next hRoute =>
    refine .inr ⟨hRoute, ?_⟩
    obtain ⟨hSame, hStep⟩ | ⟨-, hStep⟩ | ⟨-, -, hStep⟩ := transition_cases s .executing
    · exact .inr ⟨s.status, by rw [hStep, ← hSame]⟩
    · exact .inr ⟨.executing, hStep⟩
    · exact .inl hStep
  next hStays => exact .inl ⟨hStays, rfl⟩

theorem complete_iff (s : RunState) : Describes s s.complete ↔ Announced s .completed := by
  rw [RunState.complete, Announced]
  split
  next hEnd => exact iff_of_true (describes_self s) (.inl hEnd)
  next hOpen =>
    rw [or_iff_right hOpen]
    obtain ⟨hStays, hStep⟩ | ⟨hRoute, hStep | ⟨status, hStep⟩⟩ := routeBack_cases s
    · rw [hStep, Option.bind_some, or_iff_left hStays]
      obtain ⟨hSame, hEnd⟩ | ⟨hMoves, hEnd⟩ | ⟨hOther, -, hEnd⟩ := transition_cases s .completed
      · rw [hEnd]
        refine Iff.trans (describes_status [.runCompleted] "completed" rfl rfl rfl rfl) ?_
        have hCompleted (t : TaskStatus) : "completed" = frontendStatus t → t.terminal = true := by
          cases t <;> decide
        exact iff_of_false (fun h => hOpen (hCompleted s.status h)) fun hOther => hOther hSame
      · rw [hEnd]
        refine Iff.trans (describes_status [.runCompleted] "completed" rfl rfl rfl rfl) ?_
        exact iff_of_true rfl hMoves.1
      · rw [hEnd]
        exact iff_of_true (describes_self s) hOther
    · rw [hStep]
      exact iff_of_true (describes_self s) (.inr hRoute)
    · rw [hStep]
      refine iff_of_true ?_ (.inr hRoute)
      exact Iff.mpr (describes_status [.runCompleted] "completed" rfl rfl rfl rfl) rfl

theorem ended_iff {status : TaskStatus} {event : StreamEvent}
    (h : ∀ p, applyEventToSnapshot p event = { p with status := frontendStatus status })
    (hStatus : ∀ t : TaskStatus, frontendStatus status = frontendStatus t ↔ t = status)
    (hTerminal : status.terminal = true) :
    Describes s (s.ended status event) ↔ s.status.terminal = true ∨ s.machine ≠ status := by
  rw [RunState.ended]
  split
  next hEnd => exact iff_of_true (describes_self s) (.inl hEnd)
  next hOpen =>
    rw [or_iff_right hOpen]
    obtain ⟨hSame, hStep⟩ | ⟨hMoves, hStep⟩ | ⟨hOther, -, hStep⟩ := transition_cases s status
    · rw [hStep]
      refine Iff.trans (describes_status [event] (frontendStatus status) rfl (h _) rfl rfl) ?_
      refine iff_of_false (fun hShown => hOpen ?_) fun hOther => hOther hSame
      exact (hStatus _).mp hShown ▸ hTerminal
    · rw [hStep]
      refine Iff.trans (describes_status [event] (frontendStatus status) rfl (h _) rfl rfl) ?_
      exact iff_of_true rfl hMoves.1
    · rw [hStep]
      refine Iff.trans (describes_status [event] (frontendStatus status) rfl (h _) rfl rfl) ?_
      exact iff_of_true rfl hOther

theorem announced_iff (s : RunState) (op : RunOp) : Describes s (s.after op) ↔ Announced s op := by
  cases op with
  | created => exact Iff.trans (describes_status [.taskCreated] "planning" rfl rfl rfl rfl) eq_comm
  | started => exact startRun_iff [] (List.append_nil _).symm rfl rfl rfl rfl
  | continued => exact continueRun_iff s
  | contextReady =>
    rw [RunState.after]
    obtain ⟨hMoves, hStep⟩ | ⟨hStays, hStep⟩ := attempt_cases (s.emit [.contextBuilt]) .modelSelect
    · rw [hStep]
      refine Iff.trans (describes_status [.contextBuilt] "running" rfl rfl rfl rfl) ?_
      exact iff_of_true rfl (.inl hMoves)
    · rw [hStep]
      refine Iff.trans (describes_status [.contextBuilt] "running" rfl rfl rfl rfl) ?_
      exact ⟨fun h => .inr h.symm, fun h => (h.resolve_left hStays).symm⟩
  | modelSelected id =>
    refine Iff.trans
      (describes_iff [.modelSelected (some id) none, .other "routing.evaluated"] rfl) ?_
    refine Iff.trans (Panels.mk.injEq ..).to_iff ?_
    exact Iff.trans ⟨fun h => h.2.1, fun h => ⟨rfl, h, rfl⟩⟩ (shown_iff id fun _ => rfl)
  | executing =>
    have h : Describes s ((s.attempt .executing).emit (List.map .other [])) ↔ _ :=
      describes_attempt []
    rwa [List.map_nil, RunState.emit, List.append_nil] at h
  | toolsRequested =>
    rw [RunState.after]
    obtain ⟨hSame, hStep⟩ | ⟨hMoves, hStep⟩ | ⟨hOther, hIllegal, hStep⟩ :=
      transition_cases s .waitingForTool
    · rw [hStep]
      refine Iff.trans (describes_quiet ["tool.selected"] rfl rfl rfl) ?_
      exact iff_of_true rfl fun h => absurd hSame h.1
    · rw [hStep]
      refine Iff.trans (describes_quiet ["tool.selected"] rfl rfl rfl) ?_
      exact ⟨fun h _ => h, fun h => h hMoves⟩
    · rw [hStep]
      exact iff_of_true (describes_self s) fun h => by simp [h.2] at hIllegal
  | toolCharged cost =>
    refine Iff.trans (describes_iff [.other "tool.completed"] rfl) ?_
    refine Iff.trans (Panels.mk.injEq ..).to_iff ?_
    exact ⟨fun h => h.2.2.symm, fun h => ⟨rfl, rfl, h.symm⟩⟩
  | toolsObserved => exact toolsObserved_iff s
  | stepObserved =>
    rw [RunState.after]
    obtain ⟨hMachine, hStep⟩ | ⟨hMachine, hStep⟩ | ⟨hMachine, hStep⟩ := toObserving_cases s
    · rw [hStep]
      refine Iff.trans (describes_quiet ["response.done"] rfl rfl rfl) ?_
      exact ⟨fun h _ => h, fun h => h hMachine⟩
    · rw [hStep]
      refine Iff.trans (describes_quiet ["response.done"] rfl rfl rfl) ?_
      refine iff_of_true rfl fun h => ?_
      rw [hMachine] at h
      simp at h
    · rw [hStep]
      exact iff_of_true (describes_self s) fun h => absurd (h.imp_right .inl) hMachine
  | charged amounts =>
    refine Iff.trans (describes_iff [.other "model.call_completed",
      .costUpdated (some (s.addCosts amounts).budget.currentSpend)] ?_) ?_
    · exact List.append_assoc ..
    · refine Iff.trans (Panels.mk.injEq ..).to_iff ?_
      rw [Announced, OnGrid, ← addCosts_spend]
      exact ⟨fun h => h.2.2.symm, fun h => ⟨rfl, rfl, h.symm⟩⟩
  | switched cost id =>
    refine Iff.trans (describes_iff [.modelSwitched (some id) (some id),
      .costUpdated (some (s.budget.currentSpend + cost))] ?_) ?_
    · exact List.append_assoc ..
    · refine Iff.trans (Panels.mk.injEq ..).to_iff ?_
      have hShown := shown_iff id (m := s.currentModel) (n := nameOr (some id) s.currentModel)
        fun hEmpty => hEmpty ▸ rfl
      exact ⟨fun h => ⟨h.2.2.symm, hShown.mp h.2.1⟩,
        fun h => ⟨rfl, hShown.mpr h.2, h.1.symm⟩⟩
  | pauseRequested => exact describes_attempt ["execution.paused"]
  | held => exact describes_attempt ["execution.paused"]
  | resumed => exact resumed_iff s
  | completed => exact complete_iff s
  | failed =>
    refine ended_iff (fun p => rfl) (fun t => ?_) rfl
    cases t <;> decide
  | cancelled =>
    refine ended_iff (fun p => rfl) (fun t => ?_) rfl
    cases t <;> decide
  | retryRefused =>
    rw [RunState.after]
    split
    next hRefused =>
      refine Iff.trans (describes_status [.runFailed] "failed" rfl rfl rfl rfl) ?_
      exact iff_of_true (by rw [RunState.emit, hRefused.1]; rfl) trivial
    · exact iff_of_true (describes_self s) trivial
  | restored saved =>
    refine Iff.trans (describes_iff [] (List.append_nil _).symm) ?_
    refine Iff.trans (Panels.mk.injEq ..).to_iff ?_
    exact ⟨fun h => ⟨h.1.symm, h.2.1.symm, h.2.2.symm⟩, fun h => ⟨h.1.symm, h.2.1.symm, h.2.2.symm⟩⟩
  | retried => exact retryRun_iff s
  | interrupted =>
    rw [RunState.after]
    split
    next hTerminal => exact iff_of_true (describes_self s) hTerminal
    next hOpen =>
      refine Iff.trans (describes_quiet [] (List.append_nil _).symm rfl rfl) ?_
      have hFailed (t : TaskStatus) : frontendStatus t = "failed" → t.terminal = true := by
        cases t <;> decide
      exact iff_of_false (fun h => hOpen (hFailed s.status h)) hOpen
  | noted type =>
    refine iff_of_true ?_ trivial
    exact Iff.mpr (describes_quiet [type] rfl rfl rfl) rfl

def afterAll (s : RunState) (ops : List RunOp) : RunState := ops.foldl RunState.after s

theorem log_emit (s : RunState) (events : List StreamEvent) : s.log <+: (s.emit events).log :=
  List.prefix_append ..

theorem log_attempt (s : RunState) (next : TaskStatus) : s.log <+: (s.attempt next).log := by
  rw [(attempt_frame s next).1]

theorem log_executeFresh (s : RunState) : s.log <+: s.executeFresh.log := by
  have hPlan (t : RunState) : t.log <+: t.plan.log := by
    rw [RunState.plan]
    split
    · exact log_emit t _
    · exact ((log_emit t _).trans (log_attempt _ _)).trans (log_emit _ _)
  rw [RunState.executeFresh]
  obtain ⟨-, hStep⟩ | ⟨-, hStep⟩ | ⟨-, -, hStep⟩ := transition_cases s .planning
  · rw [hStep]
    exact hPlan s
  · rw [hStep]
    exact hPlan { s with machine := .planning, status := .planning }
  · rw [hStep]
    exact List.prefix_rfl

theorem log_startRun (s : RunState) : s.log <+: s.startRun.log := by
  rw [RunState.startRun]
  split
  · exact List.prefix_rfl
  · exact log_executeFresh s

theorem log_continueRun (s : RunState) : s.log <+: s.continueRun.log := by
  have hReopen (t : RunState) : t.log <+: t.reopen.log := by
    rw [RunState.reopen]
    obtain ⟨-, hStep⟩ | ⟨-, hStep⟩ | ⟨-, -, hStep⟩ := transition_cases t .retrying <;>
      rw [hStep] <;>
      exact List.prefix_rfl
  rw [RunState.continueRun]
  split
  · exact ((log_emit s _).trans (hReopen _)).trans (log_startRun _)
  · exact (log_emit s _).trans (log_startRun _)

theorem log_retryRun (s : RunState) : s.log <+: s.retryRun.log := by
  have hRetrying : s.log <+: (s.retrying.emit
      [.other "execution.recovered", .other "execution.retry"]).log := by
    rw [← (retrying_frame s).1]
    exact log_emit _ _
  rw [RunState.retryRun]
  split
  · exact (hRetrying.trans (log_emit _ _)).trans (log_attempt _ _)
  · exact hRetrying.trans (log_executeFresh _)

theorem log_after (s : RunState) (op : RunOp) : s.log <+: (s.after op).log := by
  cases op with
  | created | modelSelected id | toolCharged cost | noted type => exact log_emit s _
  | started => exact log_startRun s
  | continued => exact log_continueRun s
  | contextReady => exact (log_emit s _).trans (log_attempt _ _)
  | executing => exact log_attempt s _
  | toolsRequested =>
    rw [RunState.after]
    obtain ⟨-, hStep⟩ | ⟨-, hStep⟩ | ⟨-, -, hStep⟩ := transition_cases s .waitingForTool
    · rw [hStep]
      exact log_emit s _
    · rw [hStep]
      exact log_emit s _
    · rw [hStep]
  | toolsObserved =>
    rw [RunState.after]
    obtain ⟨-, hStep⟩ | ⟨-, hStep⟩ | ⟨-, hStep⟩ := toObserving_cases s
    · rw [hStep]
      exact (log_emit { s with machine := .observing, status := .observing } _).trans
        (log_attempt _ _)
    · rw [hStep]
      exact (log_emit s _).trans (log_attempt _ _)
    · rw [hStep]
  | stepObserved =>
    rw [RunState.after]
    obtain ⟨-, hStep⟩ | ⟨-, hStep⟩ | ⟨-, hStep⟩ := toObserving_cases s
    · rw [hStep]
      exact log_emit s _
    · rw [hStep]
      exact log_emit s _
    · rw [hStep]
  | charged amounts | switched cost id => exact (log_emit s _).trans (log_emit _ _)
  | pauseRequested | held => exact (log_attempt s _).trans (log_emit _ _)
  | resumed =>
    rw [RunState.after]
    obtain ⟨-, hStep⟩ | ⟨-, hStep⟩ := goOn_cases s <;> rw [hStep] <;> exact log_emit s _
  | completed =>
    rw [RunState.after, RunState.complete]
    split
    · exact List.prefix_rfl
    · split
      · exact List.prefix_rfl
      next done hDone =>
        obtain ⟨r, hRouted, hEnd⟩ := Option.bind_eq_some_iff.mp hDone
        have hRoute : r.log = s.log := by
          rw [RunState.routeBack] at hRouted
          split at hRouted
          · exact transition_log hRouted
          · cases hRouted
            rfl
        rw [← hRoute, ← transition_log hEnd]
        exact log_emit done _
  | failed | cancelled =>
    rw [RunState.after, RunState.ended]
    split
    · exact List.prefix_rfl
    · refine List.IsPrefix.trans ?_ (log_emit _ _)
      obtain ⟨-, hStep⟩ | ⟨-, hStep⟩ | ⟨-, -, hStep⟩ := transition_cases s _ <;> rw [hStep] <;>
        exact List.prefix_rfl
  | retryRefused =>
    rw [RunState.after]
    split
    · exact log_emit s _
    · exact List.prefix_rfl
  | restored saved => exact List.prefix_rfl
  | retried => exact log_retryRun s
  | interrupted =>
    rw [RunState.after]
    split <;> exact List.prefix_rfl

theorem log_afterAll (s : RunState) (ops : List RunOp) : s.log <+: (afterAll s ops).log := by
  induction ops generalizing s with
  | nil => exact List.prefix_rfl
  | cons op ops ih => exact (log_after s op).trans (ih (s.after op))

theorem Describes.trans (hst : Describes s t) (htu : Describes t u) (hs : s.log <+: t.log)
    (ht : t.log <+: u.log) : Describes s u := by
  obtain ⟨events, hEvents⟩ := hs
  obtain ⟨more, hMore⟩ := ht
  rw [describes_iff events hEvents.symm] at hst
  rw [describes_iff more hMore.symm] at htu
  rw [describes_iff (events ++ more) (by rw [← List.append_assoc, hEvents, hMore]),
    List.foldl_append, hst, htu]

theorem describes_of_along {ops : List RunOp} (h : Along runStep Announced s ops) :
    Describes s (afterAll s ops) := by
  induction ops generalizing s with
  | nil => exact describes_self s
  | cons op ops ih =>
    exact Describes.trans ((announced_iff s op).mpr h.1) (ih h.2) (log_after s op)
      (log_afterAll (s.after op) ops)

theorem along_after {before ops : List RunOp} (h : Along runStep Announced s (before ++ ops)) :
    Along runStep Announced (afterAll s before) ops := by
  induction before generalizing s with
  | nil => exact h
  | cons op before ih => exact ih h.2

theorem along_before {before ops : List RunOp} (h : Along runStep Announced s (before ++ ops)) :
    Along runStep Announced s before := by
  induction before generalizing s with
  | nil => trivial
  | cons op before ih => exact ⟨h.1, ih h.2⟩

/-- Over each segment of a run the events lead from the snapshot at its start to the one at its end
exactly when every operation announces what it changes. -/
theorem stream_describes_iff (s : RunState) (ops : List RunOp) :
    (∀ before segment rest, ops = before ++ (segment ++ rest) →
      Describes (afterAll s before) (afterAll s (before ++ segment))) ↔
    Along runStep Announced s ops := by
  constructor
  · intro h
    induction ops generalizing s with
    | nil => trivial
    | cons op ops ih =>
      refine ⟨(announced_iff s op).mp (h [] [op] ops rfl), ih (s.after op) ?_⟩
      intro before segment rest hOps
      exact h (op :: before) segment rest (congrArg (op :: ·) hOps)
  · rintro h before segment rest rfl
    have hSplit : afterAll s (before ++ segment) = afterAll (afterAll s before) segment :=
      List.foldl_append ..
    rw [hSplit]
    exact describes_of_along (along_before (along_after h))

def toolRun : List RunOp :=
  [.created, .started, .contextReady, .modelSelected "small", .executing, .toolsRequested]

def resumedRun : List RunOp :=
  [.created, .started, .contextReady, .modelSelected "small", .executing, .failed, .retried]

def pricedRun : List RunOp :=
  [.created, .started, .contextReady, .modelSelected "small", .executing, .charged [1 / 3]]

def newRun : RunState := ⟨.created, .created, none, ⟨0, 5, 0, 900000⟩, []⟩

/-- The page has the run planning before it starts, running while a tool is waited for, planning
after it is taken up again, and more places of its spend than the snapshot. -/
theorem stream_disagrees :
    ¬ Describes newRun (afterAll newRun [.created]) ∧
    ¬ Describes newRun (afterAll newRun toolRun) ∧
    ¬ Describes newRun (afterAll newRun resumedRun) ∧
    ¬ Describes newRun (afterAll newRun pricedRun) := by
  decide +kernel

end OrchestraAI.Console
