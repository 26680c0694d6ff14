import OrchestraAI.Core.BudgetRules
import OrchestraAI.Core.RunLimits

/-! # What the budget events say

Every report of the budget follows a limit that is reached, but the limit may be that of the
latency, or only the critical share of the costs. A router that finds no model for what is left
of the budget ends the run with the same report.
-/

namespace OrchestraAI.Core

open AsyncProgram LabelledSystem Episode

abbrev WarnedEpisode := System (Episode × Warnings) Op Op.Res Wait Wait.Ans LoopError Unit

def Op.reportsBudget : Op → Bool
  | .reportBudgetExceeded => true
  | .failRun e => e.blamesBudget
  | _ => false

def Op.charge : Op → Option ℚ
  | .addCost amount => some amount
  | _ => none

def Budget.Plain (c : Settings) (b : Budget) : Prop :=
  b.isLatencyExceeded = true ∨ b.isCritical c = true → b.isBudgetExceeded = true

instance (c : Settings) (b : Budget) : Decidable (b.Plain c) := inferInstanceAs (Decidable (_ → _))

def Event.failsBudget : Event → Bool
  | .runFailed _ code _ _ => code = "budget_exceeded" || code = "budget_constraint"
  | _ => false

namespace WarnedEpisode

def step (c : Settings) (x : WarnedEpisode) (l : EpisodeLabel) : Option WarnedEpisode :=
  (warnings c).step exec ends outside x l

structure Start (c : Settings) (entry : Loop.Entry) (x : WarnedEpisode) : Prop where
  plain : EpisodeSystem.Start c entry x.plain
  noted : x.shared.2 = ⟨false, []⟩

def Backed (log : List Event) : Prop :=
  ∀ before e after, log = before ++ e :: after → e.failsBudget = true →
    ∃ spent maximum, .budgetExceeded spent maximum ∈ before

structure Truthful (c : Settings) (x : Episode × Warnings) : Prop where
  exceeded : ∀ spent maximum, .budgetExceeded spent maximum ∈ x.1.log → maximum ≤ spent
  /-- The budgets that are noted are those of the warnings in the log. -/
  counted : x.1.log.count (.other .budgetWarning) = x.2.warned.length
  warned : ∀ b ∈ x.2.warned, Band c b
  failed : Backed x.1.log

/-- The answer that ends a wait blames the budget only if it is spent, and brings no warning. -/
def FairAnswer (s : Episode) (answers : (t : Wait) → t.Ans) : Option (Option Wait) → Prop
  | some (some t) =>
    (∀ e ∈ t.failure (answers t), e.blamesBudget = true → s.budget.isBudgetExceeded = true) ∧
      ∀ type ∈ t.reports (answers t), type.warns = false
  | _ => True

instance (s : Episode) (answers : (t : Wait) → t.Ans) :
    ∀ stands, Decidable (FairAnswer s answers stands)
  | some (some _) => inferInstanceAs (Decidable (_ ∧ _))
  | some none | none => inferInstanceAs (Decidable True)

/-- Before each step: what is reported as spent is a limit of the costs; a charge that comes before
a warning that is due leaves it true; no answer blames the budget before it is spent, and nobody
else warns of it. -/
def Fair (c : Settings) (x : WarnedEpisode) : EpisodeLabel → Prop
  | .tick =>
    (x.prog.due.any Op.reportsBudget = true → x.shared.1.budget.Plain c) ∧
      (x.shared.2.pending = true →
        ∀ amount ∈ x.prog.due.bind Op.charge, Band c (x.shared.1.budget.addCost amount))
  | .resume answers => FairAnswer x.shared.1 answers x.prog.stand
  | .env _ => True

instance (c : Settings) (x : WarnedEpisode) : ∀ l, Decidable (Fair c x l)
  | .tick => inferInstanceAs (Decidable (_ ∧ _))
  | .resume answers => inferInstanceAs (Decidable (FairAnswer x.shared.1 answers x.prog.stand))
  | .env _ => inferInstanceAs (Decidable True)

variable {c : Settings} {entry : Loop.Entry} {x y : WarnedEpisode} {l : EpisodeLabel}

theorem Backed.concat {log : List Event} {e : Event} (h : Backed log)
    (hFails : e.failsBudget = true → ∃ spent maximum, .budgetExceeded spent maximum ∈ log) :
    Backed (log ++ [e]) := by
  intro before e' after hSplit hCode
  obtain ⟨rest, rfl, hAfter⟩ | ⟨rest, hOld, hEnd⟩ := List.append_eq_append_iff.mp hSplit
  · cases rest with
    | nil =>
      obtain ⟨rfl, -⟩ := List.cons.inj hAfter
      rw [List.append_nil]
      exact hFails hCode
    | cons last rest => cases List.append_eq_nil_iff.mp (List.cons.inj hAfter).2.symm |>.2
  · cases rest with
    | nil =>
      obtain ⟨rfl, -⟩ := List.cons.inj hEnd
      rw [List.append_nil] at hOld
      exact hOld ▸ hFails hCode
    | cons last rest =>
      obtain ⟨rfl, -⟩ := List.cons.inj hEnd
      exact h before _ rest hOld hCode

theorem Backed.other {log : List Event} {e : Event} (h : Backed log) (he : e.failsBudget = false) :
    Backed (log ++ [e]) :=
  h.concat fun hFails => by cases he.symm.trans hFails

theorem Backed.logged {s t : Episode} (h : Backed s.log)
    (hLogged : Logged (fun e => e.failsBudget = false) s t) : Backed t.log := by
  obtain ⟨events, hLog, hOthers⟩ := hLogged
  rw [hLog]
  clear hLog
  induction events using List.reverseRecOn with
  | nil => rwa [List.append_nil]
  | append_singleton events e ih =>
    rw [← List.append_assoc]
    exact (ih fun e' he => hOthers e' (List.mem_append_left _ he)).other
      (hOthers e (List.mem_append_right _ List.mem_cons_self))

theorem usual_unfailing : Usual fun e => e.failsBudget = false := ⟨rfl, rfl, fun _ => rfl⟩

theorem backed_failRun {s : Episode} (h : Backed s.log) (error : RunError) :
    Backed (s.failRun error).log := by
  rw [log_failRun]
  split
  · rwa [List.append_nil]
  split
  · exact h.other rfl
  rw [failureEvents]
  split
  · rw [← List.append_assoc]
    exact (h.other rfl).concat fun _ => ⟨_, _, List.mem_concat_self⟩
  next hCode =>
    rw [List.nil_append]
    refine h.other ?_
    rw [Event.failsBudget, ← Bool.decide_or]
    exact decide_eq_false hCode

theorem backed_exec {s : Episode} (h : Backed s.log) (o : Op) : Backed (exec o s).2.log := by
  cases o with
  | failRun error => exact backed_failRun h error
  | emit _ | reportBudgetExceeded | completeRun _ =>
    refine h.logged (logged_exec usual_unfailing fun e he => ?_)
    obtain rfl := List.mem_singleton.mp he
    rfl
  | _ => exact h.logged (logged_exec usual_unfailing fun e he => by cases he)

theorem backed_step (h : Backed x.shared.1.log) (hStep : x.step c l = some y) :
    Backed y.shared.1.log := by
  rcases Notes.step_cases hStep with ⟨o, k, -, -, rfl⟩ | ⟨answers, t, k, -, -, -, rfl⟩ |
    ⟨i, stands, s, -, -, hEnv, rfl⟩
  · exact backed_exec h o
  · exact h
  · exact h.logged (logged_outside usual_unfailing hEnv)

theorem backed {ok : WarnedEpisode → EpisodeLabel → Prop} (h : Reach (step c) ok (Start c entry) x) :
    Backed x.shared.1.log := by
  refine h.invariant (I := fun x => Backed x.shared.1.log) (fun x hStart before e after hSplit => ?_)
    fun _ _ _ hx _ hStep => backed_step hx hStep
  have hLog : x.shared.1.log = [] := hStart.plain.log
  rw [hLog] at hSplit
  cases List.append_eq_nil_iff.mp hSplit.symm |>.2

/-- An event that is true of the budget by itself, and warns of nothing. -/
structure Mild (e : Event) : Prop where
  exceeded : ∀ spent maximum, e = .budgetExceeded spent maximum → maximum ≤ spent
  warned : e ≠ .other .budgetWarning

theorem mild_exceeded {b : Budget} (h : b.isBudgetExceeded = true) :
    Mild (.budgetExceeded b.currentSpend b.maximumCost) where
  exceeded spent maximum hSame := by
    cases hSame
    exact of_decide_eq_true h
  warned hSame := by cases hSame

theorem mild_other {type : EventType} (h : type.warns = false) : Mild (.other type) where
  exceeded spent maximum hSame := by cases hSame
  warned hSame := by
    cases hSame
    cases h

theorem usual_mild : Usual Mild where
  paused := mild_other rfl
  resumed := mild_other rfl
  cancelled reason := ⟨fun spent maximum hSame => (by cases hSame), fun hSame => (by cases hSame)⟩

structure Told (c : Settings) (x : Episode × Warnings) : Prop where
  exceeded : ∀ spent maximum, .budgetExceeded spent maximum ∈ x.1.log → maximum ≤ spent
  counted : x.1.log.count (.other .budgetWarning) = x.2.warned.length
  warned : ∀ b ∈ x.2.warned, Band c b

theorem Told.same {s t : Episode} {g : Warnings} (h : Told c (s, g)) (hLog : t.log = s.log) :
    Told c (t, g) where
  exceeded := by rw [hLog]; exact h.exceeded
  counted := by rw [hLog]; exact h.counted
  warned := h.warned

theorem Told.mild {s t : Episode} {g : Warnings} {e : Event} (h : Told c (s, g))
    (hLog : t.log = s.log ++ [e]) (hMild : Mild e) : Told c (t, g) where
  exceeded spent maximum hMem := by
    rw [hLog] at hMem
    obtain hOld | hNew := List.mem_append.mp hMem
    · exact h.exceeded spent maximum hOld
    · exact hMild.exceeded spent maximum (List.mem_singleton.mp hNew).symm
  counted := by
    rw [hLog, List.count_append, List.count_singleton, if_neg (by simpa using hMild.warned)]
    exact h.counted
  warned := h.warned

theorem Told.logged {s t : Episode} {g : Warnings} (h : Told c (s, g))
    (hLogged : Logged Mild s t) : Told c (t, g) := by
  obtain ⟨events, hLog, hMild⟩ := hLogged
  induction events generalizing s with
  | nil => exact h.same (hLog.trans (List.append_nil _))
  | cons e events ih =>
    have hReported : Told c (s.report e, g) := h.mild rfl (hMild e List.mem_cons_self)
    refine ih hReported ?_ fun e' h' => hMild e' (List.mem_cons_of_mem e h')
    rw [hLog]
    exact (List.append_assoc s.log [e] events).symm

theorem Told.warn {s : Episode} {g : Warnings} (h : Told c (s, g)) (hBand : Band c s.budget) :
    Told c (s.report (.other .budgetWarning), ⟨false, g.warned ++ [s.budget]⟩) where
  exceeded spent maximum hMem := by
    obtain hOld | hNew := List.mem_append.mp hMem
    · exact h.exceeded spent maximum hOld
    · cases List.mem_singleton.mp hNew
  counted := by
    change (s.log ++ [_]).count _ = (g.warned ++ [_]).length
    rw [List.count_append, List.count_singleton_self, List.length_append]
    exact congrArg (· + 1) h.counted
  warned b hMem := by
    obtain hOld | hNew := List.mem_append.mp hMem
    · exact h.warned b hOld
    · exact List.mem_singleton.mp hNew ▸ hBand

theorem failsBudget_iff (error : RunError) :
    ((Recovery.truthy error.code).getD "unknown" = "budget_exceeded" ∨
      (Recovery.truthy error.code).getD "unknown" = "budget_constraint") ↔
        error.blamesBudget = true := by
  rw [RunError.blamesBudget, Bool.or_eq_true, decide_eq_true_iff, decide_eq_true_iff]
  cases error.code with
  | none => decide
  | some word =>
    by_cases hEmpty : word = ""
    · subst hEmpty
      decide
    · have hTruthy : Recovery.truthy (some word) = some word :=
        Option.filter_eq_some_iff.mpr ⟨rfl, by simpa using hEmpty⟩
      rw [hTruthy, Option.getD_some, Option.some.injEq, Option.some.injEq]

theorem Told.failRun {s : Episode} {g : Warnings} {error : RunError} (h : Told c (s, g))
    (hSpent : error.blamesBudget = true → s.budget.isBudgetExceeded = true) :
    Told c (s.failRun error, g) := by
  refine h.logged (logged_failRun usual_mild fun _ e he => ?_)
  obtain hReport | hFailed := List.mem_append.mp he
  · split at hReport
    · rename_i hCode
      obtain rfl := List.mem_singleton.mp hReport
      exact mild_exceeded (hSpent ((failsBudget_iff error).mp hCode))
    · cases hReport
  · obtain rfl := List.mem_singleton.mp hFailed
    exact ⟨fun spent maximum hSame => (by cases hSame), fun hSame => (by cases hSame)⟩

/-- The invariant: what the log tells is true, a warning that is due is true, and the loop keeps to
its contract. -/
structure Spoken (c : Settings) (x : WarnedEpisode) : Prop where
  told : Told c x.shared
  due : x.shared.2.pending = true → Band c x.shared.1.budget
  speaks : Loop.Speaks c x.prog x.shared fun _ _ => True

theorem Start.spoken (h : Start c entry x) : Spoken c x := by
  obtain ⟨⟨s, g⟩, p⟩ := x
  have hLog : s.log = [] := h.plain.log
  obtain rfl : g = ⟨false, []⟩ := h.noted
  obtain rfl : p = Loop.episode c entry := h.plain.prog
  refine ⟨⟨fun _ _ hMem => ?_, ?_, fun _ hMem => (by cases hMem)⟩,
    fun hPending => (by cases hPending), Loop.episode_speaks entry⟩
  · rw [hLog] at hMem
    cases hMem
  · rw [hLog]
    rfl

theorem band_of_warns {s : Episode} (h : Loop.budgetWarns c s.view = true) : Band c s.budget := by
  rw [Loop.budgetWarns, Bool.and_eq_true, decide_eq_true_iff, Bool.not_eq_true'] at h
  exact ⟨h.1, not_le.mp (of_decide_eq_false h.2)⟩

theorem told_exec {s : Episode} {g : Warnings} {o : Op} (h : Told c (s, g))
    (hSafe : (budgeting c).safe o (s, g)) (hPlain : o.reportsBudget = true → s.budget.Plain c) :
    Told c ((exec o s).2, (warnings c).applied o s g) := by
  cases o with
  | reportBudgetExceeded =>
    have hSpent : s.budget.isBudgetExceeded = true := Or.elim hSafe id (hPlain rfl)
    exact h.mild rfl (mild_exceeded hSpent)
  | failRun error =>
    exact h.failRun fun hBlames => (hSafe hBlames).elim id fun hLatency =>
      hPlain hBlames (.inl hLatency)
  | emit type =>
    cases type with
    | budgetWarning => exact h.warn hSafe
    | _ => exact h.mild rfl (mild_other rfl)
  | evaluate => exact ⟨h.exceeded, h.counted, h.warned⟩
  | completeRun summary =>
    refine h.logged (logged_completeRun ⟨fun spent maximum hSame => ?_, fun hSame => ?_⟩)
    · cases hSame
    · cases hSame
  | _ => exact h.logged (logged_exec usual_mild fun e he => by cases he)

theorem due_exec {s : Episode} {g : Warnings} {o : Op} (h : g.pending = true → Band c s.budget)
    (hCharge : g.pending = true → ∀ amount ∈ o.charge, Band c (s.budget.addCost amount))
    (hPending : ((warnings c).applied o s g).pending = true) : Band c (exec o s).2.budget := by
  have hKept (hFree : o.free) (hBand : Band c s.budget) : Band c (exec o s).2.budget := by
    rw [budget_exec hFree]
    exact hBand
  cases o with
  | evaluate => exact band_of_warns hPending
  | addCost amount => exact hCharge hPending amount rfl
  | addLatency ms => exact h hPending
  | emit type =>
    cases type with
    | budgetWarning => cases hPending
    | _ => exact h hPending
  | _ => exact hKept trivial (h hPending)

theorem spoken_step (hx : Spoken c x) (hl : Fair c x l) (h : x.step c l = some y) : Spoken c y := by
  have hSpeaks : Loop.Speaks c y.prog y.shared fun _ _ => True := by
    refine Notes.meets_step hx.speaks h (fun _ _ _ => hx.due) (fun answers t hResume hStand _ => ?_)
      fun i stands s _ _ hOutside => ⟨fun t _ a s' hRely => ?_, fun _ _ => id⟩
    · subst hResume
      rw [Fair, hStand] at hl
      exact ⟨rfl, rfl, hl.1, hl.2⟩
    · obtain ⟨hBudget, hNotes, hFails, hReports⟩ := hRely
      rw [budget_outside hOutside] at hBudget hFails
      exact ⟨hBudget, hNotes, hFails, hReports⟩
  rcases Notes.step_cases h with ⟨o, k, rfl, hProg, rfl⟩ | ⟨answers, t, k, -, hProg, -, rfl⟩ |
    ⟨i, stands, s, -, hStand, hEnv, rfl⟩
  · obtain ⟨hReports, hCharge⟩ := hl
    rw [hProg] at hReports hCharge
    have hDue : x.prog.due = some o := by rw [hProg]; rfl
    have hSafe : (budgeting c).safe o x.shared := hx.speaks.safe hDue hx.due
    exact ⟨told_exec hx.told hSafe hReports, due_exec hx.due hCharge, hSpeaks⟩
  · exact ⟨hx.told, hx.due, hSpeaks⟩
  · refine ⟨hx.told.logged (logged_outside usual_mild hEnv), fun hPending => ?_, hSpeaks⟩
    rw [budget_outside hEnv]
    exact hx.due hPending

/-- In a run in which only a limit of the costs is reported as one, the budget events are true. -/
theorem budget_events_true (h : Reach (step c) (Fair c) (Start c entry) x) :
    Truthful c x.shared := by
  have hSpoken := h.invariant (I := Spoken c) (fun _ hStart => hStart.spoken)
    fun _ _ _ hx hl hStep => spoken_step hx hl hStep
  exact ⟨hSpoken.told.exceeded, hSpoken.told.counted, hSpoken.told.warned, backed h⟩

open EpisodeSystem (retriedEpisode plainSettings)

/-- A retried run that has spent so much of a budget of one, and has taken so long. -/
def spending (spent latency : ℚ) : WarnedEpisode :=
  ⟨({ retriedEpisode with budget := ⟨spent, 1, latency, 100000⟩ }, ⟨false, []⟩),
    Loop.episode plainSettings ⟨true, 0⟩⟩

theorem spending_start (spent latency : ℚ) :
    Start plainSettings ⟨true, 0⟩ (spending spent latency) :=
  ⟨⟨rfl, rfl, rfl, rfl, rfl, rfl, rfl, rfl⟩, rfl⟩

def answered (spent latency : ℚ) (n : Nat) : List EpisodeLabel :=
  EpisodeSystem.followed (EpisodeSystem.answers "hello") n (spending spent latency).plain

/-- One run is warned of its budget, and one that has spent more than it fails for it. -/
theorem budget_events_true_warning :
    (∃ x, run (step plainSettings) (spending (17 / 20) 0) (answered (17 / 20) 0 36) = some x ∧
      x.shared.2.warned.length = 1 ∧ Truthful plainSettings x.shared) ∧
    ∃ x, run (step plainSettings) (spending 2 0) (answered 2 0 7) = some x ∧
      .budgetExceeded 2 1 ∈ x.shared.1.log ∧ x.shared.1.log.any Event.failsBudget = true ∧
      Truthful plainSettings x.shared := by
  have hWarnedRun : (run (step plainSettings) (spending (17 / 20) 0) (answered (17 / 20) 0 36)).any
      (fun x => x.shared.2.warned.length = 1) = true := by decide +kernel
  have hWarnedFair : Along (step plainSettings) (Fair plainSettings) (spending (17 / 20) 0)
      (answered (17 / 20) 0 36) := by decide +kernel
  have hSpentRun : (run (step plainSettings) (spending 2 0) (answered 2 0 7)).any
      (fun x => .budgetExceeded 2 1 ∈ x.shared.1.log && x.shared.1.log.any Event.failsBudget) = true := by
    decide +kernel
  have hSpentFair : Along (step plainSettings) (Fair plainSettings) (spending 2 0) (answered 2 0 7) := by
    decide +kernel
  obtain ⟨x, hx, hWarned⟩ := Option.any_eq_true _ _ |>.mp hWarnedRun
  obtain ⟨y, hy, hSpent⟩ := Option.any_eq_true _ _ |>.mp hSpentRun
  obtain ⟨hExceeded, hFails⟩ := Bool.and_eq_true_iff.mp hSpent
  exact ⟨⟨x, hx, of_decide_eq_true hWarned,
    budget_events_true ((Reach.start (spending_start _ _)).run hx hWarnedFair)⟩,
    y, hy, of_decide_eq_true hExceeded, hFails,
    budget_events_true ((Reach.start (spending_start _ _)).run hy hSpentFair)⟩

/-- A run that has taken too long is reported to have spent its budget, of which it has spent
nothing. -/
theorem budget_reported_unspent :
    ¬ ∀ c entry x, Reach (step c) Anything (Start c entry) x → Truthful c x.shared := by
  intro h
  have hRuns : (run (step plainSettings) (spending 0 100000) (answered 0 100000 6)).any
      (fun x => (.budgetExceeded 0 1) ∈ x.shared.1.log) = true := by decide +kernel
  obtain ⟨x, hx, hReported⟩ := Option.any_eq_true _ _ |>.mp hRuns
  have hSpent := (h _ _ x (reach_of_run (spending_start _ _) hx)).exceeded 0 1
    (of_decide_eq_true hReported)
  exact absurd hSpent (by decide)

end WarnedEpisode

end OrchestraAI.Core
