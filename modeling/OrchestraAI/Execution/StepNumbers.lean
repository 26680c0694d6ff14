import Mathlib.Data.List.Induction
import OrchestraAI.Execution.StepKeys

/-! # The numbers of the steps

Under which numbers the episodes of a run ask for tools. An episode counts its steps from where its
entry puts the counter: a start and a continuation from one, a retry from behind the cursor that the
recovery has found. The assist takes the number of `execution.currentStep`, which goes on counting.
-/

namespace OrchestraAI.Execution

open OrchestraAI.Recovery (RecoveryResult)

def StepRequests.calls {ρ : Type} (asked : StepRequests ρ) : List (ToolCall ρ) :=
  ((asked.rounds.takeWhile fun calls => !calls.isEmpty).take 4).flatMap fun calls =>
    (calls.take 3).filter ToolCall.admitted

def StepRequests.assistCall {ρ : Type} (asked : StepRequests ρ) : Option (ToolCall ρ) :=
  if (asked.rounds.takeWhile fun calls => !calls.isEmpty).length ≤ 4 then asked.assist else none

def EpisodeEntry.isStart : EpisodeEntry → Bool
  | .start => true
  | .retry .. => false

/-- What an episode counts from: the number of the step before its first one,
`execution.currentStep`, and whether the run has had its assist. -/
structure Cursor where
  startStep : Nat
  currentStep : Nat
  assisted : Bool

/-- Where an entry puts the counters: only a retry takes up the cursor of a recovery. -/
def EpisodeEntry.cursor (currentStep : Nat) (assisted : Bool) : EpisodeEntry → Cursor
  | .start => ⟨0, currentStep, assisted⟩
  | .retry recovery hasModel heuristicToolUsed =>
    let current := if recovery.restored then recovery.cursor.getD 0 else currentStep
    { startStep := if hasModel then (recovery.cursor.or recovery.plan.cursor).getD current else 0
      currentStep := current
      assisted := if recovery.restored then heuristicToolUsed else assisted }

section Episodes

variable {ρ : Type} {maxSteps : Nat}

/-- `execution.currentStep` and the use of the assist, when the steps have been made. -/
def Cursor.after (maxSteps : Nat) (c : Cursor) (steps : List (StepRequests ρ)) : Nat × Bool :=
  (c.currentStep + min steps.length (maxSteps - c.startStep),
    c.assisted ||
      (steps.take (min 2 maxSteps - c.startStep)).any fun asked => asked.assistCall.isSome)

/-- An episode asks for a call under a number. The model's calls have the number of their step in
the loop; the assist, which comes once in a run and in one of the steps one and two, has the one of
`execution.currentStep`. -/
def Cursor.Asks (maxSteps : Nat) (c : Cursor) (steps : List (StepRequests ρ)) (number : Nat)
    (call : ToolCall ρ) : Prop :=
  ∃ p asked, steps[p]? = some asked ∧ c.startStep + p < maxSteps ∧
    (call ∈ asked.calls ∧ number = c.startStep + p + 1 ∨
      asked.assistCall = some call ∧ call.admitted = true ∧ c.startStep + p < 2 ∧
        c.assisted = false ∧ (steps.take p).all (fun earlier => earlier.assistCall.isNone) ∧
        number = c.currentStep + p + 1)

/-- `execution.currentStep` and the use of the assist, when the episodes have ended. -/
def countersAfter (maxSteps : Nat) (episodes : List (EpisodeRequests ρ)) : Nat × Bool :=
  episodes.foldl
    (fun counters e => (e.entry.cursor counters.1 counters.2).after maxSteps e.steps) (0, false)

def EpisodeRequests.cursor (maxSteps : Nat) (before : List (EpisodeRequests ρ))
    (e : EpisodeRequests ρ) : Cursor :=
  e.entry.cursor (countersAfter maxSteps before).1 (countersAfter maxSteps before).2

/-- Of two episodes with a start between them or with the later, no steps of one number ask for
the same tool with arguments of the same digest. -/
def NumbersApart (sha : Text → Text) (maxSteps : Nat) (episodes : List (EpisodeRequests ρ)) :
    Prop :=
  ∀ i j e e', i < j → episodes[i]? = some e → episodes[j]? = some e' →
    ((episodes.take (j + 1)).drop (i + 1)).any (fun m => m.entry.isStart) →
    ∀ number call call',
      (e.cursor maxSteps (episodes.take i)).Asks maxSteps e.steps number call →
      (e'.cursor maxSteps (episodes.take j)).Asks maxSteps e'.steps number call' →
      call.name = call'.name → hashParams sha call.arguments ≠ hashParams sha call'.arguments

theorem not_asks_nil {c : Cursor} {number : Nat} {call : ToolCall ρ} :
    ¬ c.Asks maxSteps [] number call := by
  rintro ⟨p, asked, hGet, -⟩
  cases hGet

theorem not_asks_of_full {c : Cursor} {steps : List (StepRequests ρ)} {number : Nat}
    {call : ToolCall ρ} (h : maxSteps ≤ c.startStep) : ¬ c.Asks maxSteps steps number call := by
  rintro ⟨p, asked, -, hBound, -⟩
  omega

def Cursor.next (c : Cursor) (asked : StepRequests ρ) : Cursor :=
  ⟨c.startStep + 1, c.currentStep + 1,
    c.assisted || (asked.assistCall.isSome && decide (c.startStep < 2))⟩

theorem asks_cons {c : Cursor} {asked : StepRequests ρ} {steps : List (StepRequests ρ)}
    {number : Nat} {call : ToolCall ρ} (h : c.startStep < maxSteps) :
    c.Asks maxSteps (asked :: steps) number call ↔
      call ∈ asked.calls ∧ number = c.startStep + 1 ∨
      (asked.assistCall = some call ∧ call.admitted = true ∧ c.startStep < 2 ∧
        c.assisted = false ∧ number = c.currentStep + 1) ∨
      (c.next asked).Asks maxSteps steps number call := by
  constructor
  · rintro ⟨p, b, hGet, hBound, hCall⟩
    cases p with
    | zero =>
      cases hGet
      obtain hCall | ⟨hAssist, hAdmitted, hEarly, hFirst, -, hNumber⟩ := hCall
      · exact .inl hCall
      · exact .inr (.inl ⟨hAssist, hAdmitted, hEarly, hFirst, hNumber⟩)
    | succ p =>
      refine .inr (.inr ⟨p, b, hGet, by simp only [Cursor.next]; omega, ?_⟩)
      obtain ⟨hIn, hNumber⟩ | ⟨hAssist, hAdmitted, hEarly, hFirst, hNone, hNumber⟩ := hCall
      · exact .inl ⟨hIn, by simp only [Cursor.next]; omega⟩
      · rw [List.take_succ_cons, List.all_cons, Bool.and_eq_true] at hNone
        refine .inr ⟨hAssist, hAdmitted, by simp only [Cursor.next]; omega, ?_, hNone.2,
          by simp only [Cursor.next]; omega⟩
        simp only [Cursor.next, hFirst, Bool.false_or, Bool.and_eq_false_iff]
        exact .inl (by rw [Option.isNone_iff_eq_none.mp hNone.1]; rfl)
  · rintro (⟨hIn, hNumber⟩ | ⟨hAssist, hAdmitted, hEarly, hFirst, hNumber⟩ |
      ⟨p, b, hGet, hBound, hCall⟩)
    · exact ⟨0, asked, rfl, h, .inl ⟨hIn, hNumber⟩⟩
    · exact ⟨0, asked, rfl, h, .inr ⟨hAssist, hAdmitted, hEarly, hFirst, rfl, hNumber⟩⟩
    · simp only [Cursor.next] at hBound hCall
      refine ⟨p + 1, b, hGet, by omega, ?_⟩
      obtain ⟨hIn, hNumber⟩ | ⟨hAssist, hAdmitted, hEarly, hFirst, hNone, hNumber⟩ := hCall
      · exact .inl ⟨hIn, by omega⟩
      · obtain ⟨hUnused, hStep⟩ := Bool.or_eq_false_iff.mp hFirst
        have hAbsent : asked.assistCall.isNone = true := by
          have hStart : c.startStep < 2 := by omega
          rw [decide_eq_true hStart, Bool.and_true] at hStep
          rw [Option.isNone_iff_eq_none]
          exact Option.isSome_eq_false_iff.mp hStep |> Option.isNone_iff_eq_none.mp
        refine .inr ⟨hAssist, hAdmitted, by omega, hUnused, ?_, by omega⟩
        rw [List.take_succ_cons, List.all_cons, hAbsent, hNone]
        rfl

theorem after_cons {c : Cursor} {asked : StepRequests ρ} {steps : List (StepRequests ρ)}
    (h : c.startStep < maxSteps) :
    c.after maxSteps (asked :: steps) = (c.next asked).after maxSteps steps := by
  unfold Cursor.after Cursor.next
  simp only [List.length_cons]
  refine Prod.ext (by simp only; omega) ?_
  by_cases hEarly : c.startStep < 2
  · have hTake : min 2 maxSteps - c.startStep = (min 2 maxSteps - (c.startStep + 1)) + 1 := by omega
    rw [hTake, List.take_succ_cons, List.any_cons, decide_eq_true hEarly, Bool.and_true,
      Bool.or_assoc]
  · have hNone : min 2 maxSteps - c.startStep = 0 := by omega
    have hNext : min 2 maxSteps - (c.startStep + 1) = 0 := by omega
    simp [hNone, hNext, hEarly]

theorem after_of_full {c : Cursor} {steps : List (StepRequests ρ)} (h : maxSteps ≤ c.startStep) :
    c.after maxSteps steps = (c.currentStep, c.assisted) := by
  unfold Cursor.after
  rw [Nat.sub_eq_zero_of_le h, Nat.sub_eq_zero_of_le ((Nat.min_le_right _ _).trans h)]
  simp

theorem after_nil {c : Cursor} :
    c.after maxSteps ([] : List (StepRequests ρ)) = (c.currentStep, c.assisted) := by
  simp [Cursor.after]

end Episodes

namespace RunCounters

variable {ρ : Type} {maxSteps : Nat}

theorem askAll_eq (s : RunCounters ρ) (step : Nat) (calls : List (ToolCall ρ)) :
    s.askAll step calls = { s with
      requests := s.requests ++ (calls.filter ToolCall.admitted).map fun call =>
        ⟨s.message, step, call⟩ } := by
  induction calls generalizing s with
  | nil => simp [askAll]
  | cons call calls ih =>
    change (s.ask step call).askAll step calls = _
    rw [ih, ask]
    cases hAdmitted : call.admitted with
    | true => simp [hAdmitted]
    | false => simp [hAdmitted]

theorem foldl_askAll_eq (s : RunCounters ρ) (step : Nat) (rounds : List (List (ToolCall ρ))) :
    rounds.foldl (fun s calls => s.askAll step (calls.take 3)) s = { s with
      requests := s.requests ++ (rounds.flatMap fun calls =>
        (calls.take 3).filter ToolCall.admitted).map fun call => ⟨s.message, step, call⟩ } := by
  induction rounds generalizing s with
  | nil => simp
  | cons calls rounds ih =>
    rw [List.foldl_cons, ih, askAll_eq]
    simp

structure At (s : RunCounters ρ) (c : Cursor) : Prop where
  currentStep : s.currentStep = c.currentStep
  assisted : s.heuristicToolUsed = c.assisted

theorem executeStep_eq (s : RunCounters ρ) (n : Nat) (asked : StepRequests ρ) :
    s.executeStep n asked =
      { message := s.message
        currentStep := s.currentStep + 1
        heuristicToolUsed := s.heuristicToolUsed || (asked.assistCall.isSome && decide (n ≤ 2))
        requests := s.requests ++ asked.calls.map (fun call => ⟨s.message, n, call⟩) ++
          ((asked.assistCall.filter fun call =>
            call.admitted && !s.heuristicToolUsed && decide (n ≤ 2)).map fun call =>
              ⟨s.message, s.currentStep + 1, call⟩).toList } := by
  unfold executeStep
  simp only [foldl_askAll_eq, StepRequests.calls, StepRequests.assistCall]
  cases asked.assist with
  | none => simp
  | some call =>
    by_cases hFew : (asked.rounds.takeWhile fun calls => !calls.isEmpty).length ≤ 4
    · cases hUsed : s.heuristicToolUsed with
      | true => simp
      | false =>
        by_cases hEarly : n ≤ 2
        · cases hAdmitted : call.admitted <;> simp [hFew, hEarly, hAdmitted, ask, Option.filter]
        · simp [hFew, hEarly]
    · simp [hFew]

theorem executeStep_spec {s : RunCounters ρ} {c : Cursor} (h : s.At c) (asked : StepRequests ρ) :
    (s.executeStep (c.startStep + 1) asked).message = s.message ∧
      (s.executeStep (c.startStep + 1) asked).At (c.next asked) ∧
      ∀ r, r ∈ (s.executeStep (c.startStep + 1) asked).requests ↔ r ∈ s.requests ∨
        r.message = s.message ∧ (r.call ∈ asked.calls ∧ r.step = c.startStep + 1 ∨
          asked.assistCall = some r.call ∧ r.call.admitted = true ∧ c.startStep < 2 ∧
            c.assisted = false ∧ r.step = c.currentStep + 1) := by
  obtain ⟨hStep, hAssisted⟩ := h
  have hEarly : c.startStep + 1 ≤ 2 ↔ c.startStep < 2 := Nat.succ_le_iff
  rw [executeStep_eq, hStep, hAssisted]
  refine ⟨rfl, ⟨rfl, by simp only [Cursor.next, hEarly]⟩, fun r => ?_⟩
  obtain ⟨message, number, call⟩ := r
  simp only [List.mem_append, List.mem_map, Option.mem_toList, Option.map_eq_some_iff,
    Option.filter_eq_some_iff, Request.mk.injEq, Bool.and_eq_true, Bool.not_eq_true',
    decide_eq_true_eq, hEarly]
  constructor
  · rintro ((hOld | ⟨_, hCall, rfl, rfl, rfl⟩) | ⟨_, ⟨hCall, ⟨hAdmitted, hFirst⟩, hFew⟩, rfl, rfl, rfl⟩)
    · exact .inl hOld
    · exact .inr ⟨rfl, .inl ⟨hCall, rfl⟩⟩
    · exact .inr ⟨rfl, .inr ⟨hCall, hAdmitted, hFew, hFirst, rfl⟩⟩
  · rintro (hOld | ⟨rfl, ⟨hCall, rfl⟩ | ⟨hCall, hAdmitted, hFew, hFirst, rfl⟩⟩)
    · exact .inl (.inl hOld)
    · exact .inl (.inr ⟨call, hCall, rfl, rfl, rfl⟩)
    · exact .inr ⟨call, ⟨hCall, ⟨hAdmitted, hFirst⟩, hFew⟩, rfl, rfl, rfl⟩

theorem executeSteps_spec (maxSteps : Nat) {s : RunCounters ρ} {c : Cursor} (h : s.At c)
    (steps : List (StepRequests ρ)) :
    (executeSteps maxSteps c.startStep s steps).message = s.message ∧
      ((executeSteps maxSteps c.startStep s steps).currentStep,
        (executeSteps maxSteps c.startStep s steps).heuristicToolUsed) = c.after maxSteps steps ∧
      ∀ r, r ∈ (executeSteps maxSteps c.startStep s steps).requests ↔
        r ∈ s.requests ∨ r.message = s.message ∧ c.Asks maxSteps steps r.step r.call := by
  induction steps generalizing s c with
  | nil =>
    refine ⟨rfl, ?_, fun r => ?_⟩
    · rw [after_nil, ← h.currentStep, ← h.assisted]
      rfl
    · simp [executeSteps, not_asks_nil]
  | cons asked steps ih =>
    unfold executeSteps
    split
    · rename_i hRoom
      obtain ⟨hMessage, hNext, hMade⟩ := executeStep_spec h asked
      obtain ⟨hLast, hAfter, hRest⟩ := ih hNext
      refine ⟨hLast.trans hMessage, hAfter.trans (after_cons hRoom).symm, fun r => ?_⟩
      change r ∈ (executeSteps maxSteps (c.next asked).startStep _ steps).requests ↔ _
      rw [asks_cons hRoom, hRest r, hMade, hMessage]
      tauto
    · rename_i hFull
      refine ⟨rfl, ?_, fun r => ?_⟩
      · rw [after_of_full (Nat.le_of_not_lt hFull), ← h.currentStep, ← h.assisted]
      · simp [not_asks_of_full (Nat.le_of_not_lt hFull)]

theorem episode_spec (maxSteps : Nat) (s : RunCounters ρ) (e : EpisodeRequests ρ) :
    let c := e.entry.cursor s.currentStep s.heuristicToolUsed
    (s.episode maxSteps e).message = s.message + e.entry.isStart.toNat ∧
      ((s.episode maxSteps e).currentStep, (s.episode maxSteps e).heuristicToolUsed) =
        c.after maxSteps e.steps ∧
      ∀ r, r ∈ (s.episode maxSteps e).requests ↔ r ∈ s.requests ∨
        r.message = s.message + e.entry.isStart.toNat ∧ c.Asks maxSteps e.steps r.step r.call := by
  obtain ⟨entry, steps⟩ := e
  intro c
  obtain ⟨hEntered, hAt, hMessage, hRequests⟩ : (s.enter entry).1 = c.startStep ∧
      (s.enter entry).2.At c ∧ (s.enter entry).2.message = s.message + entry.isStart.toNat ∧
        (s.enter entry).2.requests = s.requests := by
    cases entry with
    | start => exact ⟨rfl, ⟨rfl, rfl⟩, rfl, rfl⟩
    | retry recovery hasModel used =>
      obtain ⟨plan, checkpoint, restored, record, cursor⟩ := recovery
      cases restored with
      | false => exact ⟨rfl, ⟨rfl, rfl⟩, rfl, rfl⟩
      | true => exact ⟨rfl, ⟨rfl, rfl⟩, rfl, rfl⟩
  obtain ⟨hLast, hAfter, hMade⟩ := executeSteps_spec maxSteps hAt steps
  rw [← hEntered] at hLast hAfter hMade
  refine ⟨hLast.trans hMessage, hAfter, fun r => ?_⟩
  rw [← hRequests, ← hMessage]
  exact hMade r

end RunCounters

section Runs

open RunCounters

variable {ρ : Type} {maxSteps : Nat}

/-- The user message that an episode works for: a start and a continuation bring one. -/
def messageOf (episodes : List (EpisodeRequests ρ)) : Nat :=
  episodes.countP fun e => e.entry.isStart

theorem messageOf_eq_iff (episodes : List (EpisodeRequests ρ)) {i j : Nat} (hij : i < j) :
    messageOf (episodes.take (i + 1)) = messageOf (episodes.take (j + 1)) ↔
      ((episodes.take (j + 1)).drop (i + 1)).any (fun m => m.entry.isStart) = false := by
  have hTake : (episodes.take (j + 1)).take (i + 1) = episodes.take (i + 1) := by
    rw [List.take_take, Nat.min_eq_left (by omega)]
  have hSplit : messageOf (episodes.take (j + 1)) = messageOf (episodes.take (i + 1)) +
      messageOf ((episodes.take (j + 1)).drop (i + 1)) := by
    rw [← hTake, messageOf, messageOf, messageOf, ← List.countP_append, List.take_append_drop]
  rw [hSplit, left_eq_add, messageOf, List.countP_eq_zero, List.any_eq_false]

theorem run_spec (maxSteps : Nat) (episodes : List (EpisodeRequests ρ)) :
    let s := episodes.foldl (fun s e => s.episode maxSteps e) (fresh : RunCounters ρ)
    s.message = messageOf episodes ∧
      (s.currentStep, s.heuristicToolUsed) = countersAfter maxSteps episodes ∧
      ∀ r, r ∈ s.requests ↔ ∃ i e, episodes[i]? = some e ∧
        r.message = messageOf (episodes.take (i + 1)) ∧
        (e.cursor maxSteps (episodes.take i)).Asks maxSteps e.steps r.step r.call := by
  induction episodes using List.reverseRecOn with
  | nil => exact ⟨rfl, rfl, fun r => by simp [fresh]⟩
  | append_singleton episodes e ih =>
    obtain ⟨hMessage, hCounters, hMade⟩ := ih
    rw [List.foldl_append]
    have hCurrent := congrArg Prod.fst hCounters
    have hAssisted := congrArg Prod.snd hCounters
    obtain ⟨hLast, hAfter, hAsked⟩ := episode_spec maxSteps
      (episodes.foldl (fun s e => s.episode maxSteps e) fresh) e
    rw [hMessage] at hLast hAsked
    simp only at hCurrent hAssisted
    rw [hCurrent, hAssisted] at hAfter hAsked
    have hNumber : messageOf (episodes ++ [e]) = messageOf episodes + e.entry.isStart.toNat := by
      rw [messageOf, List.countP_append, List.countP_singleton]
      cases e.entry.isStart <;> rfl
    refine ⟨hLast.trans hNumber.symm, ?_, fun r => ?_⟩
    · rw [countersAfter, List.foldl_append]
      exact hAfter
    · refine (hAsked r).trans ?_
      rw [hMade]
      constructor
      · rintro (⟨i, e', hGet, hOld, hAsks⟩ | ⟨hNew, hAsks⟩)
        · have hi : i < episodes.length := (List.getElem?_eq_some_iff.mp hGet).1
          refine ⟨i, e', (List.getElem?_append_left hi).trans hGet, ?_⟩
          rw [List.take_append_of_le_length hi, List.take_append_of_le_length hi.le]
          exact ⟨hOld, hAsks⟩
        · refine ⟨episodes.length, e, List.getElem?_concat_length, ?_⟩
          rw [List.take_left, List.take_of_length_le (by simp), hNumber]
          exact ⟨hNew, hAsks⟩
      · rintro ⟨i, e', hGet, hNew, hAsks⟩
        obtain hi | hi := Nat.lt_or_ge i episodes.length
        · rw [List.getElem?_append_left hi] at hGet
          rw [List.take_append_of_le_length hi] at hNew
          rw [List.take_append_of_le_length hi.le] at hAsks
          exact .inl ⟨i, e', hGet, hNew, hAsks⟩
        · obtain ⟨hLength, -⟩ := List.getElem?_eq_some_iff.mp hGet
          obtain rfl : i = episodes.length := by
            rw [List.length_append, List.length_singleton] at hLength
            omega
          rw [List.getElem?_concat_length, Option.some.injEq] at hGet
          subst hGet
          rw [List.take_of_length_le (by simp), hNumber] at hNew
          rw [List.take_left] at hAsks
          exact .inr ⟨hNew, hAsks⟩

end Runs

end OrchestraAI.Execution
