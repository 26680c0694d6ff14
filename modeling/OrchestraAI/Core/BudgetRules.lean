import OrchestraAI.Core.EpisodeLog
import OrchestraAI.Core.EpisodeRuns
import OrchestraAI.Core.HistoryRules
import OrchestraAI.Core.LoopErrors
import OrchestraAI.Library.NotedProgram

/-! # Where the loop speaks of the budget

Which parts of the agent loop report the budget, in which states, and what an error that blames
the budget comes from. The budget is reported when a limit or the critical share is found to be
reached, and the warning follows its evaluation after whatever the triggers have done.
-/

namespace OrchestraAI.Core

open AsyncProgram

/-- The spend is at or above the warning threshold and has not reached the limit. -/
def Band (c : Settings) (b : Budget) : Prop :=
  b.maximumCost * c.budgetWarningThreshold ≤ b.currentSpend ∧ b.currentSpend < b.maximumCost

instance (c : Settings) (b : Budget) : Decidable (Band c b) := inferInstanceAs (Decidable (_ ∧ _))

/-- `isCritical` of `evaluateBudget`. -/
def Budget.isCritical (c : Settings) (b : Budget) : Bool :=
  c.budgetCriticalThreshold ≤ if 0 < b.maximumCost then b.currentSpend / b.maximumCost else 0

def RunError.blamesBudget (e : RunError) : Bool :=
  e.code = some "budget_exceeded" || e.code = some "budget_constraint"

def EventType.warns : EventType → Bool
  | .budgetWarning => true
  | _ => false

def Wait.reports : (t : Wait) → t.Ans → List EventType
  | .verified, types => types
  | _, _ => []

structure Warnings where
  /-- The last evaluation has found the budget near its limit, and no warning has followed. -/
  pending : Bool
  /-- The budgets that were warned of. -/
  warned : List Budget

def warnings (c : Settings) : Notes Episode Op Wait Wait.Ans Warnings where
  applied o s g :=
    match o with
    | .evaluate => { g with pending := Loop.budgetWarns c s.view }
    | .emit .budgetWarning => ⟨false, g.warned ++ [s.budget]⟩
    | _ => g
  heard _ _ g := g

def Pressed (c : Settings) (b : Budget) : Prop :=
  b.isBudgetExceeded = true ∨ b.isLatencyExceeded = true ∨ b.isCritical c = true

/-- An error that blames the budget comes in a state in which a limit has been reached. -/
def Excused (r : Except LoopError α) (s : Episode) : Prop :=
  ∀ e, r = .error e → e.blamesBudget = true →
    s.budget.isBudgetExceeded = true ∨ s.budget.isLatencyExceeded = true

/-- What the loop may assume: a pending warning is due, and an answer blames the budget in a state
only in which it is spent. -/
def budgeting (c : Settings) : Contract (Episode × Warnings) Op Wait Wait.Ans where
  safe o x :=
    match o with
    | .reportBudgetExceeded => Pressed c x.1.budget
    | .emit .budgetWarning => Band c x.1.budget
    | .failRun e => e.blamesBudget = true →
        x.1.budget.isBudgetExceeded = true ∨ x.1.budget.isLatencyExceeded = true
    | _ => True
  allowed _ x := x.2.pending = true → Band c x.1.budget
  rely t x a x' := x'.1.budget = x.1.budget ∧ x'.2 = x.2 ∧
    (∀ e, t.failure a = some e → e.blamesBudget = true → x.1.budget.isBudgetExceeded = true) ∧
      ∀ type ∈ t.reports a, type.warns = false

def Op.mum : Op → Prop
  | .evaluate | .reportBudgetExceeded | .failRun _ => False
  | .emit type => type.warns = false
  | _ => True

theorem notes_of_mum {c : Settings} {o : Op} (h : o.mum) (s : Episode) (g : Warnings) :
    (warnings c).applied o s g = g := by
  cases o with
  | evaluate => exact h.elim
  | emit type =>
    cases type with
    | budgetWarning => cases h
    | _ => rfl
  | _ => rfl

theorem safe_of_mum {c : Settings} {o : Op} (h : o.mum) (x : Episode × Warnings) :
    (budgeting c).safe o x := by
  cases o with
  | reportBudgetExceeded => exact h.elim
  | failRun e => exact h.elim
  | emit type =>
    cases type with
    | budgetWarning => cases h
    | _ => trivial
  | _ => trivial

theorem kept_budget : Kept Run.budget :=
  ⟨fun _ _ _ => rfl, fun _ _ => rfl, fun _ => rfl, fun _ => rfl, fun _ => rfl⟩

theorem budget_exec {o : Op} (h : o.free) (s : Episode) : (exec o s).2.budget = s.budget :=
  kept_budget.exec h s

theorem budget_outside {i : Outside} {stands : Option Wait} {s t : Episode}
    (h : outside i stands s = some t) : t.budget = s.budget := by
  exact (kept_budget.outside h).elim id id

namespace Loop

open Prog

variable {α β : Type} {c : Settings} {x : Episode × Warnings}

/-- `p` keeps to the contract and comes to `Q`. -/
abbrev Speaks (c : Settings) (p : Loop α) (x : Episode × Warnings)
    (Q : Except LoopError α → Episode × Warnings → Prop) : Prop :=
  Meets (budgeting c) ((warnings c).apply exec) p x Q

/-- What is left by a part that does not speak of the budget, and that charges nothing if it comes
to a result with `b`. -/
def Leaves (b : α → Prop) (x : Episode × Warnings) (r : Except LoopError α)
    (y : Episode × Warnings) : Prop :=
  y.2 = x.2 ∧ Excused r y.1 ∧ ∀ a, r = .ok a → b a → y.1.budget = x.1.budget

abbrev Spares (c : Settings) (p : Loop α) (b : α → Prop) : Prop :=
  ∀ x, Speaks c p x (Leaves b x)

abbrev Mum (c : Settings) (p : Loop α) : Prop := Spares c p fun _ => False

abbrev Free (c : Settings) (p : Loop α) : Prop := Spares c p fun _ => True

variable {b : α → Prop} {b' : β → Prop}

theorem excused_ok {a : α} {s : Episode} : Excused (.ok a) s := by
  intro e h
  cases h

theorem Spares.mum {p : Loop α} (h : Spares c p b) : Mum c p :=
  fun x => (h x).mono fun _ _ hr => ⟨hr.1, hr.2.1, fun _ _ hNot => hNot.elim⟩

theorem free_pure (a : α) : Spares c (pure a) b := fun _ => ⟨rfl, excused_ok, fun _ _ _ => rfl⟩

theorem free_throw {e : LoopError} (h : e.blamesBudget = false) :
    Spares c (.throw e : Loop α) b := by
  refine fun x => ⟨rfl, fun e' hSame hBlames => ?_, fun a hSame => ?_⟩
  · cases hSame
    rw [h] at hBlames
    cases hBlames
  · cases hSame

theorem Spares.bind {p : Loop α} {f : α → Loop β} (h : Free c p) (hf : ∀ a, Spares c (f a) b') :
    Spares c (p >>= f) b' := by
  refine fun x => .bind ((h x).mono fun r y hr => ?_)
  obtain ⟨hNotes, hExcused, hBudget⟩ := hr
  cases r with
  | error e =>
    refine ⟨hNotes, fun e' hSame => ?_, fun a hSame => ?_⟩
    · cases hSame
      exact hExcused e rfl
    · cases hSame
  | ok a =>
    refine (hf a y).mono fun r z hr => ?_
    obtain ⟨hNotes', hExcused', hBudget'⟩ := hr
    exact ⟨hNotes'.trans hNotes, hExcused', fun b hSame hb =>
      (hBudget' b hSame hb).trans (hBudget a rfl trivial)⟩

theorem Mum.bind {p : Loop α} {f : α → Loop β} (h : Mum c p) (hf : ∀ a, Mum c (f a)) :
    Mum c (p >>= f) := by
  refine fun x => .bind ((h x).mono fun r y hr => ?_)
  obtain ⟨hNotes, hExcused, -⟩ := hr
  cases r with
  | error e =>
    refine ⟨hNotes, fun e' hSame => ?_, fun a hSame => ?_⟩
    · cases hSame
      exact hExcused e rfl
    · cases hSame
  | ok a =>
    exact (hf a y).mono fun r z hr => ⟨hr.1.trans hNotes, hr.2.1, fun _ _ hNot => hNot.elim⟩

theorem spares_op {o : Op} {k : o.Res → Loop α} (h : o.mum) (hFree : o.free)
    (hk : ∀ r, Spares c (k r) b) : Spares c (.op o k) b := by
  refine fun x _ => ⟨safe_of_mum h x, ?_⟩
  refine (hk _ _).mono fun r y hr => ?_
  obtain ⟨hNotes, hExcused, hBudget⟩ := hr
  exact ⟨hNotes.trans (notes_of_mum h x.1 x.2), hExcused, fun a hSame ha =>
    (hBudget a hSame ha).trans (budget_exec hFree x.1)⟩

theorem mum_op {o : Op} {k : o.Res → Loop α} (h : o.mum) (hk : ∀ r, Mum c (k r)) :
    Mum c (.op o k) := by
  refine fun x _ => ⟨safe_of_mum h x, ?_⟩
  refine (hk _ _).mono fun r y hr => ?_
  exact ⟨hr.1.trans (notes_of_mum h x.1 x.2), hr.2.1, fun _ _ hNot => hNot.elim⟩

theorem free_look {f : View → Loop α} (h : ∀ v, Spares c (f v) b) : Spares c (look >>= f) b :=
  spares_op trivial trivial h

theorem free_emit {type : EventType} (h : type.warns = false) : Free c (emit type) :=
  spares_op h trivial fun _ => free_pure ()

theorem free_update {f : LoopData → LoopData} : Free c (update f) :=
  spares_op trivial trivial fun _ => free_pure ()

theorem free_call {what : Call} : Free c (Loop.call what) :=
  spares_op trivial trivial fun _ => free_pure ()

theorem mum_addCost {amount : ℚ} : Mum c (addCost amount) :=
  mum_op trivial fun _ => free_pure ()

theorem free_ask {t : Wait} {f : t.Ans → Except LoopError α} {k : α → Loop β}
    (hf : ∀ a, t.failure a = errorOf (f a)) (hk : ∀ a, Spares c (k a) b') :
    Spares c (wait t >>= fun a => ofExcept (f a) >>= k) b' := by
  rintro x a y ⟨hBudget, hNotes, hFails, -⟩
  change Speaks c (ofExcept (f a) >>= k) y _
  have hFailure := hf a
  cases hAnswer : f a with
  | error e =>
    rw [hAnswer] at hFailure
    refine ⟨hNotes, fun e' hSame hBlames => ?_, fun b hSame => ?_⟩
    · cases hSame
      rw [hBudget]
      exact .inl (hFails e hFailure hBlames)
    · cases hSame
  | ok a =>
    refine (hk a y).mono fun r z hr => ?_
    obtain ⟨hNotes', hExcused, hBudget'⟩ := hr
    exact ⟨hNotes'.trans hNotes, hExcused, fun b hSame hb => (hBudget' b hSame hb).trans hBudget⟩

theorem free_asked {t : Wait} {f : t.Ans → Except LoopError α}
    (hf : ∀ a, t.failure a = errorOf (f a)) :
    Free c (wait t >>= fun a => ofExcept (f a) : Loop α) := by
  rintro x a y ⟨hBudget, hNotes, hFails, -⟩
  change Speaks c (ofExcept (f a)) y _
  have hFailure := hf a
  cases hAnswer : f a with
  | error e =>
    rw [hAnswer] at hFailure
    refine ⟨hNotes, fun e' hSame hBlames => ?_, fun b hSame => ?_⟩
    · cases hSame
      rw [hBudget]
      exact .inl (hFails e hFailure hBlames)
    · cases hSame
  | ok a => exact ⟨hNotes, excused_ok, fun _ _ _ => hBudget⟩

theorem free_wait {t : Wait} {k : t.Ans → Loop α}
    (hk : ∀ a, (∀ type ∈ t.reports a, type.warns = false) → Spares c (k a) b) :
    Spares c (wait t >>= k) b := by
  rintro x a y ⟨hBudget, hNotes, -, hReports⟩
  refine (hk a hReports y).mono fun r z hr => ?_
  obtain ⟨hNotes', hExcused, hBudget'⟩ := hr
  exact ⟨hNotes'.trans hNotes, hExcused, fun b hSame hb => (hBudget' b hSame hb).trans hBudget⟩

theorem free_waited {t : Wait} : Free c (wait t) := free_wait fun a _ => free_pure a

theorem free_emitAll (types : List EventType) (h : ∀ type ∈ types, type.warns = false) :
    Free c (emitAll types) := by
  induction types with
  | nil => exact free_pure ()
  | cons type types ih =>
    exact .bind (free_emit (h type List.mem_cons_self)) fun _ =>
      ih fun type' h' => h type' (List.mem_cons_of_mem type h')

theorem spares_ite {d : Prop} [Decidable d] {p q : Loop α} (hp : Spares c p b)
    (hq : Spares c q b) : Spares c (if d then p else q) b := by
  split
  · exact hp
  · exact hq

theorem spares_when {d : Bool} {p : Loop Unit} (h : Free c p) : Free c (when d p) := by
  cases d
  · exact free_pure ()
  · exact h

theorem mum_when {d : Bool} {p : Loop Unit} (h : Mum c p) : Mum c (when d p) := by
  cases d
  · exact free_pure ()
  · exact h

theorem mum_attempt {p : Loop α} (h : Mum c p) : Mum c (attempt p) := by
  refine fun x => .tryCatch (.bind ((h x).mono fun r y hr => ?_))
  cases r with
  | error e => exact ⟨hr.1, excused_ok, fun _ _ hNot => hNot.elim⟩
  | ok a => exact ⟨hr.1, excused_ok, fun _ _ hNot => hNot.elim⟩

theorem free_emits {α : Type} (list : List α) {type : EventType} (h : type.warns = false) :
    Free c (emitAll (list.map fun _ => type)) := by
  refine free_emitAll _ fun type' h' => ?_
  obtain ⟨a, -, rfl⟩ := List.mem_map.mp h'
  exact h

theorem addContext_free (tokens : List Nat) : Free c (addContext tokens) :=
  .bind free_update fun _ => .bind (free_emits _ rfl) fun _ => free_look fun _ =>
    .bind (spares_when (free_emit rfl)) fun _ => free_asked fun _ => rfl

theorem searchMemory_free : Free c searchMemory :=
  .bind (free_emit rfl) fun _ => free_wait fun _ _ => .bind (free_emit rfl) fun _ =>
    free_asked fun _ => rfl

theorem compressContext_free (target : Nat) : Free c (compressContext target) :=
  free_ask (fun _ => rfl) fun _ => .bind free_update fun _ => .bind (free_emits _ rfl) fun _ =>
    free_pure _

theorem buildContext_mum : Mum c (buildContext c) :=
  .bind (free_emit rfl).mum fun _ => free_ask (fun _ => rfl) fun _ =>
    Mum.bind (addContext_free _).mum fun _ =>
      Mum.bind (mum_when (.bind searchMemory_free.mum fun _ => mum_when (addContext_free _).mum))
        fun _ => (free_emit rfl).mum

theorem recallMemory_mum : Mum c (recallMemory c) :=
  mum_when (.bind (mum_attempt searchMemory_free.mum) fun _ => free_pure ())

theorem selectModel_mum : Mum c (selectModel c) :=
  free_ask (fun _ => rfl) fun _ => spares_ite (free_throw rfl) <|
    Mum.bind (mum_attempt (Mum.bind recallMemory_mum fun _ => (free_asked fun _ => rfl).mum))
      fun _ => Mum.bind free_update.mum fun _ => free_ask (fun _ => rfl) fun _ =>
        Mum.bind free_update.mum fun _ => Mum.bind (free_emit rfl).mum fun _ => (free_emit rfl).mum

theorem definitionOf_free (id : ModelId) (candidates : List ModelDef) :
    Free c (definitionOf id candidates) := by
  rw [definitionOf]
  split
  · exact free_pure _
  · exact free_asked fun _ => rfl

/-- A part that does not speak of the budget and does not come to `false`. -/
def Agrees (c : Settings) (p : Loop Bool) : Prop :=
  ∀ x, Speaks c p x fun r y => y.2 = x.2 ∧ Excused r y.1 ∧ r ≠ .ok false

theorem Agrees.spares {p : Loop Bool} (h : Agrees c p) : Spares c p (· = false) :=
  fun x => (h x).mono fun _ _ hr => ⟨hr.1, hr.2.1, fun _ hSame hFalse =>
    absurd (hFalse ▸ hSame) hr.2.2⟩

theorem agrees_true : Agrees c (pure true) := fun _ => ⟨rfl, excused_ok, fun h => by cases h⟩

theorem Agrees.bind {p : Loop α} {f : α → Loop Bool} (h : Mum c p) (hf : ∀ a, Agrees c (f a)) :
    Agrees c (p >>= f) := by
  refine fun x => Meets.bind ((h x).mono fun r y hr => ?_)
  cases r with
  | error e =>
    refine ⟨hr.1, fun e' hSame => ?_, fun hSame => ?_⟩
    · cases hSame
      exact hr.2.1 e rfl
    · cases hSame
  | ok a => exact (hf a y).mono fun r z hz => ⟨hz.1.trans hr.1, hz.2⟩

theorem agrees_ask {t : Wait} {f : t.Ans → Except LoopError α} {k : α → Loop Bool}
    (hf : ∀ a, t.failure a = errorOf (f a)) (hk : ∀ a, Agrees c (k a)) :
    Agrees c (wait t >>= fun a => ofExcept (f a) >>= k) := by
  have hAsked : Agrees c ((wait t >>= fun a => ofExcept (f a)) >>= k) :=
    .bind (free_asked hf).mum hk
  exact hAsked

theorem applyModelSwitch_spares (toModel : ModelId) (candidates : List ModelDef) (routing : Routing)
    (force : Bool) :
    Spares c (applyModelSwitch toModel candidates routing force) (· = false) :=
  .bind (definitionOf_free _ _) fun _ => spares_ite (.bind (free_emit rfl) fun _ => free_pure _) <|
    Agrees.spares <| agrees_ask (fun _ => rfl) fun _ => .bind (mum_when (free_emit rfl).mum) fun _ =>
      .bind mum_addCost fun _ => .bind free_update.mum fun _ => .bind (free_emit rfl).mum fun _ =>
        .bind (free_emit rfl).mum fun _ => agrees_true

theorem failover_spares (exclude : List ModelId) : Spares c (failover c exclude) (· = false) :=
  free_look fun _ => free_ask (fun _ => rfl) fun _ => spares_ite (free_pure _) <|
    free_ask (fun _ => rfl) fun _ => Agrees.spares <|
      .bind (applyModelSwitch_spares _ _ _ _).mum fun _ => agrees_true

theorem failoverLargerContext_spares : Spares c (failoverLargerContext c) (· = false) :=
  free_look fun _ => free_ask (fun _ => rfl) fun _ => free_ask (fun _ => rfl) fun _ =>
    free_look fun _ => spares_ite (free_pure _) <|
      free_ask (fun _ => rfl) fun _ => applyModelSwitch_spares _ _ _ _

theorem speaks_report {k : Unit → Loop α} (h : Pressed c x.1.budget) (hk : Spares c (k ()) b) :
    Speaks c (Prog.op .reportBudgetExceeded Prog.done >>= k) x (Leaves b x) :=
  fun _ => ⟨h, hk _⟩

theorem handleBudgetExceeded_speaks (h : Pressed c x.1.budget) :
    Speaks c (handleBudgetExceeded c) x (Leaves (· = false) x) :=
  speaks_report h <| free_ask (fun _ => rfl) fun _ => free_look fun _ =>
    free_ask (fun _ => rfl) fun _ => free_look fun _ => spares_ite (free_pure _) <|
      free_ask (fun _ => rfl) fun _ => applyModelSwitch_spares _ _ _ _

theorem speaks_look {f : View → Loop β} {Q : Except LoopError β → Episode × Warnings → Prop}
    (h : Speaks c (f x.1.view) x Q) : Speaks c (look >>= f) x Q :=
  fun _ => ⟨trivial, h⟩

theorem leaves_throw {e : LoopError} {y : Episode × Warnings} (hNotes : y.2 = x.2)
    (h : e.blamesBudget = true →
      y.1.budget.isBudgetExceeded = true ∨ y.1.budget.isLatencyExceeded = true) :
    Speaks c (.throw e : Loop α) y (Leaves b x) := by
  refine ⟨hNotes, fun e' hSame => ?_, fun a hSame => ?_⟩
  · cases hSame
    exact h
  · cases hSame

theorem leaves_error {e : LoopError} {y : Episode × Warnings}
    (h : Leaves b x (.error e : Except LoopError α) y) :
    Leaves b' x (.error e : Except LoopError β) y := by
  refine ⟨h.1, fun e' hSame => ?_, fun a hSame => ?_⟩
  · cases hSame
    exact h.2.1 e rfl
  · cases hSame

theorem speaks_after {p : Loop α} {y : Episode × Warnings} (hNotes : y.2 = x.2)
    (h : Speaks c p y (Leaves (fun _ => False) y)) : Speaks c p y (Leaves (fun _ => False) x) :=
  h.mono fun _ _ hr => ⟨hr.1.trans hNotes, hr.2.1, fun _ _ hNot => hNot.elim⟩

theorem mum_after {p : Loop α} {y : Episode × Warnings} (h : Mum c p) (hNotes : y.2 = x.2) :
    Speaks c p y (Leaves (fun _ => False) x) :=
  speaks_after hNotes (h y)

theorem buildPrompt_mum : Mum c (buildPrompt c) :=
  Mum.bind recallMemory_mum fun _ => free_look fun _ => (free_asked fun _ => rfl).mum

theorem fitPrompt_mum (modelId : ModelId) (definition : ModelDef) (promptTokens : Nat) :
    Mum c (fitPrompt c modelId definition promptTokens) :=
  free_look fun _ => spares_ite
    (Mum.bind (mum_attempt (compressContext_free _).mum) fun _ => Mum.bind buildPrompt_mum fun _ =>
      spares_ite (free_throw rfl) (Mum.bind (mum_when (free_emit rfl).mum) fun _ => free_pure _))
    (free_pure _)

theorem resolveModel_free (modelId : Option ModelId) : Free c (resolveModel modelId) := by
  refine free_look fun v => ?_
  cases v.data.providerModel with
  | some m => exact free_pure m
  | none =>
    refine free_ask (fun _ => rfl) fun found => ?_
    cases found with
    | some m => exact free_pure m
    | none => exact free_throw rfl

theorem guardBudget_mum (modelId : Option ModelId) (definition : ModelDef) (promptTokens : Nat) :
    Mum c (guardBudget c modelId definition promptTokens) := by
  refine fun x => speaks_look ?_
  split
  · rename_i hReached
    have hReached : x.1.budget.isBudgetExceeded = true ∨ x.1.budget.isLatencyExceeded = true :=
      Bool.or_eq_true _ _ ▸ hReached
    refine .bind ((handleBudgetExceeded_speaks (hReached.imp_right .inl)).mono fun r y hr => ?_)
    cases r with
    | error e => exact leaves_error hr
    | ok switched =>
      obtain ⟨hNotes, -, hBudget⟩ := hr
      cases switched with
      | false => exact leaves_throw hNotes fun _ => by rw [hBudget false rfl rfl]; exact hReached
      | true =>
        exact mum_after (free_look fun _ => Mum.bind (resolveModel_free _).mum fun _ =>
          spares_ite (free_throw rfl) (free_pure _)) hNotes
  · exact free_pure _ x

theorem replay_free (step : Nat) (modelId : Option ModelId) (definition : ModelDef)
    (cacheType : String) (answer : ModelResult) :
    Free c (replay step modelId definition cacheType answer) :=
  .bind free_update fun _ => .bind (free_emit rfl) fun _ => free_pure _

theorem chargeAll_mum (amounts : List ℚ) : Mum c (chargeAll amounts) := by
  induction amounts with
  | nil => exact free_pure ()
  | cons amount amounts ih => exact Mum.bind mum_addCost fun _ => ih

theorem cacheEvent_warns (cached : Prop) [Decidable cached] :
    (if cached then EventType.cacheHit else .cacheMiss).warns = false := by
  split
  · rfl
  · rfl

theorem account_mum (step : Nat) (modelId : Option ModelId) (definition : ModelDef)
    (promptTokens : Nat) (answer : Completion) (quote : Quote) :
    Mum c (account step modelId definition promptTokens answer quote) :=
  Mum.bind free_update.mum fun _ => Mum.bind (chargeAll_mum _) fun _ =>
    Mum.bind (mum_op trivial fun _ => free_pure _) fun _ => Mum.bind (free_emit rfl).mum fun _ =>
      Mum.bind (free_emit (cacheEvent_warns _)).mum fun _ => (free_emit rfl).mum

theorem cached_mum (step : Nat) (modelId : Option ModelId) (definition : ModelDef) :
    Mum c (cached c step modelId definition) := by
  refine spares_ite (free_ask (fun _ => rfl) fun found => ?_) (free_pure _)
  cases found with
  | none => exact free_pure _
  | some answer =>
    exact spares_ite (free_pure _) <| Mum.bind (replay_free _ _ _ _ _).mum fun _ =>
      Mum.bind mum_addCost fun _ => Mum.bind (free_emit rfl).mum fun _ => free_pure _

theorem reuse_mum (step : Nat) (continuation : Bool) (modelId : Option ModelId)
    (definition : ModelDef) : Mum c (reuse c step continuation modelId definition) := by
  refine spares_ite (free_wait fun found _ => ?_) (free_pure _)
  cases found with
  | none => exact free_pure _
  | some hit =>
    exact spares_ite (Mum.bind (replay_free _ _ _ _ _).mum fun _ => free_pure _)
      (Mum.bind (free_emit rfl).mum fun _ => free_pure _)

theorem readStream_mum (model : Option ModelId) (history : List Turn) (n : Nat)
    (final : Option Completion) : Mum c (readStream model history n final) := by
  induction n generalizing final with
  | zero => exact free_pure _
  | succ n ih =>
    exact free_ask (fun _ => rfl) fun _ => Mum.bind (mum_when (free_emit rfl).mum) fun _ => ih _

theorem callProvider_mum (model : Option ModelId) (history : List Turn) :
    Mum c (callProvider c model history) :=
  spares_ite
    (free_wait fun _ _ => Mum.bind (readStream_mum _ _ _ _) fun _ => free_pure _)
    (free_ask (fun _ => rfl) fun _ => Mum.bind (mum_when (free_emit rfl).mum) fun _ => free_pure _)

theorem request_mum (step : Nat) (continuation : Bool) (modelId : Option ModelId)
    (definition : ModelDef) (promptTokens : Nat) :
    Mum c (request c step continuation modelId definition promptTokens) :=
  free_look fun _ => Mum.bind free_call.mum fun _ => Mum.bind (callProvider_mum _ _) fun _ =>
    Mum.bind (account_mum _ _ _ _ _ _) fun _ =>
      Mum.bind (mum_when (free_asked fun _ => rfl).mum) fun _ =>
        Mum.bind (mum_when free_waited.mum) fun _ => free_pure _

theorem answerCall_mum (step : Nat) (continuation : Bool) (modelId : Option ModelId)
    (definition : ModelDef) (promptTokens : Nat) :
    Mum c (answerCall c step continuation modelId definition promptTokens) := by
  refine Mum.bind (cached_mum _ _ _) fun found => ?_
  cases found with
  | some result => exact free_pure _
  | none =>
    refine spares_ite (free_throw rfl) (Mum.bind (reuse_mum _ _ _ _) fun hit => ?_)
    cases hit with
    | some result => exact free_pure _
    | none => exact request_mum _ _ _ _ _

theorem callModel_mum (step : Nat) (continuation : Bool) : Mum c (callModel c step continuation) :=
  free_look fun _ => spares_ite (free_throw rfl) <| Mum.bind (resolveModel_free _).mum fun _ =>
    spares_ite (free_throw rfl) <| Mum.bind buildPrompt_mum fun _ =>
      Mum.bind (fitPrompt_mum _ _ _) fun _ => Mum.bind (guardBudget_mum _ _ _) fun _ =>
        Mum.bind free_update.mum fun _ => answerCall_mum _ _ _ _ _

theorem run_mum (call : ToolRequest) : Mum c (run call) := by
  refine free_wait fun admission _ => ?_
  cases admission with
  | refused result => exact free_pure _
  | needsApproval result =>
    refine Mum.bind (free_emitAll _ fun type h => ?_).mum fun _ => free_pure _
    obtain rfl | h := List.mem_cons.mp h
    · rfl
    · exact List.mem_singleton.mp h ▸ rfl
  | stored result => exact Mum.bind (free_emit rfl).mum fun _ => free_pure _
  | cleared hasHandler =>
    refine free_look fun _ => spares_ite (free_pure _) <| spares_ite (free_pure _) <|
      Mum.bind (free_emit rfl).mum fun _ => Mum.bind free_call.mum fun _ =>
        free_wait fun answer _ => ?_
    cases answer with
    | ok given =>
      exact Mum.bind (free_emit rfl).mum fun _ => Mum.bind free_update.mum fun _ =>
        Mum.bind mum_addCost fun _ => free_pure _
    | error result =>
      exact Mum.bind (free_emit rfl).mum fun _ => Mum.bind free_update.mum fun _ => free_pure _

theorem execute_mum (call : ToolRequest) : Mum c (execute call) :=
  Mum.bind (mum_op trivial fun _ => free_pure _) fun _ => free_wait fun _ _ =>
    Mum.bind (run_mum _) fun _ => free_wait fun _ hReports =>
      Mum.bind (free_emitAll _ hReports).mum fun _ => free_pure _

theorem runCalls_mum (calls : List ToolRequest) : Mum c (runCalls c calls) := by
  induction calls with
  | nil => exact free_pure ()
  | cons call calls ih =>
    exact Mum.bind free_update.mum fun _ => Mum.bind (execute_mum _) fun _ =>
      Mum.bind free_update.mum fun _ => Mum.bind (addContext_free _).mum fun _ =>
        Mum.bind (mum_when (Mum.bind (free_emit rfl).mum fun _ => (free_asked fun _ => rfl).mum))
          fun _ => ih

theorem mum_exec {o : Op} {k : o.Res → Loop α} (h : o.mum) (hk : ∀ s, Mum c (k (exec o s).1)) :
    Mum c (.op o k) := by
  refine fun x _ => ⟨safe_of_mum h x, ?_⟩
  refine (hk x.1 _).mono fun r y hr => ?_
  exact ⟨hr.1.trans (notes_of_mum h x.1 x.2), hr.2.1, fun _ _ hNot => hNot.elim⟩

theorem transition_blames (s : Episode) (next : TaskStatus) :
    Mum c (ofExcept (s.transition next).1) := by
  rw [Episode.transition]
  split
  · exact free_pure ()
  · exact free_throw rfl

theorem mum_transition (next : TaskStatus) : Mum c (Loop.transition next) :=
  mum_exec trivial fun s => transition_blames s next

theorem mum_toObserving : Mum c Loop.toObserving := by
  refine mum_exec trivial fun s => ?_
  change Mum c (ofExcept s.toObserving.1)
  rw [Episode.toObserving]
  split
  · split
    · exact transition_blames _ _
    · exact transition_blames s _
  · exact transition_blames s _

theorem mum_completeRun (summary : Option String) : Mum c (Loop.completeRun summary) := by
  refine mum_exec trivial fun s => ?_
  change Mum c (ofExcept (s.completeRun summary).1)
  rw [Episode.completeRun]
  split
  · exact free_pure ()
  · split
    · exact free_pure ()
    · exact free_throw rfl

theorem toolLoop_mum (step guard : Nat) (result : ModelResult) :
    Mum c (toolLoop c step guard result) := by
  induction guard generalizing result with
  | zero => exact free_pure _
  | succ guard ih =>
    exact spares_ite (free_pure _) <| free_look fun _ => spares_ite (free_pure _) <|
      spares_ite (free_throw rfl) <| Mum.bind free_update.mum fun _ =>
        Mum.bind (mum_transition _) fun _ => Mum.bind (free_emits _ rfl).mum fun _ =>
          Mum.bind (runCalls_mum _) fun _ => Mum.bind mum_toObserving fun _ =>
            Mum.bind (free_emit rfl).mum fun _ => Mum.bind (mum_transition _) fun _ =>
              Mum.bind (callModel_mum _ _) fun _ => ih _

theorem assist_mum (step : Nat) (result : ModelResult) : Mum c (assist c step result) := by
  refine free_look fun _ => ?_
  cases c.heuristicToolCall with
  | none => exact free_pure _
  | some call =>
    exact spares_ite
      (Mum.bind free_update.mum fun _ => Mum.bind (mum_transition _) fun _ =>
        Mum.bind (free_emit rfl).mum fun _ => Mum.bind free_update.mum fun _ =>
          Mum.bind free_update.mum fun _ => Mum.bind (execute_mum _) fun _ =>
            Mum.bind free_update.mum fun _ => Mum.bind (addContext_free _).mum fun _ =>
              Mum.bind mum_toObserving fun _ => Mum.bind (mum_transition _) fun _ =>
                callModel_mum _ _)
      (free_pure _)

theorem finishStep_mum (result : ModelResult) : Mum c (finishStep c result) := by
  refine Mum.bind mum_toObserving fun _ => Mum.bind free_update.mum fun _ =>
    Mum.bind free_update.mum fun _ => Mum.bind (free_emit rfl).mum fun _ => free_look fun v =>
      Mum.bind (mum_when free_waited.mum) fun _ =>
        Mum.bind (mum_when (Mum.bind (free_emit rfl).mum fun _ => (free_asked fun _ => rfl).mum))
          fun _ => ?_
  cases evaluateCompletion v.data result with
  | some summary => exact Mum.bind (mum_completeRun _) fun _ => free_pure _
  | none => exact Mum.bind (mum_transition _) fun _ => free_pure _

def Blamed (e : LoopError) (x : Episode × Warnings) : Prop :=
  e.blamesBudget = true → x.1.budget.isBudgetExceeded = true ∨ x.1.budget.isLatencyExceeded = true

theorem speaks_blamed {p : Loop α} {f : α → Loop β} {e : LoopError} (hp : Free c p)
    (h : Blamed e x)
    (hf : ∀ a y, y.2 = x.2 → Blamed e y → Speaks c (f a) y (Leaves (fun _ => False) x)) :
    Speaks c (p >>= f) x (Leaves (fun _ => False) x) := by
  refine .bind ((hp x).mono fun r y hr => ?_)
  cases r with
  | error e => exact leaves_error hr
  | ok a =>
    refine hf a y hr.1 fun hBlames => ?_
    rw [hr.2.2 a rfl trivial]
    exact h hBlames

/-- The same after a part that has come to `false`. -/
theorem speaks_refused {p : Loop Bool} {f : Bool → Loop β} {e : LoopError}
    (hp : Spares c p (· = false)) (h : Blamed e x) (hTrue : Mum c (f true))
    (hFalse : ∀ y, y.2 = x.2 → Blamed e y → Speaks c (f false) y (Leaves (fun _ => False) x)) :
    Speaks c (p >>= f) x (Leaves (fun _ => False) x) := by
  refine .bind ((hp x).mono fun r y hr => ?_)
  cases r with
  | error e => exact leaves_error hr
  | ok found =>
    cases found with
    | true => exact mum_after hTrue hr.1
    | false =>
      refine hFalse y hr.1 fun hBlames => ?_
      rw [hr.2.2 false rfl rfl]
      exact h hBlames

/-- An error that a step is not recovered from is thrown again, and blames what it has blamed. -/
theorem recoverStep_speaks {error : LoopError} (h : Blamed error x) :
    Speaks c (recoverStep c error) x (Leaves (fun _ => False) x) := by
  refine speaks_look ?_
  split
  · exact free_pure _ x
  split
  · exact speaks_refused failoverLargerContext_spares h
      (Mum.bind (free_emit rfl).mum fun _ => free_pure _) fun y hNotes hy => leaves_throw hNotes hy
  split
  · refine speaks_blamed free_update h fun _ y hNotes h => speaks_after hNotes ?_
    refine speaks_blamed (free_emit rfl) h fun _ y hNotes h => speaks_after hNotes ?_
    refine speaks_blamed (spares_when free_waited) h fun _ y hNotes h => speaks_after hNotes ?_
    refine speaks_look ?_
    refine speaks_refused (failover_spares _) h
      (Mum.bind (free_emit rfl).mum fun _ => free_pure _) fun y hNotes h => speaks_after hNotes ?_
    change Speaks c (if error.code = some "model_unavailable" then _ else _) y _
    split
    · exact free_look (fun _ => free_throw rfl) y
    refine speaks_look ?_
    split
    · exact Mum.bind free_update.mum (fun _ => Mum.bind (free_emit rfl).mum fun _ =>
        free_wait fun _ _ => free_look fun _ => free_pure _) y
    · exact leaves_throw rfl h
  · exact leaves_throw rfl h

theorem speaks_attempt {p : Loop α} {f : Except LoopError α → Loop β} (hp : Mum c p)
    (hError : ∀ e y, y.2 = x.2 → Blamed e y →
      Speaks c (f (.error e)) y (Leaves (fun _ => False) x))
    (hOk : ∀ a, Mum c (f (.ok a))) :
    Speaks c (attempt p >>= f) x (Leaves (fun _ => False) x) := by
  refine .bind (.tryCatch (.bind ((hp x).mono fun r y hr => ?_)))
  cases r with
  | error e => exact hError e y hr.1 (hr.2.1 e rfl)
  | ok a => exact mum_after (hOk a) hr.1

theorem executeStep_mum (step : Nat) : Mum c (executeStep c step) := by
  refine Mum.bind (mum_op trivial fun _ => free_pure _) fun _ =>
    Mum.bind (free_emit rfl).mum fun _ x => ?_
  refine speaks_attempt (callModel_mum _ _)
    (fun error y hNotes h => speaks_after hNotes (recoverStep_speaks h)) fun result => ?_
  refine Mum.bind (toolLoop_mum _ _ _) fun left => ?_
  cases left with
  | none => exact free_pure _
  | some result =>
    exact free_look fun _ => spares_ite (free_pure _) <|
      Mum.bind (assist_mum _ _) fun _ => finishStep_mum _

theorem mum_cancelledRun (reason : String) : Mum c (Loop.cancelledRun reason) :=
  mum_op trivial fun _ => free_pure _

theorem admitStep_mum : Mum c (admitStep c) := by
  refine fun x => speaks_look ?_
  split
  · exact Mum.bind (mum_cancelledRun _) (fun _ => free_pure _) x
  split
  · exact free_pure _ x
  split
  · rename_i hReached
    have hReached : x.1.budget.isBudgetExceeded = true ∨ x.1.budget.isLatencyExceeded = true :=
      Bool.or_eq_true _ _ ▸ hReached
    refine .bind ((handleBudgetExceeded_speaks (hReached.imp_right .inl)).mono fun r y hr => ?_)
    cases r with
    | error e => exact leaves_error hr
    | ok switched =>
      obtain ⟨hNotes, -, hBudget⟩ := hr
      cases switched with
      | false => exact leaves_throw hNotes fun _ => by rw [hBudget false rfl rfl]; exact hReached
      | true => exact mum_after (free_look fun _ => free_pure _) hNotes
  · exact free_pure _ x

theorem goesOn_mum : Mum c goesOn :=
  free_look fun _ => spares_ite (Mum.bind (mum_cancelledRun _) fun _ => free_pure _) (free_pure _)

abbrev Warns (c : Settings) (p : Loop α) : Prop := ∀ x, Speaks c p x fun r y => Excused r y.1

theorem Spares.warns {p : Loop α} (h : Spares c p b) : Warns c p :=
  fun x => (h x).mono fun _ _ hr => hr.2.1

theorem Warns.bind {p : Loop α} {f : α → Loop β} (h : Warns c p) (hf : ∀ a, Warns c (f a)) :
    Warns c (p >>= f) := by
  refine fun x => .bind ((h x).mono fun r y hr => ?_)
  cases r with
  | error e =>
    intro e' hSame
    cases hSame
    exact hr e rfl
  | ok a => exact hf a y

theorem speaks_emit {type : EventType} (h : type.warns = false) {k : Unit → Loop α}
    {Q : Except LoopError α → Episode × Warnings → Prop}
    (hk : ∀ y, y.2 = x.2 → y.1.budget = x.1.budget → Speaks c (k ()) y Q) :
    Speaks c (emit type >>= k) x Q :=
  fun _ => ⟨safe_of_mum (o := .emit type) h x,
    hk _ (notes_of_mum (o := .emit type) h x.1 x.2) (budget_exec (o := .emit type) trivial x.1)⟩

theorem handleOptimization_mum {trigger : Trigger} (h : trigger ≠ .budgetCritical) :
    Mum c (handleOptimization c trigger) := by
  cases trigger with
  | budgetCritical => exact absurd rfl h
  | contextCritical =>
    exact free_look fun _ => Mum.bind (compressContext_free _).mum fun _ => free_look fun _ =>
      spares_ite (free_throw rfl) (free_pure _)
  | modelUnavailable => exact Mum.bind (failover_spares _).mum fun _ => free_pure _

theorem handleTriggers_mum (triggers : List Trigger) (h : .budgetCritical ∉ triggers) :
    Mum c (handleTriggers c triggers) := by
  induction triggers with
  | nil => exact free_pure _
  | cons trigger triggers ih =>
    have hNe : trigger ≠ .budgetCritical := fun hSame => h (hSame ▸ List.mem_cons_self)
    exact Mum.bind (free_emit rfl).mum fun _ => Mum.bind (handleOptimization_mum hNe) fun _ =>
      Mum.bind (free_emit rfl).mum fun _ => ih fun hMem => h (List.mem_cons_of_mem _ hMem)

theorem criticalTriggers_cases (v : View) :
    .budgetCritical ∉ criticalTriggers c v ∨
      v.budget.isCritical c = true ∧ ∃ triggers, .budgetCritical ∉ triggers ∧
        criticalTriggers c v = .budgetCritical :: triggers := by
  have hRest : Trigger.budgetCritical ∉
      (if 95 / 100 ≤ v.data.utilization then [.contextCritical] else []) ++
        (if v.data.modelHealth = .unavailable then [.modelUnavailable] else []) := by
    intro hMem
    obtain hMem | hMem := List.mem_append.mp hMem
    · split at hMem
      · cases List.mem_singleton.mp hMem
      · cases hMem
    · split at hMem
      · cases List.mem_singleton.mp hMem
      · cases hMem
  by_cases hCritical : c.budgetCriticalThreshold ≤
      if 0 < v.budget.maximumCost then v.budget.currentSpend / v.budget.maximumCost else 0
  · refine .inr ⟨decide_eq_true hCritical, _, hRest, ?_⟩
    rw [criticalTriggers, List.append_assoc, if_pos hCritical]
    rfl
  · refine .inl ?_
    rw [criticalTriggers, List.append_assoc, if_neg hCritical]
    exact hRest

theorem speaks_triggers :
    Speaks c (handleTriggers c (criticalTriggers c x.1.view)) x (Leaves (fun _ => False) x) := by
  rcases criticalTriggers_cases (c := c) x.1.view with hNone | ⟨hCritical, triggers, hNone, hSame⟩
  · exact handleTriggers_mum _ hNone x
  · rw [hSame]
    refine speaks_emit rfl fun y hNotes hBudget => speaks_after hNotes ?_
    have hPressed : Pressed c y.1.budget := by
      rw [hBudget]
      exact .inr (.inr hCritical)
    refine .bind (.bind ((handleBudgetExceeded_speaks hPressed).mono fun r z hr => ?_))
    cases r with
    | error e => exact leaves_error hr
    | ok switched =>
      exact mum_after (Mum.bind (free_emit rfl).mum fun _ => handleTriggers_mum _ hNone) hr.1

theorem checkOptimizationTriggers_warns : Warns c (checkOptimizationTriggers c) := by
  refine fun x _ => ⟨trivial, ?_⟩
  let y : Episode × Warnings := ((warnings c).apply exec .evaluate x).2
  have hLast : Warns c (do
      when (nearLimit c x.1.view) do
        emit .contextLimitWarning
        if c.allowCompaction then do
          let now ← look
          let _ ← compressContext (now.data.maximumTokens * 3 / 5)
        else emit .optimizationTriggered) := by
    refine (mum_when (Mum.bind (free_emit rfl).mum fun _ => spares_ite ?_ ?_)).warns
    · exact free_look fun _ => Mum.bind (compressContext_free _).mum fun _ => free_pure _
    · exact (free_emit rfl).mum
  change Speaks c (handleTriggers c (criticalTriggers c x.1.view) >>= _) y _
  refine .bind ((speaks_triggers (x := y)).mono fun r z hr => ?_)
  cases r with
  | error e =>
    intro e' hSame
    cases hSame
    exact hr.2.1 e rfl
  | ok u =>
    change Speaks c (when (budgetWarns c x.1.view) (emit .budgetWarning) >>= _) z _
    cases hWarns : budgetWarns c x.1.view with
    | false => exact hLast z
    | true =>
      intro hAllowed
      have hPending : z.2.pending = true := by
        rw [hr.1]
        exact hWarns
      exact ⟨hAllowed hPending, hLast _⟩

theorem runSteps_warns (left steps : Nat) : Warns c (runSteps c left steps) := by
  induction left generalizing steps with
  | zero => exact (free_pure (b := fun _ => False) _).warns
  | succ left ih =>
    refine Warns.bind admitStep_mum.warns fun admitted => ?_
    cases admitted with
    | false => exact (free_pure (b := fun _ => False) _).warns
    | true =>
      refine Warns.bind free_update.warns fun _ => Warns.bind (executeStep_mum _).warns fun goOn =>
        Warns.bind checkOptimizationTriggers_warns fun _ => ?_
      cases goOn with
      | false => exact (free_pure (b := fun _ => False) _).warns
      | true =>
        refine Warns.bind goesOn_mum.warns fun on => ?_
        cases on with
        | false => exact (free_pure (b := fun _ => False) _).warns
        | true => exact ih (steps + 1)

theorem closeRun_mum (steps : Nat) : Mum c (closeRun c steps) := by
  refine free_look fun v => spares_ite (free_pure _) <| spares_ite ?_ (mum_completeRun _)
  cases v.data.assistantMessages.getLast? with
  | some text => exact mum_completeRun _
  | none => exact free_throw rfl

theorem enter_mum (entry : Entry) : Mum c (enter entry) :=
  spares_ite (Mum.bind (free_emit rfl).mum fun _ => mum_transition _)
    (Mum.bind (mum_transition _) fun _ => Mum.bind (free_emit rfl).mum fun _ => (free_emit rfl).mum)

theorem setUp_mum (entry : Entry) : Mum c (setUp c entry) := by
  refine Mum.bind (enter_mum entry) fun _ x => speaks_look ?_
  split
  · rename_i hSpent
    exact leaves_throw rfl fun _ => .inl hSpent
  · exact spares_ite (free_pure _) (Mum.bind (mum_transition _) fun _ => Mum.bind buildContext_mum
      fun _ => Mum.bind (mum_transition _) fun _ => Mum.bind selectModel_mum fun _ =>
        mum_transition _) x

theorem executeRun_warns (entry : Entry) : Warns c (executeRun c entry) := by
  refine Warns.bind (setUp_mum entry).warns fun _ => Warns.bind free_update.warns fun _ =>
    Warns.bind (runSteps_warns _ _) fun settled => ?_
  cases settled with
  | none => exact (free_pure (b := fun _ => False) _).warns
  | some steps => exact (closeRun_mum steps).warns

theorem episode_speaks (entry : Entry) : Speaks c (episode c entry) x fun _ _ => True := by
  have hClose : Warns c (do wait .closing; Prog.op .settle Prog.done : Loop Unit) :=
    Spares.warns <| free_wait fun _ _ => mum_op trivial fun _ => free_pure _
  refine .bind (.tryCatch ((executeRun_warns entry x).mono fun r y hr => ?_))
  cases r with
  | ok u => exact (hClose y).mono fun _ _ _ => trivial
  | error error =>
    rintro - z ⟨hBudget, -⟩ -
    refine ⟨fun hBlames => ?_, (hClose _).mono fun _ _ _ => trivial⟩
    rw [hBudget]
    exact hr error rfl hBlames

end Loop

end OrchestraAI.Core
