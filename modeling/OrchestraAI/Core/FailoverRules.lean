import OrchestraAI.Core.EpisodeRuns
import OrchestraAI.Core.HistoryRules
import OrchestraAI.Core.LoopErrors
import OrchestraAI.Library.NotedProgram

/-! # Which models an episode goes on with

An episode beside the registry of models, from which the router is offered its candidates. What
has failed, what has been retried and what has answered since is noted; the loop comes to a call
of the provider with a model that has not failed, or with one that is retried while there is no
other.
-/

namespace OrchestraAI.Core

open AsyncProgram

deriving instance DecidableEq for ModelDef

structure Scene extends Episode where
  registry : List ModelDef

namespace Scene

def exec (o : Op) (s : Scene) : o.Res × Scene :=
  ((Core.exec o s.toEpisode).1, { s with toEpisode := (Core.exec o s.toEpisode).2 })

def answers (s : Scene) : (t : Wait) → t.Ans → Bool
  | .models, .ok models => models = s.registry
  | .models, .error _ => false
  | .model id, .ok found => found = s.registry.find? fun m => some m.id = id
  | .model _, .error _ => false
  | _, _ => true

def ends (t : Wait) (a : t.Ans) (s : Scene) : Bool := Core.ends t a s.toEpisode && s.answers t a

/-- The models that a failover may still go to: healthy, allowed, with a name at the provider where
one is needed, and neither tried nor failed. -/
def untried (c : Settings) (s : Scene) (failed : List ModelId) : List ModelDef :=
  s.registry.filter fun m => m.status = .healthy && c.isModelAllowed m.id && Loop.mapped c m &&
    m.id ∉ s.data.triedModels && m.id ∉ failed

/-- The candidates of `_selectModel`, which a price change may call. -/
def selectable (c : Settings) (s : Scene) : List ModelDef :=
  s.registry.filter fun m => c.isModelAllowed m.id && m.status ≠ .unavailable && Loop.mapped c m

/-- `updateModel` with the status `unavailable`. -/
def mark (id : ModelId) (m : ModelDef) : ModelDef :=
  if m.id = id then { m with status := .unavailable } else m

end Scene

/-- What happens beside the loop: as to any run, the marking of a model that has been tried, a
change of the registry, and the choice of a model after a price change. -/
inductive Surroundings
  | outside (i : Outside)
  | marked (id : ModelId)
  | registered (models : List ModelDef)
  | reselected (m : ModelDef)

def surroundings (c : Settings) : Surroundings → Option Wait → Scene → Option Scene
  | .outside i, stands, s => (outside i stands s.toEpisode).map fun e => { s with toEpisode := e }
  | .marked id, some .unavailableMarked, s =>
    if id ∈ s.data.triedModels then some { s with registry := s.registry.map (Scene.mark id) }
    else none
  | .marked _, _, _ => none
  | .registered models, _, s => some { s with registry := models }
  | .reselected m, _, s =>
    if s.live && !s.status.terminal && m ∈ s.selectable c then
      some { s with data := s.data.setCurrentModel m.id (some m) }
    else none

structure Failures where
  /-- The model that was last called. -/
  request : Option ModelId
  /-- The models that have failed in the episode, so that another one is to be tried. -/
  failed : List ModelId
  /-- Those of them that are not to be called again. -/
  refused : List ModelId
  /-- The models that have answered. -/
  recovered : List ModelId
  /-- A model has failed, and neither has the episode gone on with another one nor called any. -/
  pending : Bool
  /-- A retry with the same model is decided, and no model has been called since. -/
  retrying : Bool
  backoffs : Nat
  /-- The calls of models that had failed. -/
  retried : Nat
  /-- The step has come to its tools. -/
  continued : Bool

namespace Failures

def nothing : Failures := ⟨none, [], [], [], false, false, 0, 0, false⟩

def struck (g : Failures) (e : LoopError) : Failures :=
  { g with
    failed := g.failed ++ g.request.toList
    refused :=
      if e.code = some "model_unavailable" ∨ e.code = some "model_resolution" then
        g.refused ++ g.request.toList
      else g.refused
    pending := true
    retrying := false }

def called (model : Option ModelId) (g : Failures) : Failures :=
  { g with
    request := model
    pending := false
    retrying := false
    retried := if model.any (· ∈ g.failed) then g.retried + 1 else g.retried }

def unresolved (s : Scene) (g : Failures) : Failures :=
  { g with
    failed := g.failed ++ s.data.currentModel.toList
    refused := g.refused ++ s.data.currentModel.toList }

def updated (c : Settings) (s : Scene) (d : LoopData) (g : Failures) : Failures :=
  { g with
    pending := g.pending && !(d.currentModel ≠ s.data.currentModel &&
      (s.untried c g.failed).any fun m => some m.id = d.currentModel)
    retrying := g.retrying || s.data.retries < d.retries
    backoffs := if s.data.retries < d.retries then g.backoffs + 1 else g.backoffs }

end Failures

def failures (c : Settings) : Notes Scene Op Wait Wait.Ans Failures where
  applied o s g :=
    match o with
    | .startStep => { g with continued := false }
    | .transition .waitingForTool => { g with continued := true }
    | .call (.model _ model) => g.called model
    | .addLatency _ => { g with recovered := g.recovered ++ g.request.toList }
    | .update f => g.updated c s (f s.data)
    | .failRun e => if e.code = some "model_resolution" then g.unresolved s else g
    | _ => g
  heard t a g :=
    match t, a with
    | .completed _ _, .error e => if e.failoverEligible then g.struck e else g
    | .streamed _ _ _, .error e => if e.failoverEligible then g.struck e else g
    | .routed _, .error _ => { g with pending := false }
    | _, _ => g

variable (c : Settings)

/-- A model without a name at the provider is no hindrance where there is no other. -/
def Named (m : ModelDef) (x : Scene × Failures) : Prop :=
  c.live = true → m.nativeId = none → x.1.untried c x.2.failed = []

/-- An error of the provider comes for the current model. Where there is another model, it comes
in the first call of a step; where there is none, not for a model that could not be resolved, unless
no retry is left. None of them says that the prompt does not fit. -/
structure FairFailure (e : LoopError) (x : Scene × Failures) : Prop where
  same : x.2.request = x.1.data.currentModel
  first : x.2.continued = true → x.1.untried c (x.2.struck e).failed = []
  fits : e.code ≠ some "context_exhausted"
  resolved : e.unresolved →
    x.1.untried c (x.2.struck e).failed ≠ [] ∨ c.maxRetries ≤ x.1.data.retries

/-- An error that ends the run comes where there is no other model, if one is needed. -/
def Excusable (e : RunError) (x : Scene × Failures) : Prop :=
  x.2.pending = true ∨ e.unresolved → x.1.untried c x.2.failed = []

def Wait.provides : Wait → Bool
  | .completed .. | .streamed .. => true
  | _ => false

def Wait.candidates : Wait → List ModelDef
  | .routed candidates => candidates
  | _ => []

def Wait.routing : (t : Wait) → t.Ans → Option Routing
  | .routed _, .ok routing => some routing
  | _, _ => none

def Wait.found : (t : Wait) → t.Ans → Option ModelDef
  | .model _, .ok found => found
  | _, _ => none

/-- The router picks one of its candidates. Those that have been tried have not failed: this asks
nothing of the failover after an error, which offers no model that has been tried. Only the
provider's errors ask for another model. -/
structure FairAnswer (x : Scene × Failures) (t : Wait) (a : t.Ans) : Prop where
  strikes : ∀ e ∈ t.failure a, e.failoverEligible = true → t.provides = true ∧ FairFailure c e x
  fails : ∀ e ∈ t.failure a, e.failoverEligible = false →
    Excusable c e.toRunError (x.1, (failures c).heard t a x.2)
  routed : ∀ routing ∈ t.routing a, (∃ m ∈ t.candidates, m.id = routing.selectedModel) ∧
    ∀ m ∈ t.candidates, m.id ∈ x.1.data.triedModels → m.id ∉ x.2.failed
  found : ∀ m ∈ t.found a, Named c m x

def Op.called : Op → Option ModelId
  | .call (.model _ model) => model
  | _ => none

def FairOp (o : Op) (x : Scene × Failures) : Prop :=
  ∀ id ∈ o.called, id ∈ x.2.failed → id ∉ x.2.recovered

def Permitted : Op → Scene × Failures → Prop
  | .call (.model _ model), x =>
    (∀ id ∈ model, id ∉ x.2.refused ∧
      (id ∈ x.2.failed → x.2.retrying = true ∧ x.1.untried c x.2.failed = [])) ∧
      (x.2.pending = true → x.1.untried c x.2.failed = [])
  | .failRun e, x => x.1.abort = false → Excusable c e x
  | .update f, x => x.1.data.retries < (f x.1.data).retries → x.2.backoffs < c.maxRetries
  | _, _ => True

/-- Nothing that matters for the choice of a model has happened, except that a model may have been
chosen that has not failed. -/
structure Near (x y : Scene × Failures) : Prop where
  notes : y.2 = x.2
  retries : y.1.data.retries = x.1.data.retries
  tried : y.1.data.triedModels = x.1.data.triedModels
  untried : ∀ failed, y.1.untried c failed = x.1.untried c failed
  abort : x.1.abort = true → y.1.abort = true
  current : y.1.data.currentModel = x.1.data.currentModel ∨
    (x.2.pending = true → x.1.untried c x.2.failed = []) ∧
      ∃ id, y.1.data.currentModel = some id ∧ id ∉ x.2.failed

structure Passes (t : Wait) (x : Scene × Failures) (a : t.Ans) (y : Scene × Failures) : Prop where
  notes : y.2 = (failures c).heard t a x.2
  near : Near c x (y.1, x.2)
  answers : y.1.answers t a = true
  fair : FairAnswer c (y.1, x.2) t a

def moving : Contract (Scene × Failures) Op Wait Wait.Ans where
  safe := Permitted c
  allowed o x := FairOp o x ∧ ∀ m ∈ x.1.data.providerModel, Named c m x
  rely := Passes c

variable {c} {x y z : Scene × Failures}

theorem abort_exec (o : Op) (s : Episode) : (exec o s).2.abort = s.abort := by
  have hKept : Kept Run.abort :=
    ⟨fun _ _ _ => rfl, fun _ _ => rfl, fun _ => rfl, fun _ => rfl, fun _ => rfl⟩
  have hRest (hFree : o.free) : (exec o s).2.abort = s.abort := hKept.exec hFree s
  cases o with
  | addCost amount => rfl
  | addLatency ms => rfl
  | _ => exact hRest trivial

theorem Near.refl (x : Scene × Failures) : Near c x x :=
  ⟨rfl, rfl, rfl, fun _ => rfl, id, .inl rfl⟩

theorem Near.trans (h : Near c x y) (h' : Near c y z) : Near c x z where
  notes := h'.notes.trans h.notes
  retries := h'.retries.trans h.retries
  tried := h'.tried.trans h.tried
  untried failed := (h'.untried failed).trans (h.untried failed)
  abort hAbort := h'.abort (h.abort hAbort)
  current := by
    have hAgain := h'.current
    rw [h.notes, h.untried] at hAgain
    obtain hSame | hOther := hAgain
    · rw [hSame]
      exact h.current
    · exact .inr hOther

theorem untried_congr {s t : Scene} (hRegistry : t.registry = s.registry)
    (hTried : t.data.triedModels = s.data.triedModels) (failed : List ModelId) :
    t.untried c failed = s.untried c failed := by
  rw [Scene.untried, Scene.untried, hRegistry, hTried]

theorem applied_of_tame {o : Op} (h : o.tame) (s : Scene) (g : Failures) :
    (failures c).applied o s g = g := by
  cases o with
  | update f =>
    obtain ⟨hCurrent, -, hRetries⟩ := h s.data
    change g.updated c s (f s.data) = g
    rw [Failures.updated, hCurrent, hRetries, if_neg (lt_irrefl _)]
    simp
  | call what =>
    cases what with
    | model step model => exact h.elim
    | tool call => rfl
  | addLatency ms => exact h.elim
  | startStep => exact h.elim
  | failRun error => exact h.elim
  | transition next =>
    cases next with
    | waitingForTool => exact absurd rfl h
    | _ => rfl
  | _ => rfl

theorem near_exec {o : Op} (h : o.tame) (x : Scene × Failures) :
    Near c x ((failures c).apply Scene.exec o x).2 := by
  have hData : ((exec o x.1.toEpisode).2.data.currentModel = x.1.data.currentModel) ∧
      (exec o x.1.toEpisode).2.data.triedModels = x.1.data.triedModels ∧
      (exec o x.1.toEpisode).2.data.retries = x.1.data.retries := by
    cases o with
    | update f => exact h x.1.data
    | _ =>
      rw [data_exec _ (by intro f hSame; cases hSame)]
      exact ⟨rfl, rfl, rfl⟩
  refine ⟨applied_of_tame h x.1 x.2, hData.2.2, hData.2.1,
    untried_congr (t := ((failures c).apply Scene.exec o x).2.1) rfl hData.2.1, fun hAbort => ?_,
    .inl hData.1⟩
  exact (abort_exec o x.1.toEpisode).trans hAbort

theorem safe_of_tame {o : Op} (h : o.tame) (x : Scene × Failures) : Permitted c o x := by
  cases o with
  | update f =>
    intro hMore
    rw [(h x.1.data).2.2] at hMore
    exact absurd hMore (lt_irrefl _)
  | call what =>
    cases what with
    | model step model => exact h.elim
    | tool call => trivial
  | failRun e => exact h.elim
  | _ => trivial

theorem heard_quiet {t : Wait} (ht : t.quiet) (a : t.Ans) (g : Failures) :
    (failures c).heard t a g = g ∧ t.provides = false := by
  cases t with
  | completed model history => exact ht.elim
  | streamed model history left => exact ht.elim
  | routed candidates => exact ht.elim
  | _ => exact ⟨rfl, rfl⟩

theorem Passes.quiet {t : Wait} {a : t.Ans} (h : Passes c t x a y) (ht : t.quiet) : Near c x y := by
  have hSame : y = (y.1, x.2) := by rw [← (heard_quiet (c := c) ht a x.2).1, ← h.notes]
  rw [hSame]
  exact h.near

theorem Passes.fails {t : Wait} {a : t.Ans} (h : Passes c t x a y) {e : LoopError}
    (hFails : t.failure a = some e) (hSettled : e.failoverEligible = false) :
    Excusable c e.toRunError y := by
  have hSame : y = (y.1, (failures c).heard t a x.2) := by rw [← h.notes]
  rw [hSame]
  exact h.fair.fails e hFails hSettled

theorem Passes.excusable {t : Wait} {a : t.Ans} (h : Passes c t x a y) (ht : t.provides = false)
    {e : LoopError} (hFails : t.failure a = some e) :
    e.failoverEligible = false ∧ Excusable c e.toRunError y := by
  have hSettled : e.failoverEligible = false := by
    refine Bool.eq_false_iff.mpr fun hEligible => ?_
    have hProvides := (h.fair.strikes e hFails hEligible).1
    rw [ht] at hProvides
    cases hProvides
  exact ⟨hSettled, h.fails hFails hSettled⟩

/-- The model may be called: it has not failed, or it has answered since or is retried. -/
def Callable (g : Failures) (model : Option ModelId) : Prop :=
  ∀ id ∈ model, id ∈ g.failed → id ∉ g.refused ∧ (id ∈ g.recovered ∨ g.retrying = true)

structure Sober (c : Settings) (b : Bool) (x : Scene × Failures) : Prop where
  continued : x.2.continued = b
  few : x.2.backoffs ≤ x.1.data.retries
  refused : x.2.refused ⊆ x.2.failed
  retrying : x.2.retrying = true → x.1.untried c x.2.failed = []

def Noted (x : Scene × Failures) : Prop := ∀ id ∈ x.2.failed, id ∈ x.1.data.triedModels

structure Loose (c : Settings) (b : Bool) (x : Scene × Failures) : Prop extends Sober c b x where
  noted : Noted x
  pending : x.2.pending = true → x.1.untried c x.2.failed = []

structure Firm (c : Settings) (b : Bool) (x : Scene × Failures) : Prop extends Loose c b x where
  callable : Callable x.2 x.1.data.currentModel

def Fit (c : Settings) (x : Scene × Failures) : Prop := x.1.abort = true ∨ ∃ b, Firm c b x

variable {b : Bool}

theorem Sober.near (h : Sober c b x) (hNear : Near c x y) : Sober c b y where
  continued := hNear.notes ▸ h.continued
  few := by
    rw [hNear.notes, hNear.retries]
    exact h.few
  refused := hNear.notes ▸ h.refused
  retrying hRetrying := by
    rw [hNear.untried, hNear.notes]
    exact h.retrying (hNear.notes ▸ hRetrying)

theorem Noted.near (h : Noted x) (hNear : Near c x y) : Noted y := by
  intro id hFailed
  rw [hNear.notes] at hFailed
  rw [hNear.tried]
  exact h id hFailed

theorem Noted.fresh (h : Noted x) {id : ModelId} (hTried : id ∈ x.1.data.triedModels → id ∉ x.2.failed) :
    id ∉ x.2.failed := fun hFailed => hTried (h id hFailed) hFailed

theorem Loose.near (h : Loose c b x) (hNear : Near c x y) : Loose c b y where
  toSober := h.toSober.near hNear
  noted := h.noted.near hNear
  pending hPending := by
    rw [hNear.untried, hNear.notes]
    exact h.pending (hNear.notes ▸ hPending)

theorem callable_of_not_failed {g : Failures} {id : ModelId} (h : id ∉ g.failed) :
    Callable g (some id) := by
  intro id' hSame hFailed
  cases hSame
  exact absurd hFailed h

theorem Firm.near (h : Firm c b x) (hNear : Near c x y) : Firm c b y where
  toLoose := h.toLoose.near hNear
  callable := by
    rw [hNear.notes]
    obtain hSame | ⟨-, id, hOther, hNot⟩ := hNear.current
    · rw [hSame]
      exact h.callable
    · rw [hOther]
      exact callable_of_not_failed hNot

theorem Fit.near (h : Fit c x) (hNear : Near c x y) : Fit c y :=
  h.imp hNear.abort fun ⟨b, hFirm⟩ => ⟨b, hFirm.near hNear⟩

namespace Loop

open Prog

variable {α β : Type}

/-- `p` keeps to the contract and comes to `Q`. -/
abbrev Moves (c : Settings) (p : Loop α) (x : Scene × Failures)
    (Q : Except LoopError α → Scene × Failures → Prop) : Prop :=
  Meets (moving c) ((failures c).apply Scene.exec) p x Q

/-- An error that asks for no other model, and comes from a model that cannot be resolved only where
there is none. -/
structure Tolerable (c : Settings) (e : LoopError) (x : Scene × Failures) : Prop where
  settled : e.failoverEligible = false
  resolved : e.unresolved → x.1.untried c x.2.failed = []

theorem Tolerable.near {e : LoopError} (h : Tolerable c e x) (hNear : Near c x y) :
    Tolerable c e y := by
  refine ⟨h.settled, fun hCode => ?_⟩
  rw [hNear.untried, hNear.notes]
  exact h.resolved hCode

theorem tolerable_of_own {e : LoopError} (h : e.Own) : Tolerable c e x :=
  ⟨h.settled, fun hCode => absurd hCode h.resolved⟩

theorem tolerable_of_fails {t : Wait} {a : t.Ans} {e : LoopError} (h : Passes c t x a y)
    (ht : t.quiet) (hFails : t.failure a = some e) : Tolerable c e y :=
  have hExcusable := h.excusable (heard_quiet (c := c) ht a x.2).2 hFails
  ⟨hExcusable.1, fun hCode => hExcusable.2 (.inr hCode)⟩

def Stays (c : Settings) (x : Scene × Failures) (r : Except LoopError α) (y : Scene × Failures) :
    Prop :=
  Near c x y ∧ ∀ e, r = .error e → Tolerable c e y

theorem Tame.stays {p : Loop α} (h : Tame p) : Moves c p x (Stays c x) := by
  refine Meets.of_bears (I := Near c x) (F := Tolerable c) h (Near.refl x)
    (fun e hOwn => tolerable_of_own hOwn) (fun o y ho hy _ => ?_) (fun t y a z ht hy hPasses => ?_)
    (fun a y hy => ⟨hy, fun e h => by cases h⟩) fun e y hy hTolerable => ⟨hy, fun e' hSame => ?_⟩
  · have hNear := near_exec (c := c) ho y
    exact ⟨safe_of_tame ho y, hy.trans hNear, gives_exec o y.1.toEpisode,
      fun e hTolerable => hTolerable.near hNear⟩
  · have hNear := hPasses.quiet ht
    exact ⟨hy.trans hNear, fun e hTolerable => hTolerable.near hNear,
      fun e hFails => tolerable_of_fails hPasses ht hFails⟩
  · cases hSame
    exact hTolerable

variable {Q : Except LoopError β → Scene × Failures → Prop}

theorem Tame.moves {p : Loop α} {f : α → Loop β} (h : Tame p)
    (hError : ∀ e y, Near c x y → Tolerable c e y → Q (.error e) y)
    (hOk : ∀ a y, Near c x y → Moves c (f a) y Q) : Moves c (p >>= f) x Q := by
  refine .bind (h.stays.mono fun r y hr => ?_)
  cases r with
  | error e => exact hError e y hr.1 (hr.2 e rfl)
  | ok a => exact hOk a y hr.1

def switched (c : Settings) (id : ModelId) (definition : Option ModelDef) (x : Scene × Failures) :
    Scene × Failures :=
  ((failures c).apply Scene.exec (.update fun d => d.setCurrentModel id definition) x).2

variable {id : ModelId} {definition : Option ModelDef}

def Lasting (c : Settings) (J : Scene × Failures → Prop) : Prop := ∀ x y, J x → Near c x y → J y

variable {J K : Scene × Failures → Prop}

def cleared (x : Scene × Failures) : Scene × Failures := (x.1, { x.2 with pending := false })

end Loop

end OrchestraAI.Core
