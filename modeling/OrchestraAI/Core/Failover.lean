import OrchestraAI.Core.FailoverSteps
import OrchestraAI.Core.RunLimits

/-! # Which models a run calls after a failure

A model that has failed is called again only as a retry for want of another one, as long as the
other ways to a model do not lead back to it. A model without a name at the provider fails the run
though there is another one.
-/

namespace OrchestraAI.Core

open AsyncProgram LabelledSystem

abbrev FailingEpisode := System (Scene × Failures) Op Op.Res Wait Wait.Ans LoopError Unit

abbrev FailingLabel := Label Wait Wait.Ans Surroundings

namespace FailingEpisode

def step (c : Settings) (x : FailingEpisode) (l : FailingLabel) : Option FailingEpisode :=
  (failures c).step Scene.exec Scene.ends (surroundings c) x l

structure Start (c : Settings) (entry : Loop.Entry) (x : FailingEpisode) : Prop where
  plain : EpisodeSystem.Start c entry ⟨x.shared.1.toEpisode, x.prog⟩
  noted : x.shared.2 = .nothing

/-- A model is chosen from outside only where none of the models that may be chosen has failed, and
not while another one is needed; a change of the registry leaves the models to be tried as they are. -/
def FairChange (c : Settings) (x : Scene × Failures) : Surroundings → Prop
  | .reselected _ =>
    (∀ m ∈ x.1.selectable c, m.id ∉ x.2.failed) ∧
      (x.2.pending = true → x.1.untried c x.2.failed = [])
  | .registered models => Scene.untried c { x.1 with registry := models } [] = x.1.untried c []
  | _ => True

/-- Before each step: the ways to a model that do not look at what has been tried offer none that has
failed, a model without a name at the provider comes where there is no other, and the errors of the
provider ask for another model where `_executeStep` looks for one. -/
def Fair (c : Settings) (x : FailingEpisode) : FailingLabel → Prop
  | .tick =>
    (∀ o ∈ x.prog.due, FairOp o x.shared) ∧ ∀ m ∈ x.shared.1.data.providerModel, Named c m x.shared
  | .resume answers => ∀ t ∈ x.prog.stand.join, FairAnswer c x.shared t (answers t)
  | .env i => FairChange c x.shared i

section Decidable

variable (c : Settings) (x : Scene × Failures)

instance (e : RunError) : Decidable e.unresolved := inferInstanceAs (Decidable (_ = _))

instance (e : RunError) : Decidable (Excusable c e x) := inferInstanceAs (Decidable (_ ∨ _ → _))

instance (m : ModelDef) : Decidable (Named c m x) := inferInstanceAs (Decidable (_ → _ → _))

instance (o : Op) : Decidable (FairOp o x) := inferInstanceAs (Decidable (∀ id ∈ o.called, _ → _))

instance (e : LoopError) : Decidable (FairFailure c e x) :=
  decidable_of_iff
    (x.2.request = x.1.data.currentModel ∧
      (x.2.continued = true → x.1.untried c (x.2.struck e).failed = []) ∧
      e.code ≠ some "context_exhausted" ∧
      (e.unresolved → x.1.untried c (x.2.struck e).failed ≠ [] ∨ c.maxRetries ≤ x.1.data.retries))
    ⟨fun h => ⟨h.1, h.2.1, h.2.2.1, h.2.2.2⟩, fun h => ⟨h.same, h.first, h.fits, h.resolved⟩⟩

instance (t : Wait) (a : t.Ans) : Decidable (FairAnswer c x t a) :=
  decidable_of_iff
    ((∀ e ∈ t.failure a, e.failoverEligible = true → t.provides = true ∧ FairFailure c e x) ∧
      (∀ e ∈ t.failure a, e.failoverEligible = false →
        Excusable c e.toRunError (x.1, (failures c).heard t a x.2)) ∧
      (∀ routing ∈ t.routing a, (∃ m ∈ t.candidates, m.id = routing.selectedModel) ∧
        ∀ m ∈ t.candidates, m.id ∈ x.1.data.triedModels → m.id ∉ x.2.failed) ∧
      ∀ m ∈ t.found a, Named c m x)
    ⟨fun h => ⟨h.1, h.2.1, h.2.2.1, h.2.2.2⟩, fun h => ⟨h.strikes, h.fails, h.routed, h.found⟩⟩

instance : ∀ i, Decidable (FairChange c x i)
  | .reselected _ => inferInstanceAs (Decidable ((∀ m ∈ x.1.selectable c, _) ∧ (_ → _)))
  | .registered _ => inferInstanceAs (Decidable (_ = _))
  | .outside _ | .marked _ => inferInstanceAs (Decidable True)

instance (x : FailingEpisode) : ∀ l, Decidable (Fair c x l)
  | .tick => inferInstanceAs (Decidable (_ ∧ _))
  | .resume answers =>
    inferInstanceAs (Decidable (∀ t ∈ x.prog.stand.join, FairAnswer c x.shared t (answers t)))
  | .env i => inferInstanceAs (Decidable (FairChange c x.shared i))

end Decidable

variable {c : Settings} {entry : Loop.Entry} {x y : FailingEpisode} {l : FailingLabel}

open EpisodeSystem (retriedEpisode plainSettings smallModel)

def largeModel : ModelDef := ⟨"large", "demo", some "large-1", .healthy, 100000, some 2⟩

/-- A retried run with two models, of which the small one has no name at the provider. -/
def between (live : Bool) : FailingEpisode :=
  ⟨({ retriedEpisode with registry := [smallModel, largeModel] }, .nothing),
    Loop.episode { plainSettings with live := live } ⟨true, 0⟩⟩

def strained : (t : Wait) → t.Ans
  | .models => .ok [smallModel, largeModel]
  | .model id => .ok ([smallModel, largeModel].find? fun m => some m.id = id)
  | .routed _ => .ok ⟨"large", false, true, 0⟩
  | .completed (some "small") _ => .error ⟨⟨some "rate_limit", "later", true⟩, true⟩
  | t => EpisodeSystem.answers "hello" t

def followed (c : Settings) : Nat → FailingEpisode → List FailingLabel
  | 0, _ => []
  | n + 1, x =>
    let l : FailingLabel :=
      match x.prog with
      | .await _ _ => .resume strained
      | _ => .tick
    l :: match x.step c l with
      | some y => followed c n y
      | none => []

end FailingEpisode

end OrchestraAI.Core
