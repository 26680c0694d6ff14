import OrchestraAI.Core.FailoverCalls

/-! # The steps of an episode and the models that failed

A first call that has failed leaves the loop with another model or with the retry of the same
one, or the run fails where there is no other. So do all steps, and the optimization checks
between them.
-/

namespace OrchestraAI.Core

open AsyncProgram

variable {c : Settings} {x y z : Scene × Failures} {b : Bool}

namespace Loop

open Prog

variable {α β : Type} {id : ModelId} {Q : Except LoopError β → Scene × Failures → Prop}
  {J K : Scene × Failures → Prop}

structure Spent (c : Settings) (e : LoopError) (x : Scene × Failures) : Prop
    extends Loose c false x where
  alone : x.1.untried c x.2.failed = []
  named : ∀ id ∈ x.1.data.currentModel, id ∈ x.2.failed → id ∈ x.2.refused →
    e.code = some "model_unavailable" ∨ e.unresolved
  resolved : e.unresolved → c.maxRetries ≤ x.1.data.retries

theorem Struck.spent {e : LoopError} (h : Struck c b e x) (hNoted : Noted x) (hFirst : b = false)
    (hAlone : x.1.untried c x.2.failed = []) : Spent c e x := by
  subst hFirst
  exact ⟨⟨h.toSober, hNoted, fun _ => hAlone⟩, hAlone, fun id hId _ => h.named id hId,
    fun hCode => (h.resolved hCode).resolve_left (· hAlone)⟩

structure Offered (c : Settings) (candidates : List ModelDef) (x : Scene × Failures) : Prop
    extends Sober c false x where
  noted : Noted x
  failed : x.2.pending = true → x.1.untried c x.2.failed ≠ [] ∧
    ∀ id ∈ x.1.data.currentModel, id ∈ x.2.failed
  offers : ∀ m ∈ candidates, m ∈ x.1.untried c x.2.failed

def healthy (c : Settings) (d : LoopData) (models : List ModelDef) : List ModelDef :=
  models.filter fun m => m.status = .healthy && c.isModelAllowed m.id && m.id ∉ d.triedModels &&
    some m.id ≠ d.currentModel && mapped c m

def tried (d : LoopData) : LoopData :=
  { d with triedModels := d.triedModels ++ d.currentModel.toList }

end Loop

end OrchestraAI.Core
