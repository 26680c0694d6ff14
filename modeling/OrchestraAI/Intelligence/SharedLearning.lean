import Mathlib.Logic.Function.Basic
import OrchestraAI.Intelligence.History
import OrchestraAI.Library.LabelledSystem
import OrchestraAI.Library.NewestWindow

/-! # Shared learning

The `EvaluationStore` of `evals.js` and the `IntelligenceStore` with its outcomes and its
performance store, for any number of instances over one database: `appendEvals`,
`saveIntelligence` and the loads of `infrastructure/postgres.js`, and the boot, the run ends and
the flushes of `server.js`. A write is on its way from the dump of the list or store until it
reaches the database or is lost; `appendEvals` is one transaction. An evaluation and an outcome
have the number of their recording for an id.
-/

namespace OrchestraAI.Intelligence

open NewestWindow

structure Evaluation where
  id : Nat
  runId : String
  deriving DecidableEq

/-- The outcome of a run, with what the performance store is told of it. -/
structure RunOutcome where
  id : Nat
  update : Option Outcome

@[irreducible] def MAX_EVALS : Nat := 200

@[irreducible] def MAX_OUTCOME_EVALS : Nat := 200

structure EvaluationStore where
  evals : List Evaluation

namespace EvaluationStore

def new : EvaluationStore := ⟨[]⟩

def record (s : EvaluationStore) (entry : Evaluation) : EvaluationStore :=
  ⟨(s.evals ++ [entry]).rtake MAX_EVALS⟩

def loadAll (items : List Evaluation) : EvaluationStore := ⟨items.rtake MAX_EVALS⟩

def dump (s : EvaluationStore) : List Evaluation := s.evals

end EvaluationStore

/-- A saved document. `taken` is no part of it: the outcomes that it has been made of. -/
structure IntelligenceDoc where
  performance : PerformanceDump
  outcomeEvals : List RunOutcome
  taken : List RunOutcome

structure IntelligenceStore where
  performance : ModelPerformanceStore
  outcomeEvals : List RunOutcome
  taken : List RunOutcome

namespace IntelligenceStore

def new : IntelligenceStore := ⟨.new, [], []⟩

def ingestRunOutcome (s : IntelligenceStore) (o : RunOutcome) : IntelligenceStore where
  performance :=
    match o.update with
    | none => s.performance
    | some update => s.performance.recordOutcome update
  outcomeEvals := (s.outcomeEvals ++ [o]).rtake MAX_OUTCOME_EVALS
  taken := s.taken ++ [o]

def dump (s : IntelligenceStore) : IntelligenceDoc :=
  ⟨s.performance.dump, s.outcomeEvals.rtake MAX_OUTCOME_EVALS, s.taken⟩

def load (data : IntelligenceDoc) : IntelligenceStore :=
  ⟨.load data.performance, data.outcomeEvals.rtake MAX_OUTCOME_EVALS, data.taken⟩

end IntelligenceStore

def insertEvaluation (table : List Evaluation) (evidence : Evaluation) : List Evaluation :=
  if evidence.id ∈ table.map Evaluation.id then table else table ++ [evidence]

def insertEvals (table list : List Evaluation) : List Evaluation :=
  (list.rtake MAX_EVALS).foldl insertEvaluation table

def appendEvals (table list : List Evaluation) : List Evaluation :=
  (insertEvals table list).rtake MAX_EVALS

def loadEvals (table : List Evaluation) : List Evaluation := table.rtake MAX_EVALS

inductive LearningWrite
  | appendEvals (list : List Evaluation)
  | saveIntelligence (doc : IntelligenceDoc)

structure LearningInstance where
  evaluations : EvaluationStore
  intelligence : IntelligenceStore

/-- `flushed` are the evaluations of all the lists that have reached the database, `contained` the
outcomes of all the documents. -/
structure SharedLearning (ι : Type) where
  instances : ι → LearningInstance
  evaluations : List Evaluation
  document : Option IntelligenceDoc
  writes : List LearningWrite
  recorded : List Evaluation
  flushed : List Evaluation
  contained : List RunOutcome

inductive LearningOp (ι : Type)
  /-- A process starts. -/
  | booted (i : ι)
  /-- A run ends: `recordEvaluation` and `ingestRunOutcome`. -/
  | recorded (i : ι) (runId : String) (update : Option Outcome)
  | evalsSent (i : ι)
  | intelligenceSent (i : ι)
  | reached (n : Nat)
  | lost (n : Nat)

section Steps

variable {ι : Type} [DecidableEq ι]

def LearningInstance.boot (table : List Evaluation) (document : Option IntelligenceDoc) :
    LearningInstance where
  evaluations := .loadAll (loadEvals table)
  intelligence :=
    match document with
    | none => .new
    | some doc => .load doc

def SharedLearning.write (s : SharedLearning ι) : LearningWrite → SharedLearning ι
  | .appendEvals list =>
    { s with
      evaluations := appendEvals s.evaluations list
      flushed := s.flushed ++ list.filter fun e => e ∉ s.flushed }
  | .saveIntelligence doc => { s with document := some doc, contained := s.contained ++ doc.taken }

def learningStep (s : SharedLearning ι) : LearningOp ι → Option (SharedLearning ι)
  | .booted i =>
    some { s with instances := Function.update s.instances i (.boot s.evaluations s.document) }
  | .recorded i runId update =>
    let id := s.recorded.length
    let instance' := s.instances i
    some
      { s with
        recorded := s.recorded ++ [⟨id, runId⟩]
        instances := Function.update s.instances i
          ⟨instance'.evaluations.record ⟨id, runId⟩,
            instance'.intelligence.ingestRunOutcome ⟨id, update⟩⟩ }
  | .evalsSent i =>
    some { s with writes := s.writes ++ [.appendEvals (s.instances i).evaluations.dump] }
  | .intelligenceSent i =>
    some { s with writes := s.writes ++ [.saveIntelligence (s.instances i).intelligence.dump] }
  | .reached n => s.writes[n]?.map ({ s with writes := s.writes.eraseIdx n }).write
  | .lost n => s.writes[n]?.map fun _ => { s with writes := s.writes.eraseIdx n }

def noLearning : SharedLearning ι where
  instances _ := ⟨.new, .new⟩
  evaluations := []
  document := none
  writes := []
  recorded := []
  flushed := []
  contained := []

end Steps

def RunOutcome.counts (k : String) (o : RunOutcome) : Bool :=
  o.update.any fun update => update.named && update.success.isSome && update.key = k

def PerformanceDump.attempts (doc : PerformanceDump) (k : String) : Nat :=
  ((doc.records.find? fun r => r.key = k).map fun r => r.counts.attempts).getD 0

/-- The outcome is one of those that the document counts, and of which it lists the last. -/
structure Reflects (doc : IntelligenceDoc) (o : RunOutcome) : Prop where
  taken : o ∈ doc.taken
  outcomeEvals : doc.outcomeEvals = doc.taken.rtake MAX_OUTCOME_EVALS
  attempts : ∀ k, doc.performance.attempts k = doc.taken.countP (RunOutcome.counts k)

variable {ι : Type} [DecidableEq ι]

structure LearningKept (s : SharedLearning ι) : Prop where
  evaluations : Newest Evaluation.id MAX_EVALS s.flushed s.evaluations
  outcomes : ∀ o ∈ s.contained, ∃ doc, s.document = some doc ∧ Reflects doc o

/-- The rows that a write deletes have been recorded before the others, and a document has the
outcomes of the one that it replaces. -/
def KeepsOrder (s : SharedLearning ι) : LearningWrite → Prop
  | .appendEvals list =>
    let rows := insertEvals s.evaluations list
    ∀ a ∈ rows.take (rows.length - MAX_EVALS), ∀ b ∈ rows.rtake MAX_EVALS, a.id < b.id
  | .saveIntelligence doc => ∀ old, s.document = some old → ∀ o ∈ old.taken, o ∈ doc.taken

def FlushesInOrder (s : SharedLearning ι) : LearningOp ι → Prop
  | .reached n => ∀ w, s.writes[n]? = some w → KeepsOrder s w
  | .booted _ | .recorded .. | .evalsSent _ | .intelligenceSent _ | .lost _ => True

def KeptAfter (s : SharedLearning ι) (op : LearningOp ι) : Prop :=
  ∀ t, learningStep s op = some t → LearningKept t

end OrchestraAI.Intelligence
