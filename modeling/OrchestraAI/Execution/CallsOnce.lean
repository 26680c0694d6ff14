import OrchestraAI.Execution.ConcurrentCalls

/-! # At most one call of a key

The gate consumes the approval, and only behind it are the stored results, the abort and the handler
looked at; nobody looks at the calls in flight. What is stored is bounded.
-/

namespace OrchestraAI.Execution

open LabelledSystem
open OrchestraAI.Idempotency (Key IdempotencyStore LocalStep)

variable {η ρ : Type} {sha : Text → η} {keySha : Text → Text} {clock : Nat → Int}
  {handlers : String → Bool} {s t : ExecutorRun η ρ}

section Gate

variable [DecidableEq η]

theorem preGate_needs {a b : ApprovalRun η} {c : ExecuteCall} {newId : ApprovalId}
    {approval : Option ApprovalId}
    (h : preGate sha clock a c .approval newId = (b, .allowed approval)) : approval.isSome := by
  unfold preGate at h
  dsimp only at h
  split at h
  · split at h <;> cases h
    rfl
  · split at h
    · split at h <;> cases h
      rfl
    · cases h

end Gate

/-- Two calls of a key reach their handlers only if the first has ended without success. The list has
the latest call first. -/
def AtMostOnce (started : List StartedCall) : Prop :=
  started.Pairwise fun later earlier => later.key = earlier.key → earlier.ended = some false

/-- An approval is consumed by a call just if it reaches its handler; one that is free consumes none. -/
structure ConsumesExactly (s : ExecutorRun η ρ) : Prop where
  reached : ∀ c ∈ s.started, c.need = .approval → c.approval.isSome
  left : ∀ c ∈ s.left, c.approval = none

structure Proper (s : ExecutorRun η ρ) : Prop where
  once : AtMostOnce s.started
  exact : ConsumesExactly s

def Forgotten (s : ExecutorRun η ρ) (key : Key) : Prop :=
  (∃ c ∈ s.started, c.key = key ∧ c.ended = some true) ∧
    s.completedKeys.get key = none ∧ ExecutorRun.durable s.idempotencyStore key = none

def InFlight (s : ExecutorRun η ρ) (key : Key) : Prop :=
  ∃ c ∈ s.started, c.key = key ∧ c.ended = none

/-- A call that goes on behind the gate reaches its handler if it has consumed an approval, and then
no call with its key is in flight and no result of its key is forgotten. -/
def Harmless (keySha : Text → Text) (handlers : String → Bool) (s : ExecutorRun η ρ) :
    ExecutorStep ρ → Prop
  | .resume id step aborted => ∀ call need approval, s.calls.get id = some (call, .gated need approval) →
    if (s.stop handlers call (call.key keySha step) aborted).isSome then approval = none
    else ¬ InFlight s (call.key keySha step) ∧ ¬ Forgotten s (call.key keySha step)
  | _ => True

def GatedProperly (s : ExecutorRun η ρ) : Prop :=
  ∀ id call need approval, s.calls.get id = some (call, .gated need approval) →
    need = .approval → approval.isSome

theorem AtMostOnce.settle {started : List StartedCall} (h : AtMostOnce started) (id : CallId)
    (success : Bool) : AtMostOnce (started.map fun c =>
      if c.id = id ∧ c.ended = none then { c with ended := some success } else c) := by
  refine List.pairwise_map.mpr (h.imp fun {later earlier} hPair hKey => ?_)
  have hSame (c : StartedCall) :
      (if c.id = id ∧ c.ended = none then { c with ended := some success } else c).key = c.key := by
    split <;> rfl
  rw [hSame, hSame] at hKey
  have hEnded := hPair hKey
  rw [if_neg (by rw [hEnded]; nofun)]
  exact hEnded

/-- A new call of a key may reach its handler just if every earlier one has ended without success. -/
theorem atMostOnce_cons {started : List StartedCall} {c : StartedCall} :
    AtMostOnce (c :: started) ↔
      (∀ c' ∈ started, c'.key = c.key → c'.ended = some false) ∧ AtMostOnce started := by
  rw [AtMostOnce, List.pairwise_cons]
  exact and_congr_left fun _ => forall₂_congr fun c' _ => by rw [eq_comm]

/-- The earlier calls of a key without a stored result have all failed just if none is in flight and
none is forgotten. -/
theorem all_failed_iff {key : Key} (hFast : s.completedKeys.get key = none)
    (hDurable : ExecutorRun.durable s.idempotencyStore key = none) :
    (∀ c ∈ s.started, c.key = key → c.ended = some false) ↔ ¬ InFlight s key ∧ ¬ Forgotten s key := by
  constructor
  · intro h
    refine ⟨?_, ?_⟩
    · rintro ⟨c, hc, hKey, hEnded⟩
      cases hEnded.symm.trans (h c hc hKey)
    · rintro ⟨⟨c, hc, hKey, hEnded⟩, -⟩
      cases hEnded.symm.trans (h c hc hKey)
  · rintro ⟨hFlight, hForgotten⟩ c hc hKey
    cases hEnded : c.ended with
    | none => exact absurd ⟨c, hc, hKey, hEnded⟩ hFlight
    | some success =>
      cases success with
      | false => rfl
      | true => exact absurd ⟨⟨c, hc, hKey, hEnded⟩, hFast, hDurable⟩ hForgotten

theorem stop_eq_none {call : ExecuteCall} {key : Key} {aborted : Bool}
    (h : s.stop handlers call key aborted = none) :
    s.completedKeys.get key = none ∧ ExecutorRun.durable s.idempotencyStore key = none := by
  unfold ExecutorRun.stop at h
  split at h
  · cases h
  · rename_i hFast
    split at h
    · cases h
    · rename_i hDurable
      refine ⟨?_, hDurable⟩
      rwa [Bool.not_eq_true, OrderedMap.has, Option.isSome_eq_false_iff, Option.isNone_iff_eq_none] at hFast

theorem Proper.of_same (h : Proper s) (hStarted : t.started = s.started) (hLeft : t.left = s.left) :
    Proper t := by
  refine ⟨hStarted ▸ h.once, ?_, ?_⟩
  · rw [hStarted]
    exact h.exact.reached
  · rw [hLeft]
    exact h.exact.left

theorem Proper.of_left {c : LeftCall} (h : Proper s) (hStarted : t.started = s.started)
    (hLeft : t.left = c :: s.left) : Proper t ↔ c.approval = none := by
  constructor
  · exact fun ht => ht.exact.left c (hLeft ▸ List.mem_cons_self)
  · intro hNone
    refine ⟨hStarted ▸ h.once, ?_, ?_⟩
    · rw [hStarted]
      exact h.exact.reached
    · rw [hLeft]
      exact List.forall_mem_cons.mpr ⟨hNone, h.exact.left⟩

theorem Proper.of_started {c : StartedCall} (h : Proper s) (hStarted : t.started = c :: s.started)
    (hLeft : t.left = s.left) (hNeed : c.need = .approval → c.approval.isSome) :
    Proper t ↔ ∀ c' ∈ s.started, c'.key = c.key → c'.ended = some false := by
  constructor
  · intro ht
    have hOnce := ht.once
    rw [hStarted] at hOnce
    exact (atMostOnce_cons.mp hOnce).1
  · intro hFailed
    refine ⟨?_, ?_, ?_⟩
    · rw [hStarted]
      exact atMostOnce_cons.mpr ⟨hFailed, h.once⟩
    · rw [hStarted]
      exact List.forall_mem_cons.mpr ⟨hNeed, h.exact.reached⟩
    · rw [hLeft]
      exact h.exact.left

section Steps

variable {id : CallId}

theorem GatedProperly.delete (h : GatedProperly s) (hCalls : t.calls = s.calls.delete id) :
    GatedProperly t := by
  intro j call need approval hGet hNeed
  rw [hCalls, OrderedMap.get_delete] at hGet
  split at hGet
  · cases hGet
  · exact h j call need approval hGet hNeed

theorem GatedProperly.set {entry : ExecuteCall × CallPhase} (h : GatedProperly s)
    (hEntry : ∀ need approval, entry.2 = .gated need approval → need = .approval → approval.isSome)
    (hCalls : t.calls = s.calls.set id entry) : GatedProperly t := by
  intro j call need approval hGet hNeed
  rw [hCalls, OrderedMap.get_set] at hGet
  split at hGet
  · exact hEntry need approval (congrArg Prod.snd (Option.some.inj hGet)) hNeed
  · exact h j call need approval hGet hNeed

variable [DecidableEq η]

/-- What a step other than `resume` and `settle` does: it leaves the calls that have started, at most
one call leaves with nothing consumed, and a call that passes the gate has what it needs. -/
theorem quiet_step {l : ExecutorStep ρ} (h : s.step sha keySha clock handlers l = some t)
    (hResume : ∀ id step aborted, l ≠ .resume id step aborted)
    (hSettle : ∀ id result now works, l ≠ .settle id result now works) :
    t.started = s.started ∧ (t.left = s.left ∨ ∃ c, c.approval = none ∧ t.left = c :: s.left) ∧
      (GatedProperly s → GatedProperly t) := by
  cases l with
  | enter id call =>
    obtain ⟨-, hEntered⟩ := Option.ite_none_left_eq_some.mp h
    cases hEntered
    refine ⟨rfl, .inl rfl, fun hGated => hGated.set (fun need approval hPhase _ => ?_) rfl⟩
    have hEntered : CallPhase.entered = .gated need approval := hPhase
    cases hEntered
  | reject id =>
    simp only [ExecutorRun.step] at h
    split at h
    · cases h
      exact ⟨rfl, .inr ⟨⟨id, none⟩, rfl, rfl⟩, fun hGated => hGated.delete rfl⟩
    · cases h
  | gate id need newId =>
    simp only [ExecutorRun.step] at h
    split at h
    · rename_i call _
      split at h
      · cases h
        exact ⟨rfl, .inr ⟨⟨id, none⟩, rfl, rfl⟩, fun hGated => hGated.delete rfl⟩
      · rename_i approvals approval hAllowed
        cases h
        refine ⟨rfl, .inl rfl, fun hGated => hGated.set (fun need' approval' hPhase hNeed => ?_) rfl⟩
        cases hPhase
        subst hNeed
        exact preGate_needs hAllowed
    · cases h
  | resume id step aborted => exact absurd rfl (hResume id step aborted)
  | settle id result now works => exact absurd rfl (hSettle id result now works)
  | approvals l =>
    obtain ⟨a, -, rfl⟩ := Option.map_eq_some_iff.mp h
    exact ⟨rfl, .inl rfl, fun hGated => hGated⟩
  | store l =>
    cases h
    exact ⟨rfl, .inl rfl, fun hGated => hGated⟩

/-- A call behind the gate is stopped, with what it has consumed, or reaches its handler. -/
theorem resume_cases (sha : Text → η) (keySha : Text → Text) (clock : Nat → Int)
    (handlers : String → Bool) (step : Nat) (aborted : Bool) {call : ExecuteCall} {need : GateNeed}
    {approval : Option ApprovalId} (hGet : s.calls.get id = some (call, .gated need approval)) :
    ∃ t, s.step sha keySha clock handlers (.resume id step aborted) = some t ∧
      t.calls = s.calls.delete id ∧
      ((s.stop handlers call (call.key keySha step) aborted ≠ none ∧ t.started = s.started ∧
          t.left = ⟨id, approval⟩ :: s.left) ∨
        (s.stop handlers call (call.key keySha step) aborted = none ∧
          t.started = ⟨id, call.key keySha step, need, approval, none⟩ :: s.started ∧
          t.left = s.left)) := by
  simp only [ExecutorRun.step, hGet]
  cases hStop : s.stop handlers call (call.key keySha step) aborted with
  | some reason => exact ⟨_, rfl, rfl, .inl ⟨(fun h => by cases h), rfl, rfl⟩⟩
  | none => exact ⟨_, rfl, rfl, .inr ⟨rfl, rfl, rfl⟩⟩

theorem resume_gated {step : Nat} {aborted : Bool}
    (h : s.step sha keySha clock handlers (.resume id step aborted) = some t) :
    ∃ call need approval, s.calls.get id = some (call, .gated need approval) := by
  simp only [ExecutorRun.step] at h
  split at h
  · rename_i call need approval hGet
    exact ⟨call, need, approval, hGet⟩
  · cases h

theorem settle_spec {result : Option ρ} {now : Nat} {works : Bool}
    (h : s.step sha keySha clock handlers (.settle id result now works) = some t) :
    (t.started = s.started.map fun c =>
      if c.id = id ∧ c.ended = none then { c with ended := some result.isSome } else c) ∧
      t.left = s.left ∧ t.calls = s.calls := by
  obtain ⟨c, -, rfl⟩ := Option.map_eq_some_iff.mp h
  cases result <;> exact ⟨rfl, rfl, rfl⟩

theorem gated_step (hGated : GatedProperly s) {l : ExecutorStep ρ}
    (h : s.step sha keySha clock handlers l = some t) : GatedProperly t := by
  cases l with
  | resume id step aborted =>
    obtain ⟨call, need, approval, hGet⟩ := resume_gated h
    obtain ⟨t', hStep, hCalls, -⟩ := resume_cases sha keySha clock handlers step aborted hGet
    cases hStep.symm.trans h
    exact hGated.delete hCalls
  | settle id result now works =>
    obtain ⟨-, -, hCalls⟩ := settle_spec h
    intro j call need approval hGet hNeed
    rw [hCalls] at hGet
    exact hGated j call need approval hGet hNeed
  | enter id call => exact (quiet_step h nofun nofun).2.2 hGated
  | reject id => exact (quiet_step h nofun nofun).2.2 hGated
  | gate id need newId => exact (quiet_step h nofun nofun).2.2 hGated
  | approvals l => exact (quiet_step h nofun nofun).2.2 hGated
  | store l => exact (quiet_step h nofun nofun).2.2 hGated

theorem step_proper_iff (h : Proper s) (hGated : GatedProperly s) (l : ExecutorStep ρ) :
    (∀ t, s.step sha keySha clock handlers l = some t → Proper t) ↔ Harmless keySha handlers s l := by
  have hQuiet (hResume : ∀ id step aborted, l ≠ .resume id step aborted)
      (hSettle : ∀ id result now works, l ≠ .settle id result now works) :
      ∀ t, s.step sha keySha clock handlers l = some t → Proper t := by
    intro t ht
    obtain ⟨hStarted, hLeft | ⟨c, hNone, hLeft⟩, -⟩ := quiet_step ht hResume hSettle
    · exact h.of_same hStarted hLeft
    · exact (h.of_left hStarted hLeft).mpr hNone
  cases l with
  | resume id step aborted =>
    -- one gated call decides, and with it one state
    have hOne (call : ExecuteCall) (need : GateNeed) (approval : Option ApprovalId)
        (hGet : s.calls.get id = some (call, .gated need approval)) :
        (∀ t, s.step sha keySha clock handlers (.resume id step aborted) = some t → Proper t) ↔
          if (s.stop handlers call (call.key keySha step) aborted).isSome then approval = none
          else ¬ InFlight s (call.key keySha step) ∧ ¬ Forgotten s (call.key keySha step) := by
      obtain ⟨t, hStep, -, ⟨hStop, hStarted, hLeft⟩ | ⟨hStop, hStarted, hLeft⟩⟩ :=
        resume_cases sha keySha clock handlers step aborted hGet
      · rw [if_pos (Option.isSome_iff_ne_none.mpr hStop), ← h.of_left hStarted hLeft, hStep]
        simp
      · obtain ⟨hFast, hDurable⟩ := stop_eq_none hStop
        have hStarts := h.of_started hStarted hLeft fun hNeed => hGated id call need approval hGet hNeed
        rw [if_neg (by rw [hStop]; nofun), ← all_failed_iff hFast hDurable, ← hStarts, hStep]
        simp
    constructor
    · exact fun hProper call need approval hGet => (hOne call need approval hGet).mp hProper
    · intro hHarmless t ht
      obtain ⟨call, need, approval, hGet⟩ := resume_gated ht
      exact (hOne call need approval hGet).mpr (hHarmless call need approval hGet) t ht
  | settle id result now works =>
    refine iff_of_true (fun t ht => ?_) trivial
    obtain ⟨hStarted, hLeft, -⟩ := settle_spec ht
    refine ⟨hStarted ▸ h.once.settle id result.isSome, fun c hc => ?_, ?_⟩
    · rw [hStarted] at hc
      obtain ⟨c', hc', rfl⟩ := List.mem_map.mp hc
      split <;> exact h.exact.reached c' hc'
    · rw [hLeft]
      exact h.exact.left
  | enter id call => exact iff_of_true (hQuiet nofun nofun) trivial
  | reject id => exact iff_of_true (hQuiet nofun nofun) trivial
  | gate id need newId => exact iff_of_true (hQuiet nofun nofun) trivial
  | approvals l => exact iff_of_true (hQuiet nofun nofun) trivial
  | store l => exact iff_of_true (hQuiet nofun nofun) trivial

end Steps

def ExecutorRun.idle (approvals : ApprovalRun η) (completedKeys : OrderedMap Key ρ)
    (store : IdempotencyStore ρ) : ExecutorRun η ρ :=
  ⟨approvals, completedKeys, store, .empty, [], []⟩

/-- The calls of a key reach their handlers one by one and only after failures, and approvals are
consumed just by calls that reach their handlers, along just those runs in which every call behind
the gate is harmless. -/
theorem calls_once_iff [DecidableEq η] (sha : Text → η) (keySha : Text → Text) (clock : Nat → Int)
    (handlers : String → Bool) (approvals : ApprovalRun η) (completedKeys : OrderedMap Key ρ)
    (store : IdempotencyStore ρ) (steps : List (ExecutorStep ρ)) :
    Along (ExecutorRun.step sha keySha clock handlers)
      (fun s l => ∀ t, s.step sha keySha clock handlers l = some t → Proper t)
      (.idle approvals completedKeys store) steps ↔
    Along (ExecutorRun.step sha keySha clock handlers) (Harmless keySha handlers)
      (.idle approvals completedKeys store) steps := by
  refine along_congr (I := fun s => Proper s ∧ GatedProperly s) (fun s l h => ?_) ?_ steps
  · exact ⟨step_proper_iff h.1 h.2 l, fun t ht hProper => ⟨hProper t ht, gated_step h.2 ht⟩⟩
  · refine ⟨⟨List.Pairwise.nil, nofun, nofun⟩, ?_⟩
    intro id call need approval hGet
    cases hGet

theorem nonempty_retry : "retry" ≠ "" := by decide

def retriedCall : ExecuteCall := ⟨"run", "apply_patch", .obj [], none, some ⟨"retry", nonempty_retry⟩⟩

def doubled : List (ExecutorStep Nat) :=
  [.enter 0 retriedCall, .enter 1 retriedCall, .gate 0 .free "", .gate 1 .free "", .resume 0 0 false,
    .resume 1 0 false]

def abortedLate : List (ExecutorStep Nat) :=
  [.approvals (.request ⟨"run", "apply_patch", none, none, none, some (.obj []), none, none, none, none,
      none⟩ "approval"),
    .approvals (.approve "approval" none), .enter 0 retriedCall, .gate 0 .approval "new",
    .resume 0 0 true]

/-- Two calls of a key reach their handlers, and a call that is aborted has consumed its approval. -/
theorem called_twice :
    (∃ s, LabelledSystem.run (ExecutorRun.step (fun t => t) (fun t => t) (fun _ => 0) (fun _ => true))
      (.idle ⟨⟨.empty, 60000, 10, 0⟩, []⟩ .empty (.new 0 none)) doubled = some s ∧
        ¬ AtMostOnce s.started) ∧
    ∃ s, LabelledSystem.run (ExecutorRun.step (fun t => t) (fun t => t) (fun _ => 0) (fun _ => true))
      (.idle ⟨⟨.empty, 60000, 10, 0⟩, []⟩ .empty (.new 0 none)) abortedLate = some s ∧
        ¬ ConsumesExactly s := by
  constructor
  · refine ⟨_, rfl, fun h => ?_⟩
    cases (atMostOnce_cons.mp h).1 _ List.mem_cons_self rfl
  · have hConsumed : (LabelledSystem.run
        (ExecutorRun.step (fun t => t) (fun t => t) (fun _ => 0) (fun _ => true))
        (.idle ⟨⟨.empty, 60000, 10, 0⟩, []⟩ .empty (.new 0 none)) abortedLate).map
          (fun s => s.left.any fun c => c.approval.isSome) = some true := by decide +kernel
    obtain ⟨s, hRun, hAny⟩ := Option.map_eq_some_iff.mp hConsumed
    obtain ⟨c, hc, hSome⟩ := List.any_eq_true.mp hAny
    refine ⟨s, hRun, fun h => ?_⟩
    rw [h.left c hc] at hSome
    cases hSome

end OrchestraAI.Execution
