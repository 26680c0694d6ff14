import OrchestraAI.Execution.Approvals

/-! # Approval safety

Every sequence of calls on one store, with the calls that took effect kept as a
history, newest first. A record stands for the request that made it and for what
happened since.
-/

namespace OrchestraAI.Execution

inductive ApprovalCall
  | requested (id : ApprovalId) (runId : RunId) (actionType : String) (params : Option Json)
    (expiresAt : Int)
  | settled (id : ApprovalId) (status : ApprovalStatus)
  | consumed (id : ApprovalId)
  | cleared (runId : RunId)

def ApprovalCall.approval : ApprovalCall → Option ApprovalId
  | .requested id _ _ _ _ => some id
  | .settled id _ => some id
  | .consumed id => some id
  | .cleared _ => none

def ApprovalCall.isConsumed (id : ApprovalId) : ApprovalCall → Bool
  | .consumed j => j = id
  | _ => false

structure ApprovalRun (η : Type) where
  store : ApprovalStore η
  history : List ApprovalCall

inductive ApprovalLabel
  | request (req : ApprovalRequest) (id : ApprovalId)
  | approve (id : ApprovalId) (decidedBy : Option String)
  | deny (id : ApprovalId) (decidedBy : Option String)
  | cancel (id : ApprovalId) (decidedBy : Option String)
  | checkAndConsume (a : GatedAction) (id : ApprovalId)
  | peek (a : GatedAction)
  | clearRun (runId : RunId)

namespace ApprovalRun

variable {η : Type} [DecidableEq η] (sha : Text → η) (clock : Nat → Int)

def after (s : ApprovalRun η) {α : Type} (called : ApprovalStore η × Except String α)
    (note : α → ApprovalCall) : ApprovalRun η where
  store := called.1
  history := match called.2 with
    | .ok a => note a :: s.history
    | .error _ => s.history

def step (s : ApprovalRun η) : ApprovalLabel → Option (ApprovalRun η)
  | .request req id =>
    some (s.after (s.store.request sha clock req id) fun r =>
      .requested id r.runId r.actionType req.params r.expiresAt)
  | .approve id decidedBy =>
    some (s.after (s.store.approve clock id decidedBy) fun _ => .settled id .approved)
  | .deny id decidedBy =>
    some (s.after (s.store.deny clock id decidedBy) fun _ => .settled id .denied)
  | .cancel id decidedBy =>
    some (s.after (s.store.cancel clock id decidedBy) fun _ => .settled id .cancelled)
  | .checkAndConsume a id =>
    some (s.after (s.store.checkAndConsume sha clock a id) fun _ => .consumed id)
  | .peek a => some { s with store := (s.store.peek sha clock a).1 }
  | .clearRun runId => some ⟨s.store.clearRun runId, .cleared runId :: s.history⟩

def FreshIds (s : ApprovalRun η) : ApprovalLabel → Prop
  | .request _ id => ∀ e ∈ s.history, e.approval ≠ some id
  | _ => True

instance (s : ApprovalRun η) (l : ApprovalLabel) : Decidable (FreshIds s l) :=
  match l with
  | .request _ id => inferInstanceAs (Decidable (∀ e ∈ s.history, e.approval ≠ some id))
  | .approve _ _ | .deny _ _ | .cancel _ _ | .checkAndConsume _ _ | .peek _ | .clearRun _ =>
    inferInstanceAs (Decidable True)

def Start (s : ApprovalRun η) : Prop :=
  ∃ ttl pending, s = ⟨.create ttl pending, []⟩

end ApprovalRun

variable {η : Type} {sha : Text → η} {clock : Nat → Int}

/-- The record of an approval stands for its request, `later` being what happened since. -/
structure Standing (sha : Text → η) (id : ApprovalId) (r : Approval η) (params : Option Json)
    (later earlier history : List ApprovalCall) : Prop where
  request : history = later ++ .requested id r.runId r.actionType params r.expiresAt :: earlier
  fingerprint : r.paramsFingerprint = fingerprintParams sha r.actionType params
  uncleared : .cleared r.runId ∉ later
  undecided : r.status = .pending → ∀ status, .settled id status ∉ later
  approved : r.status = .approved → .settled id .approved ∈ later ∧
    .settled id .denied ∉ later ∧ .settled id .cancelled ∉ later
  unused : r.consumed = false → .consumed id ∉ history

namespace Standing

variable {id : ApprovalId} {r : Approval η} {params : Option Json}
  {later earlier history : List ApprovalCall}

theorem expire (h : Standing sha id r params later earlier history) (decidedAt : Option Int) :
    Standing sha id { r with status := .expired, decidedAt := decidedAt } params later earlier
      history where
  request := h.request
  fingerprint := h.fingerprint
  uncleared := h.uncleared
  undecided hp := by cases hp
  approved ha := by cases ha
  unused := h.unused

theorem sweep (h : Standing sha id r params later earlier history) (t : Int) :
    Standing sha id (ApprovalStore.sweep t r) params later earlier history := by
  unfold ApprovalStore.sweep
  split
  · exact h.expire _
  · exact h

theorem extend (h : Standing sha id r params later earlier history) {e : ApprovalCall}
    (hOther : e.approval ≠ some id) (hRun : e ≠ .cleared r.runId) :
    Standing sha id r params (e :: later) earlier (e :: history) := by
  have hSettled (status : ApprovalStatus) : .settled id status ≠ e := by
    rintro rfl
    exact hOther rfl
  have hConsumed : .consumed id ≠ e := by
    rintro rfl
    exact hOther rfl
  constructor
  · rw [h.request, List.cons_append]
  · exact h.fingerprint
  · exact List.not_mem_cons_of_ne_of_not_mem hRun.symm h.uncleared
  · intro hp status
    exact List.not_mem_cons_of_ne_of_not_mem (hSettled status) (h.undecided hp status)
  · intro ha
    obtain ⟨hIn, hDenied, hCancelled⟩ := h.approved ha
    exact ⟨List.mem_cons_of_mem _ hIn,
      List.not_mem_cons_of_ne_of_not_mem (hSettled _) hDenied,
      List.not_mem_cons_of_ne_of_not_mem (hSettled _) hCancelled⟩
  · intro hc
    exact List.not_mem_cons_of_ne_of_not_mem hConsumed (h.unused hc)

theorem decide (h : Standing sha id r params later earlier history) (hPending : r.status = .pending)
    {status : ApprovalStatus} (hStatus : status ≠ .pending) (at_ : Option Int)
    (by_ : Option String) :
    Standing sha id { r with status := status, decidedAt := at_, decidedBy := by_ } params
      (.settled id status :: later) earlier (.settled id status :: history) where
  request := by rw [h.request, List.cons_append]
  fingerprint := h.fingerprint
  uncleared := List.not_mem_cons_of_ne_of_not_mem (by simp) h.uncleared
  undecided hp := absurd hp hStatus
  approved ha := by
    obtain rfl : status = .approved := ha
    have hOld := h.undecided hPending
    exact ⟨List.mem_cons_self, List.not_mem_cons_of_ne_of_not_mem (by simp) (hOld _),
      List.not_mem_cons_of_ne_of_not_mem (by simp) (hOld _)⟩
  unused hc := List.not_mem_cons_of_ne_of_not_mem (by simp) (h.unused hc)

theorem consume (h : Standing sha id r params later earlier history) :
    Standing sha id { r with consumed := true } params (.consumed id :: later) earlier
      (.consumed id :: history) where
  request := by rw [h.request, List.cons_append]
  fingerprint := h.fingerprint
  uncleared := List.not_mem_cons_of_ne_of_not_mem (by simp) h.uncleared
  undecided hp status :=
    List.not_mem_cons_of_ne_of_not_mem (by simp) (h.undecided hp status)
  approved ha := by
    obtain ⟨hIn, hDenied, hCancelled⟩ := h.approved ha
    exact ⟨List.mem_cons_of_mem _ hIn, List.not_mem_cons_of_ne_of_not_mem (by simp) hDenied,
      List.not_mem_cons_of_ne_of_not_mem (by simp) hCancelled⟩
  unused hc := by cases hc

end Standing

namespace ApprovalStore

/-- What `request` does: it refuses, or it stores a new record. -/
theorem request_cases (sha : Text → η) (clock : Nat → Int) (s : ApprovalStore η)
    (req : ApprovalRequest) (id : ApprovalId) :
    ∃ t result, s.request sha clock req id = (t, result) ∧
      ((t.approvals = s.approvals ∧ ∃ e, result = .error e) ∨
      ∃ r, t.approvals = s.approvals.set id r ∧ result = .ok r ∧
        r.paramsFingerprint = fingerprintParams sha r.actionType req.params ∧
        r.status = .pending ∧ r.consumed = false ∧ r.runId = req.runId ∧ r.id = id) := by
  unfold request
  split
  · exact ⟨_, _, rfl, .inl ⟨rfl, _, rfl⟩⟩
  split
  · exact ⟨_, _, rfl, .inl ⟨rfl, _, rfl⟩⟩
  simp only
  split
  · exact ⟨_, _, rfl, .inl ⟨rfl, _, rfl⟩⟩
  · exact ⟨_, _, rfl, .inr ⟨_, rfl, rfl, rfl, rfl, rfl, rfl, rfl⟩⟩

/-- What `_settle` does: it refuses, or it decides a pending record. -/
theorem settle_cases (clock : Nat → Int) (s : ApprovalStore η) (id : ApprovalId)
    (status : ApprovalStatus) (decidedBy : Option String) :
    ∃ t result, s.settle clock id status decidedBy = (t, result) ∧
      ((t.approvals = (s.sweepExpired clock).approvals ∧ ∃ e, result = .error e) ∨
      ∃ r at_ by_, (s.sweepExpired clock).approvals.get id = some r ∧ r.status = .pending ∧
        t.approvals = (s.sweepExpired clock).approvals.set id
          { r with status := status, decidedAt := at_, decidedBy := by_ } ∧
        result = .ok { r with status := status, decidedAt := at_, decidedBy := by_ }) := by
  unfold settle
  simp only
  cases hGet : (s.sweepExpired clock).approvals.get id with
  | none => exact ⟨_, _, rfl, .inl ⟨rfl, _, rfl⟩⟩
  | some r =>
    simp only
    split
    · exact ⟨_, _, rfl, .inl ⟨rfl, _, rfl⟩⟩
    · rename_i hPending
      exact ⟨_, _, rfl, .inr ⟨r, _, _, rfl, not_not.mp hPending, rfl, rfl⟩⟩

/-- What `checkAndConsume` asks of a record at a reading of the clock. -/
structure Admits (sha : Text → η) (t : Int) (a : GatedAction) (r : Approval η) : Prop where
  runId : r.runId = a.runId
  actionType : r.actionType = a.actionType
  ahead : t < r.expiresAt
  approved : r.status = .approved
  unused : r.consumed = false
  bound : fingerprintParams sha a.actionType a.params = r.paramsFingerprint ∨
    legacyFp sha a r = some r.paramsFingerprint

variable [DecidableEq η] {s : ApprovalStore η} {a : GatedAction} {id : ApprovalId}

/-- What `checkAndConsume` does: it refuses, it expires the record, or it consumes it. -/
theorem checkAndConsume_cases (sha : Text → η) (clock : Nat → Int) (s : ApprovalStore η)
    (a : GatedAction) (id : ApprovalId) : ∃ t result, s.checkAndConsume sha clock a id = (t, result) ∧
    ((t.approvals = (s.sweepExpired clock).approvals ∧ ∃ e, result = .error e) ∨
    ∃ r, (s.sweepExpired clock).approvals.get id = some r ∧
      ((∃ at_, t.approvals = (s.sweepExpired clock).approvals.set id
          { r with status := .expired, decidedAt := at_ } ∧ (∃ e, result = .error e) ∧
          r.runId = a.runId ∧ r.expiresAt ≤ clock (s.ticks + 1)) ∨
        (t.approvals = (s.sweepExpired clock).approvals.set id { r with consumed := true } ∧
          result = .ok { r with consumed := true } ∧
          Admits sha (clock (s.ticks + 1)) a r))) := by
  unfold checkAndConsume
  simp only
  cases hGet : (s.sweepExpired clock).approvals.get id with
  | none => exact ⟨_, _, rfl, .inl ⟨rfl, _, rfl⟩⟩
  | some r =>
    simp only
    split
    · exact ⟨_, _, rfl, .inl ⟨rfl, _, rfl⟩⟩
    rename_i hRun
    split
    · exact ⟨_, _, rfl, .inl ⟨rfl, _, rfl⟩⟩
    rename_i hAction
    split
    · rename_i hDue
      split
      · exact ⟨_, _, rfl, .inr ⟨r, rfl, .inl ⟨_, rfl, ⟨_, rfl⟩, not_not.mp hRun, hDue⟩⟩⟩
      · exact ⟨_, _, rfl, .inl ⟨rfl, _, rfl⟩⟩
    rename_i hAhead
    split
    · exact ⟨_, _, rfl, .inl ⟨rfl, _, rfl⟩⟩
    rename_i hStatus
    split
    · exact ⟨_, _, rfl, .inl ⟨rfl, _, rfl⟩⟩
    rename_i hUsed
    split
    · exact ⟨_, _, rfl, .inl ⟨rfl, _, rfl⟩⟩
    rename_i hBound
    refine ⟨_, _, rfl, .inr ⟨r, rfl, .inr ⟨rfl, rfl, ?_⟩⟩⟩
    constructor
    · exact not_not.mp hRun
    · exact not_not.mp hAction
    · exact Int.not_le.mp hAhead
    · exact not_not.mp hStatus
    · simpa using hUsed
    · tauto

theorem checkAndConsume_ok_iff :
    (∃ r', (s.checkAndConsume sha clock a id).2 = .ok r') ↔
      ∃ r, (s.sweepExpired clock).approvals.get id = some r ∧
        Admits sha (clock (s.ticks + 1)) a r := by
  constructor
  · rintro ⟨r', hOk⟩
    obtain ⟨t, result, hCall, ⟨-, e, rfl⟩ | ⟨r, hGet, ⟨-, -, ⟨e, rfl⟩, -⟩ | ⟨-, -, hAdmits⟩⟩⟩ :=
      checkAndConsume_cases sha clock s a id
    · rw [hCall] at hOk
      cases hOk
    · rw [hCall] at hOk
      cases hOk
    · exact ⟨r, hGet, hAdmits⟩
  · rintro ⟨r, hGet, hAdmits⟩
    have hNow : (s.sweepExpired clock).now clock = clock (s.ticks + 1) := rfl
    have hBound : ¬ (fingerprintParams sha a.actionType a.params ≠ r.paramsFingerprint ∧
        legacyFp sha a r ≠ some r.paramsFingerprint) := by
      have := hAdmits.bound
      tauto
    simp only [checkAndConsume, hGet, hNow]
    rw [if_neg (not_not.mpr hAdmits.runId), if_neg (not_not.mpr hAdmits.actionType),
      if_neg (Int.not_le.mpr hAdmits.ahead), if_neg (not_not.mpr hAdmits.approved),
      if_neg (by simp [hAdmits.unused]), if_neg hBound]
    exact ⟨_, rfl⟩

end ApprovalStore

namespace ApprovalRun

def Stands (sha : Text → η) (history : List ApprovalCall) (id : ApprovalId) (r : Approval η) :
    Prop :=
  ∃ params later earlier, Standing sha id r params later earlier history

/-- Every record stands for its request, and no approval was consumed twice. -/
structure Inv (sha : Text → η) (s : ApprovalRun η) : Prop where
  standing : ∀ id r, s.store.approvals.get id = some r → Stands sha s.history id r
  once : ∀ id, s.history.countP (ApprovalCall.isConsumed id) ≤ 1

theorem Stands.extend {history : List ApprovalCall} {id : ApprovalId} {r : Approval η}
    (h : Stands sha history id r) {e : ApprovalCall} (hOther : e.approval ≠ some id)
    (hRun : e ≠ .cleared r.runId) : Stands sha (e :: history) id r := by
  obtain ⟨params, later, earlier, h⟩ := h
  exact ⟨params, e :: later, earlier, h.extend hOther hRun⟩

theorem countP_isConsumed_eq_zero {id : ApprovalId} {history : List ApprovalCall}
    (h : .consumed id ∉ history) : history.countP (ApprovalCall.isConsumed id) = 0 := by
  apply List.countP_eq_zero.mpr
  intro e he hConsumed
  cases e with
  | consumed j =>
    obtain rfl : j = id := by simpa [ApprovalCall.isConsumed] using hConsumed
    exact h he
  | _ => cases hConsumed

variable {s : ApprovalRun η}

theorem Inv.swept (h : Inv sha s) {id : ApprovalId} {r : Approval η}
    (hGet : (s.store.sweepExpired clock).approvals.get id = some r) :
    Stands sha s.history id r := by
  simp only [ApprovalStore.sweepExpired, OrderedMap.get_mapValues, Option.map_eq_some_iff] at hGet
  obtain ⟨r, hOld, rfl⟩ := hGet
  obtain ⟨params, later, earlier, hStands⟩ := h.standing id r hOld
  exact ⟨params, later, earlier, hStands.sweep _⟩

theorem Inv.idle (h : Inv sha s) {t : ApprovalStore η}
    (ht : t.approvals = (s.store.sweepExpired clock).approvals) : Inv sha ⟨t, s.history⟩ where
  standing id r hGet := by
    rw [ht] at hGet
    exact h.swept hGet
  once := h.once

theorem Inv.rewrite (h : Inv sha s) {t : ApprovalStore η} {id : ApprovalId} {r : Approval η}
    {e : ApprovalCall} (he : e.approval = some id)
    (ht : t.approvals = (s.store.sweepExpired clock).approvals.set id r)
    (hStands : Stands sha (e :: s.history) id r)
    (hOnce : ∀ j, (e :: s.history).countP (ApprovalCall.isConsumed j) ≤ 1) :
    Inv sha ⟨t, e :: s.history⟩ where
  standing j q hGet := by
    simp only [ht, OrderedMap.get_set] at hGet
    split at hGet
    · rename_i hj
      cases hGet
      exact hj ▸ hStands
    · rename_i hj
      apply (h.swept hGet).extend
      · rw [he]
        exact fun hEq => hj (Option.some.inj hEq).symm
      · rintro rfl
        cases he
  once := hOnce

theorem Inv.request (h : Inv sha s) {req : ApprovalRequest} {id : ApprovalId}
    (hFresh : FreshIds s (.request req id)) :
    Inv sha (s.after (s.store.request sha clock req id) fun r =>
      .requested id r.runId r.actionType req.params r.expiresAt) := by
  obtain ⟨t, result, hCall, ⟨ht, e, rfl⟩ | ⟨r, ht, rfl, hFingerprint, hPending, hUnused, -⟩⟩ :=
    ApprovalStore.request_cases sha clock s.store req id
  · rw [hCall]
    exact ⟨fun j q hGet => h.standing j q (ht ▸ hGet), h.once⟩
  · rw [hCall]
    constructor
    · intro j q hGet
      simp only [after, ht, OrderedMap.get_set] at hGet
      split at hGet
      · rename_i hj
        cases hGet
        subst hj
        refine ⟨req.params, [], s.history, rfl, hFingerprint, List.not_mem_nil,
          fun _ _ => List.not_mem_nil, fun ha => ?_, fun _ hMem => ?_⟩
        · rw [hPending] at ha
          cases ha
        · cases hMem with
          | tail _ hMem => exact hFresh _ hMem rfl
      · rename_i hj
        apply (h.standing j q hGet).extend
        · exact fun hEq => hj (Option.some.inj hEq).symm
        · simp
    · intro j
      exact (List.countP_cons_of_neg (by simp [ApprovalCall.isConsumed])).trans_le (h.once j)

theorem Inv.settle (h : Inv sha s) {id : ApprovalId} {status : ApprovalStatus}
    (hStatus : status ≠ .pending) (decidedBy : Option String) :
    Inv sha (s.after (s.store.settle clock id status decidedBy) fun _ => .settled id status) := by
  obtain ⟨t, result, hCall, ⟨ht, e, rfl⟩ | ⟨r, at_, by_, hGet, hPending, ht, rfl⟩⟩ :=
    ApprovalStore.settle_cases clock s.store id status decidedBy
  · rw [hCall]
    exact h.idle ht
  · rw [hCall]
    obtain ⟨params, later, earlier, hStands⟩ := h.swept hGet
    apply h.rewrite rfl ht ⟨params, _, earlier, hStands.decide hPending hStatus at_ by_⟩
    intro j
    exact (List.countP_cons_of_neg (by simp [ApprovalCall.isConsumed])).trans_le (h.once j)

theorem Inv.clearRun (h : Inv sha s) (runId : RunId) :
    Inv sha ⟨s.store.clearRun runId, .cleared runId :: s.history⟩ where
  standing id r hGet := by
    obtain ⟨hGet, hOther⟩ := (OrderedMap.get_keepIf _ _).mp hGet
    apply (h.standing id r hGet).extend
    · simp [ApprovalCall.approval]
    · rintro ⟨⟩
      simp at hOther
  once j := (List.countP_cons_of_neg (by simp [ApprovalCall.isConsumed])).trans_le (h.once j)

variable [DecidableEq η]

theorem Inv.checkAndConsume (h : Inv sha s) (a : GatedAction) (id : ApprovalId) :
    Inv sha (s.after (s.store.checkAndConsume sha clock a id) fun _ => .consumed id) := by
  obtain ⟨t, result, hCall, ⟨ht, e, rfl⟩ | ⟨r, hGet, ⟨at_, ht, ⟨e, rfl⟩, -⟩ | ⟨ht, rfl, hAdmits⟩⟩⟩ :=
    ApprovalStore.checkAndConsume_cases sha clock s.store a id
  · rw [hCall]
    exact h.idle ht
  · rw [hCall]
    refine ⟨fun j q hj => ?_, h.once⟩
    simp only [after, ht, OrderedMap.get_set] at hj
    split at hj
    · rename_i hEq
      cases hj
      obtain ⟨params, later, earlier, hStands⟩ := h.swept hGet
      subst hEq
      exact ⟨params, later, earlier, hStands.expire at_⟩
    · exact h.swept hj
  · rw [hCall]
    obtain ⟨params, later, earlier, hStands⟩ := h.swept hGet
    apply h.rewrite rfl ht ⟨params, _, earlier, hStands.consume⟩
    intro j
    rw [List.countP_cons]
    split
    · rename_i hj
      obtain rfl : id = j := by simpa [ApprovalCall.isConsumed] using hj
      rw [countP_isConsumed_eq_zero (hStands.unused hAdmits.unused)]
    · exact h.once j

theorem inv_step (s : ApprovalRun η) (l : ApprovalLabel) (t : ApprovalRun η) (h : Inv sha s)
    (hFresh : FreshIds s l) (hs : step sha clock s l = some t) : Inv sha t := by
  cases l with
  | request req id =>
    cases hs
    exact h.request hFresh
  | approve id decidedBy =>
    cases hs
    exact h.settle (by simp) decidedBy
  | deny id decidedBy =>
    cases hs
    exact h.settle (by simp) decidedBy
  | cancel id decidedBy =>
    cases hs
    exact h.settle (by simp) decidedBy
  | checkAndConsume a id =>
    cases hs
    exact h.checkAndConsume a id
  | peek a =>
    cases hs
    exact h.idle rfl
  | clearRun runId =>
    cases hs
    exact h.clearRun runId

theorem inv_reach (h : LabelledSystem.Reach (step sha clock) FreshIds Start s) : Inv sha s := by
  refine h.invariant ?_ inv_step
  rintro _ ⟨ttl, pending, rfl⟩
  constructor
  · intro id r hGet
    cases hGet
  · intro id
    exact Nat.zero_le 1

end ApprovalRun

/-- Equal params, missing or false ones counting as `{}`. -/
def SameParams (p q : Option Json) : Prop := (orEmpty p).Same (orEmpty q)

theorem sameParams_of_params (hSha : Function.Injective sha) {actionType : String}
    {p q : Option Json}
    (h : fingerprintParams sha actionType p = fingerprintParams sha actionType q) :
    SameParams p q := by
  have hText := List.append_cancel_left (hSha h)
  exact same_of_stableStringify (List.tail_eq_of_cons_eq hText)

/-- The legacy fingerprint binds the params too: its text is never one of the current kind. -/
theorem sameParams_of_action (hSha : Function.Injective sha) {actionType : String}
    {p q : Option Json} {extra : Text}
    (h : fingerprintAction sha actionType q extra = fingerprintParams sha actionType p) :
    SameParams p q := by
  unfold fingerprintAction at h
  split at h
  · exact absurd (hSha h).symm (barred_ne_quoting actionType (by decide) _ _ _)
  · exact sameParams_of_params hSha h.symm

namespace ApprovalStore

variable {a : GatedAction} {r : Approval η} {p : Option Json} {t : Int}

theorem Admits.sameParams (hSha : Function.Injective sha) (h : Admits sha t a r)
    (hMade : r.paramsFingerprint = fingerprintParams sha r.actionType p) :
    SameParams p a.params := by
  rw [h.actionType] at hMade
  obtain hBound | hBound := h.bound
  · rw [hMade] at hBound
    exact sameParams_of_params hSha hBound.symm
  · rw [hMade] at hBound
    unfold legacyFp at hBound
    split at hBound
    · exact sameParams_of_action hSha (Option.some.inj hBound)
    · exact sameParams_of_action hSha (Option.some.inj hBound)
    · cases hBound

theorem sweep_admits_iff : Admits sha t a (sweep t r) ↔ Admits sha t a r := by
  unfold sweep
  split
  · rename_i hLate
    constructor
    · intro h
      cases h.approved
    · intro h
      exact absurd hLate.2 (Int.not_le.mpr h.ahead)
  · exact Iff.rfl

def lastReading (clock : Nat → Int) (s : ApprovalStore η) : Int := clock (s.ticks - 1)

variable [DecidableEq η]

/-- The test of `peek` on a record at a reading of the clock. -/
def Peekable (sha : Text → η) (t : Int) (a : GatedAction) (r : Approval η) : Prop :=
  r.runId = a.runId ∧ r.actionType = a.actionType ∧ r.status = .approved ∧ r.consumed = false ∧
    t < r.expiresAt ∧ peekFingerprint sha a r = true

/-- The search ends on a record that passes at the last reading, or none passes then. -/
theorem find_spec (sha : Text → η) (a : GatedAction) (hClock : Monotone clock) (n : Nat)
    (rs : List (Approval η)) :
    n ≤ (find sha clock a n rs).2 ∧
      match (find sha clock a n rs).1 with
      | some r => r ∈ rs ∧ Peekable sha (clock ((find sha clock a n rs).2 - 1)) a r
      | none => ∀ r ∈ rs, ¬ Peekable sha (clock ((find sha clock a n rs).2 - 1)) a r := by
  have hSkip {m : Nat} {r : Approval η} {rs : List (Approval η)}
      (hNot : ¬ Peekable sha (clock ((find sha clock a m rs).2 - 1)) a r)
      (h : match (find sha clock a m rs).1 with
        | some r => r ∈ rs ∧ Peekable sha (clock ((find sha clock a m rs).2 - 1)) a r
        | none => ∀ r ∈ rs, ¬ Peekable sha (clock ((find sha clock a m rs).2 - 1)) a r) :
      match (find sha clock a m rs).1 with
      | some q => q ∈ r :: rs ∧ Peekable sha (clock ((find sha clock a m rs).2 - 1)) a q
      | none => ∀ q ∈ r :: rs, ¬ Peekable sha (clock ((find sha clock a m rs).2 - 1)) a q := by
    split at h
    · exact ⟨List.mem_cons_of_mem _ h.1, h.2⟩
    · exact List.forall_mem_cons.mpr ⟨hNot, h⟩
  induction rs generalizing n with
  | nil => exact ⟨le_rfl, fun r hr => by cases hr⟩
  | cons r rs ih =>
    unfold find
    split
    · rename_i hOther
      refine ⟨(ih n).1, hSkip ?_ (ih n).2⟩
      rintro ⟨hRun, hAction, -⟩
      tauto
    split
    · rename_i hSpent
      refine ⟨(ih n).1, hSkip ?_ (ih n).2⟩
      rintro ⟨-, -, hApproved, hUnused, -⟩
      simp [hApproved, hUnused] at hSpent
    have hLater := (ih (n + 1)).1
    split
    · rename_i hLate
      refine ⟨by omega, hSkip ?_ (ih (n + 1)).2⟩
      rintro ⟨-, -, -, -, hAhead, -⟩
      have := hClock (show n ≤ (find sha clock a (n + 1) rs).2 - 1 by omega)
      omega
    split
    · rename_i hOther hSpent hLate hMatch
      simp only [not_or, not_not, Bool.not_eq_true] at hOther hSpent
      exact ⟨Nat.le_succ n, List.mem_cons_self, hOther.1, hOther.2, hSpent.1, hSpent.2,
        Int.not_le.mp hLate, hMatch⟩
    · rename_i hMismatch
      refine ⟨by omega, hSkip ?_ (ih (n + 1)).2⟩
      rintro ⟨-, -, -, -, -, hMatch⟩
      exact hMismatch hMatch

/-- Without a proposed action `peek` tests what `checkAndConsume` asks. -/
theorem peekable_iff_admits (hPlain : a.proposedAction = none) :
    Peekable sha t a r ↔ Admits sha t a r := by
  have hFingerprint : peekFingerprint sha a r = true ↔
      fingerprintParams sha a.actionType a.params = r.paramsFingerprint ∨
        legacyFp sha a r = some r.paramsFingerprint := by
    unfold peekFingerprint legacyFp
    rw [hPlain]
    cases r.proposedAction with
    | none =>
      simp only [Bool.or_false, decide_eq_true_eq, reduceCtorEq, or_false]
      exact eq_comm
    | some p =>
      simp only [Option.any_none, Bool.not_false, Bool.true_and, Bool.or_false, Bool.or_eq_true,
        decide_eq_true_eq, Option.some.injEq]
      exact or_congr eq_comm eq_comm
  constructor
  · rintro ⟨hRun, hAction, hApproved, hUnused, hAhead, hMatch⟩
    exact ⟨hRun, hAction, hAhead, hApproved, hUnused, hFingerprint.mp hMatch⟩
  · rintro ⟨hRun, hAction, hAhead, hApproved, hUnused, hBound⟩
    exact ⟨hRun, hAction, hApproved, hUnused, hAhead, hFingerprint.mpr hBound⟩

theorem consumable_iff {s : ApprovalStore η} {now : Int} :
    (∃ id r, (s.checkAndConsume sha (fun _ => now) a id).2 = .ok r) ↔
      ∃ r ∈ s.approvals.values, Admits sha now a r := by
  constructor
  · rintro ⟨id, hOk⟩
    obtain ⟨r, hGet, hAdmits⟩ := checkAndConsume_ok_iff.mp hOk
    simp only [sweepExpired, OrderedMap.get_mapValues, Option.map_eq_some_iff] at hGet
    obtain ⟨r, hGet, rfl⟩ := hGet
    exact ⟨r, (OrderedMap.mem_values_iff _ _).mpr ⟨id, hGet⟩, sweep_admits_iff.mp hAdmits⟩
  · rintro ⟨r, hr, hAdmits⟩
    obtain ⟨id, hGet⟩ := (OrderedMap.mem_values_iff _ _).mp hr
    refine ⟨id, checkAndConsume_ok_iff.mpr ⟨sweep now r, ?_, sweep_admits_iff.mpr hAdmits⟩⟩
    simp only [sweepExpired, OrderedMap.get_mapValues, hGet]
    rfl

theorem peek_iff (hClock : Monotone clock) {s : ApprovalStore η} (hPlain : a.proposedAction = none) :
    (s.peek sha clock a).2.isSome ↔
      ∃ id r, ((s.peek sha clock a).1.checkAndConsume sha
        (fun _ => lastReading clock (s.peek sha clock a).1) a id).2 = .ok r := by
  rw [consumable_iff]
  have hFound := (find_spec sha a hClock (s.sweepExpired clock).ticks
    (s.sweepExpired clock).approvals.values).2
  simp only [peek, lastReading]
  cases hSearch : (find sha clock a (s.sweepExpired clock).ticks
      (s.sweepExpired clock).approvals.values).1 with
  | none =>
    rw [hSearch] at hFound
    constructor
    · intro h
      cases h
    · rintro ⟨r, hr, hAdmits⟩
      exact absurd ((peekable_iff_admits hPlain).mpr hAdmits) (hFound r hr)
  | some r =>
    rw [hSearch] at hFound
    exact ⟨fun _ => ⟨r, hFound.1, (peekable_iff_admits hPlain).mp hFound.2⟩, fun _ => rfl⟩

end ApprovalStore

namespace ApprovalRun

variable [DecidableEq η] {s : ApprovalRun η}

/-- The history bears the use of an approval out; params are compared by `same`. -/
def Authorised (same : Option Json → Option Json → Prop) (clock : Nat → Int) (s : ApprovalRun η)
    (a : GatedAction) (id : ApprovalId) : Prop :=
  ∃ params expiresAt later earlier,
    s.history = later ++ .requested id a.runId a.actionType params expiresAt :: earlier ∧
    same params a.params ∧ .settled id .approved ∈ later ∧ .settled id .denied ∉ later ∧
    .settled id .cancelled ∉ later ∧ .cleared a.runId ∉ later ∧
    clock (s.store.ticks + 1) < expiresAt

theorem Inv.authorised (hSha : Function.Injective sha) (h : Inv sha s) {a : GatedAction}
    {id : ApprovalId} {r : Approval η}
    (hOk : (s.store.checkAndConsume sha clock a id).2 = .ok r) :
    Authorised SameParams clock s a id := by
  obtain ⟨q, hGet, hAdmits⟩ := ApprovalStore.checkAndConsume_ok_iff.mp ⟨r, hOk⟩
  obtain ⟨params, later, earlier, hStands⟩ := h.swept hGet
  obtain ⟨hIn, hDenied, hCancelled⟩ := hStands.approved hAdmits.approved
  have hRequest := hStands.request
  rw [hAdmits.runId, hAdmits.actionType] at hRequest
  exact ⟨params, q.expiresAt, later, earlier, hRequest,
    hAdmits.sameParams hSha hStands.fingerprint, hIn, hDenied, hCancelled,
    hAdmits.runId ▸ hStands.uncleared, hAdmits.ahead⟩

/-- An approval is used once and only as it was granted, and `peek` finds one exactly when one
can be used. -/
theorem approval_safety (hSha : Function.Injective sha) (hClock : Monotone clock)
    (h : LabelledSystem.Reach (step sha clock) FreshIds Start s) :
    (∀ id, s.history.countP (ApprovalCall.isConsumed id) ≤ 1) ∧
    (∀ a id r, (s.store.checkAndConsume sha clock a id).2 = .ok r →
      Authorised SameParams clock s a id) ∧
    ∀ a, a.proposedAction = none →
      ((s.store.peek sha clock a).2.isSome ↔
        ∃ id r, ((s.store.peek sha clock a).1.checkAndConsume sha
          (fun _ => (s.store.peek sha clock a).1.lastReading clock) a id).2 = .ok r) := by
  have hInv := inv_reach h
  refine ⟨hInv.once, ?_, ?_⟩
  · intro a id r hOk
    exact hInv.authorised hSha hOk
  · intro a hPlain
    exact ApprovalStore.peek_iff hClock hPlain

def plainRequest (params : Option Json) : ApprovalRequest where
  runId := "run-1"
  actionType := "git_commit"
  title := none
  description := none
  riskLevel := none
  params := params
  proposedAction := none
  affectedResources := none
  estimatedChanges := none
  estimatedCost := none
  expiresInMs := none

def commit (params : Option Json) : GatedAction := ⟨"run-1", "git_commit", params, none⟩

theorem approval_safety_one_use :
    ∃ s : ApprovalRun Text, LabelledSystem.run (step id fun n => n) ⟨.create none none, []⟩
      [.request (plainRequest none) "appr-1", .approve "appr-1" none,
        .checkAndConsume (commit none) "appr-1"] = some s ∧ s.history.length = 3 ∧
      ∀ id, s.history.countP (ApprovalCall.isConsumed id) ≤ 1 := by
  have hRun : (LabelledSystem.run (step (id : Text → Text) fun n => n) ⟨.create none none, []⟩
      [.request (plainRequest none) "appr-1", .approve "appr-1" none,
        .checkAndConsume (commit none) "appr-1"]).map (fun s => s.history.length) = some 3 := by
    decide +kernel
  obtain ⟨s, hs, hLength⟩ := Option.map_eq_some_iff.mp hRun
  have hClock : Monotone fun n : Nat => (n : Int) := fun m n h => Int.ofNat_le.mpr h
  have hReach : LabelledSystem.Reach (step id fun n => n) FreshIds Start s :=
    LabelledSystem.Reach.run (.start ⟨none, none, rfl⟩) hs (by decide +kernel)
  exact ⟨s, hs, hLength, (approval_safety Function.injective_id hClock hReach).1⟩

def JsonEqual : Option Json → Option Json → Prop
  | none, none => True
  | some p, some q => p.Same q
  | _, _ => False

def ApprovalCall.asksNull : ApprovalCall → Bool
  | .requested _ _ _ (some .null) _ => true
  | .requested _ _ _ _ _ => false
  | _ => true

/-- Params that are `null` count as `{}`. -/
theorem null_params_match_empty :
    ¬ ∀ (sha : Text → Text) (clock : Nat → Int), Function.Injective sha → Monotone clock →
      ∀ s, LabelledSystem.Reach (step sha clock) FreshIds Start s →
        ∀ a id r, (s.store.checkAndConsume sha clock a id).2 = .ok r →
          Authorised JsonEqual clock s a id := by
  intro h
  have hRun : (LabelledSystem.run (step (id : Text → Text) fun _ => 0) ⟨.create none none, []⟩
      [.request (plainRequest (some .null)) "appr-1", .approve "appr-1" none]).map (fun s =>
        (s.history.all ApprovalCall.asksNull, (s.store.checkAndConsume id (fun _ => 0)
          (commit (some (.obj []))) "appr-1").2.isOk)) = some (true, true) := by
    decide +kernel
  obtain ⟨s, hs, hBoth⟩ := Option.map_eq_some_iff.mp hRun
  rw [Prod.mk.injEq] at hBoth
  have hReach : LabelledSystem.Reach (step id fun _ => 0) FreshIds Start s :=
    LabelledSystem.Reach.run (.start ⟨none, none, rfl⟩) hs (by decide +kernel)
  cases hResult : (s.store.checkAndConsume id (fun _ => 0) (commit (some (.obj []))) "appr-1").2 with
  | error e =>
    rw [hResult] at hBoth
    cases hBoth.2
  | ok r =>
    obtain ⟨params, expiresAt, later, earlier, hHistory, hSame, -⟩ :=
      h id (fun _ => 0) Function.injective_id (fun _ _ _ => le_rfl) s hReach _ _ r hResult
    have hNull := List.all_eq_true.mp hBoth.1 (.requested "appr-1" "run-1" "git_commit" params
      expiresAt) (hHistory ▸ List.mem_append_right _ List.mem_cons_self)
    cases params with
    | none => cases hNull
    | some p =>
      cases p with
      | null => cases hSame
      | _ => cases hNull

end ApprovalRun

end OrchestraAI.Execution
