import OrchestraAI.Context.Selection

/-! # Selected with what they depend on

A dependency that was omitted before counts as decided, so that a closure leaves it out. All else
that the selection promises holds of any items with ids of their own.
-/

namespace OrchestraAI.Context

variable {items : List ContextItem} {score : ContextItem → ℚ} {budget : Option ℚ} {threshold : ℚ}
  {s t : Selection} {v : Visit} {fuel : Nat}

def KeepStep (items : List ContextItem) (a b : ContextItem) : Prop :=
  b ∈ items ∧ b.id ∈ a.needs ∧ b.keeps = true

def KeepReaches (items : List ContextItem) : ContextItem → ContextItem → Prop :=
  Relation.TransGen (KeepStep items)

theorem sortIds_perm (ids : List String) : (sortIds ids).Perm ids := List.perm_insertionSort _ ids

theorem byId_spec {id : String} {i : ContextItem} (h : byId items id = some i) : i ∈ items ∧ i.id = id :=
  ⟨List.mem_reverse.mp (List.mem_of_find?_eq_some h), by simpa using List.find?_some h⟩

theorem eq_of_id (hIds : (items.map ContextItem.id).Nodup) {i j : ContextItem} (hi : i ∈ items)
    (hj : j ∈ items) (h : i.id = j.id) : i = j :=
  List.inj_on_of_nodup_map hIds hi hj h

theorem byId_self (hIds : (items.map ContextItem.id).Nodup) {i : ContextItem} (hi : i ∈ items) :
    byId items i.id = some i := by
  cases hFound : byId items i.id with
  | none =>
    have hNone := List.find?_eq_none.mp hFound i (List.mem_reverse.mpr hi)
    simp at hNone
  | some j =>
    obtain ⟨hj, hId⟩ := byId_spec hFound
    rw [eq_of_id hIds hi hj hId.symm]

theorem admit_eq_some {decided : List String} {id : String} {i : ContextItem} :
    admits items decided id = some i ↔ byId items id = some i ∧ id ∉ decided ∧ i.keeps = true := by
  simp [admits, Option.filter_eq_some_iff]

structure Closure (items : List ContextItem) (decided : List String) (item : ContextItem)
    (closure : List ContextItem) : Prop where
  present : ∀ dep ∈ closure, dep ∈ items ∧ dep.keeps = true ∧ dep.id ∉ decided ∧ dep.id ≠ item.id
  reached : ∀ dep ∈ closure, KeepReaches items item dep
  nodup : (closure.map ContextItem.id).Nodup
  closed : ∀ a, a = item ∨ a ∈ closure → ∀ b, KeepStep items a b →
    b.id = item.id ∨ b.id ∈ decided ∨ b ∈ closure

theorem closureOf_result {decided : List String} {item : ContextItem} {closure : List ContextItem}
    (h : closureOf items fuel decided item = some closure) :
    Worklist.Result (admits items decided) ContextItem.needs ContextItem.id [item.id] item.needs closure :=
  Worklist.run_result sortIds_perm (fun _ _ hAdmit => (byId_spec (admit_eq_some.mp hAdmit).1).2) h

theorem closureOf_present {decided : List String} {item : ContextItem} {closure : List ContextItem}
    (h : closureOf items fuel decided item = some closure) :
    ∀ dep ∈ closure, dep ∈ items ∧ dep.keeps = true := by
  intro dep hDep
  obtain ⟨hAdmit, -⟩ := (closureOf_result h).admitted dep hDep
  obtain ⟨hById, -, hKeeps⟩ := admit_eq_some.mp hAdmit
  exact ⟨(byId_spec hById).1, hKeeps⟩

theorem closureOf_spec (hIds : (items.map ContextItem.id).Nodup) {decided : List String}
    {item : ContextItem} {closure : List ContextItem}
    (h : closureOf items fuel decided item = some closure) : Closure items decided item closure := by
  have hResult := closureOf_result h
  have hStep {a b : ContextItem} {id : String} (hNeeds : id ∈ a.needs)
      (hAdmit : admits items decided id = some b) : KeepStep items a b := by
    obtain ⟨hById, -, hKeeps⟩ := admit_eq_some.mp hAdmit
    obtain ⟨hMem, rfl⟩ := byId_spec hById
    exact ⟨hMem, hNeeds, hKeeps⟩
  constructor
  · intro dep hDep
    obtain ⟨hAdmit, hNew⟩ := hResult.admitted dep hDep
    obtain ⟨hById, hUndecided, hKeeps⟩ := admit_eq_some.mp hAdmit
    exact ⟨(byId_spec hById).1, hKeeps, hUndecided, fun hSame => hNew (hSame ▸ List.mem_cons_self)⟩
  · intro dep hDep
    obtain ⟨id, hRoot, first, hAdmit, hPath⟩ := hResult.reached dep hDep
    apply Relation.TransGen.head' (hStep hRoot hAdmit)
    refine Relation.ReflTransGen.mono (fun a b hFollows => ?_) _ _ hPath
    obtain ⟨k, hk, hAdmit⟩ := hFollows
    exact hStep hk hAdmit
  · exact hResult.nodup
  · rintro a ha b ⟨hMem, hNeeds, hKeeps⟩
    have hNamed : Worklist.Named ContextItem.needs item.needs closure b.id := by
      obtain rfl | ha := ha
      · exact .inl hNeeds
      · exact .inr ⟨a, ha, hNeeds⟩
    obtain hSame | hTaken := hResult.closed b.id hNamed
    · exact .inl (List.mem_singleton.mp hSame)
    · right
      by_cases hDecided : b.id ∈ decided
      · exact .inl hDecided
      · exact .inr (hTaken b (admit_eq_some.mpr ⟨byId_self hIds hMem, hDecided, hKeeps⟩))

theorem closureOf_mono {n m : Nat} (hLe : n ≤ m) {decided : List String} {item : ContextItem}
    {closure : List ContextItem} (h : closureOf items n decided item = some closure) :
    closureOf items m decided item = some closure :=
  Worklist.run_mono hLe h

theorem exists_closureOf (items : List ContextItem) (decided : List String) (item : ContextItem) :
    ∃ n closure, closureOf items n decided item = some closure := by
  apply Worklist.exists_run sortIds_perm
  · intro id i hAdmit
    obtain ⟨hMem, hId⟩ := byId_spec (admit_eq_some.mp hAdmit).1
    exact List.mem_map.mpr ⟨i, hMem, hId⟩

namespace Selection

theorem items_choose (s : Selection) (c : Chosen) : (s.choose c).items = s.items ++ [c.item] := by
  simp [items, choose]

structure Takes (s t : Selection) (taken : List ContextItem) : Prop where
  items : t.items = s.items ++ taken
  selected : s.selected <+: t.selected
  omitted : t.omitted = s.omitted
  decided : ∀ id, id ∈ t.decided ↔ id ∈ taken.map ContextItem.id ∨ id ∈ s.decided
  used : t.usedTokens = s.usedTokens + tokensOf taken
  overBudget : t.overBudget = s.overBudget

theorem takes_choose (s : Selection) (c : Chosen) : Takes s (s.choose c) [c.item] where
  items := items_choose s c
  selected := List.prefix_append _ _
  omitted := rfl
  decided id := by simp [choose]
  used := by simp [choose, tokensOf]
  overBudget := rfl

theorem Takes.trans {s t u : Selection} {a b : List ContextItem} (h : Takes s t a) (h' : Takes t u b) :
    Takes s u (a ++ b) where
  items := by rw [h'.items, h.items, List.append_assoc]
  selected := h.selected.trans h'.selected
  omitted := h'.omitted.trans h.omitted
  decided id := by
    rw [h'.decided, h.decided, List.map_append, List.mem_append]
    tauto
  used := by
    rw [h'.used, h.used, tokensOf, tokensOf, tokensOf, List.map_append, List.sum_append, add_assoc]
  overBudget := h'.overBudget.trans h.overBudget

theorem takes_foldl {mustKeep : Bool} {closure : List ContextItem}
    (hNodup : (closure.map ContextItem.id).Nodup) (hNew : ∀ dep ∈ closure, dep.id ∉ s.decided) :
    Takes s (closure.foldl (chooseDep score mustKeep) s) closure := by
  induction closure generalizing s with
  | nil =>
    exact ⟨(List.append_nil _).symm, List.prefix_refl _, rfl, fun id => by simp, by simp [tokensOf], rfl⟩
  | cons dep closure ih =>
    obtain ⟨hDep, hNodup⟩ := List.nodup_cons.mp hNodup
    obtain ⟨hFirst, hNew⟩ := List.forall_mem_cons.mp hNew
    rw [List.foldl_cons, chooseDep, if_neg hFirst]
    refine (takes_choose s _).trans (ih hNodup fun other hOther => ?_)
    rw [(takes_choose s _).decided]
    rintro (hSame | hDecided)
    · apply hDep
      rw [← List.mem_singleton.mp hSame]
      exact List.mem_map_of_mem hOther
    · exact hNew other hOther hDecided

end Selection

def marked (budget : Option ℚ) (s : Selection) (taken : List ContextItem) : Selection :=
  { s with overBudget := s.overBudget || !fits budget (s.usedTokens + tokensOf taken) }

def FitsWith (items : List ContextItem) (budget : Option ℚ) (s : Selection) (v : Visit) (fit : Bool) : Prop :=
  ∃ n closure, closureOf items n s.decided v.item = some closure ∧
    fits budget (s.usedTokens + tokensOf (v.item :: closure)) = fit

theorem FitsWith.unique {a b : Bool} (ha : FitsWith items budget s v a) (hb : FitsWith items budget s v b) :
    a = b := by
  obtain ⟨n, first, hFirst, rfl⟩ := ha
  obtain ⟨m, second, hSecond, rfl⟩ := hb
  have hSame := (closureOf_mono (Nat.le_max_left n m) hFirst).symm.trans
    (closureOf_mono (Nat.le_max_right n m) hSecond)
  rw [Option.some.inj hSame]

structure PassesOver (items : List ContextItem) (budget : Option ℚ) (threshold : ℚ) (s t : Selection)
    (v : Visit) : Prop where
  undecided : v.item.id ∉ s.decided
  why : v.item.keeps = true →
    v.mustKeep = false ∧ (v.score < threshold ∨ FitsWith items budget s v false)
  passes : ∃ reason, t = s.passOver v reason

structure TakesWith (items : List ContextItem) (budget : Option ℚ) (threshold : ℚ) (s t : Selection)
    (v : Visit) (closure : List ContextItem) : Prop where
  undecided : v.item.id ∉ s.decided
  keeps : v.item.keeps = true
  isRun : ∃ n, closureOf items n s.decided v.item = some closure
  isClosure : Closure items s.decided v.item closure
  tests : v.mustKeep = true ∨
    threshold ≤ v.score ∧ fits budget (s.usedTokens + tokensOf (v.item :: closure)) = true
  takes : (marked budget s (v.item :: closure)).Takes t (v.item :: closure)

theorem trySelect_forms (h : trySelect items score budget threshold fuel s v = some t) :
    v.item.id ∈ s.decided ∧ t = s ∨ PassesOver items budget threshold s t v ∨
      ∃ closure category, v.item.id ∉ s.decided ∧ v.item.keeps = true ∧
        closureOf items fuel s.decided v.item = some closure ∧
        (v.mustKeep = true ∨
          threshold ≤ v.score ∧ fits budget (s.usedTokens + tokensOf (v.item :: closure)) = true) ∧
        t = closure.foldl (Selection.chooseDep score v.mustKeep)
          ((marked budget s (v.item :: closure)).choose ⟨v.item, v.score, category, false⟩) := by
  unfold trySelect at h
  split at h
  · rename_i hDecided
    exact .inl ⟨hDecided, (Option.some.inj h).symm⟩
  rename_i hUndecided
  right
  split at h
  · rename_i hStatus
    refine .inl ⟨hUndecided, fun hKeeps => ?_, _, (Option.some.inj h).symm⟩
    rw [hKeeps] at hStatus
    cases hStatus
  rename_i hKeeps
  rw [Bool.not_eq_true, Bool.not_eq_false'] at hKeeps
  split at h
  · rename_i hLow
    obtain ⟨hRest, hLess⟩ := Bool.and_eq_true_iff.mp hLow
    exact .inl ⟨hUndecided, fun _ => ⟨by simpa using hRest, .inl (of_decide_eq_true hLess)⟩, _,
      (Option.some.inj h).symm⟩
  rename_i hHigh
  obtain ⟨closure, hClosure, hTaken⟩ := Option.map_eq_some_iff.mp h
  have hTokens : v.item.tokens + tokensOf closure = tokensOf (v.item :: closure) := by
    rw [tokensOf, tokensOf, List.map_cons, List.sum_cons]
  dsimp only at hTaken
  rw [hTokens] at hTaken
  split at hTaken
  · rename_i hNoFit
    obtain ⟨hRest, hExceeds⟩ := Bool.and_eq_true_iff.mp hNoFit
    exact .inl ⟨hUndecided, fun _ => ⟨by simpa using hRest,
      .inr ⟨fuel, closure, hClosure, by simpa using hExceeds⟩⟩, _, hTaken.symm⟩
  rename_i hFits
  refine .inr ⟨closure, _, hUndecided, hKeeps, hClosure, ?_, hTaken.symm⟩
  cases hMust : v.mustKeep with
  | true => exact .inl rfl
  | false =>
    simp only [hMust, Bool.not_false, Bool.true_and, decide_eq_true_eq, not_lt, Bool.not_eq_true,
      Bool.not_eq_false'] at hHigh hFits
    exact .inr ⟨hHigh, hFits⟩

theorem trySelect_cases (hIds : (items.map ContextItem.id).Nodup)
    (h : trySelect items score budget threshold fuel s v = some t) :
    v.item.id ∈ s.decided ∧ t = s ∨ PassesOver items budget threshold s t v ∨
      ∃ closure, TakesWith items budget threshold s t v closure := by
  obtain hDecided | hPasses | ⟨closure, category, hUndecided, hKeeps, hClosure, hTests, rfl⟩ :=
    trySelect_forms h
  · exact .inl hDecided
  · exact .inr (.inl hPasses)
  have hSpec := closureOf_spec hIds hClosure
  refine .inr (.inr ⟨closure, hUndecided, hKeeps, ⟨fuel, hClosure⟩, hSpec, hTests, ?_⟩)
  refine (Selection.takes_choose (marked budget s (v.item :: closure)) _).trans
    (Selection.takes_foldl hSpec.nodup fun dep hDep => ?_)
  obtain ⟨-, -, hNew, hOther⟩ := hSpec.present dep hDep
  rw [(Selection.takes_choose _ _).decided]
  rintro (hSame | hDecided)
  · exact hOther (List.mem_singleton.mp hSame)
  · exact hNew hDecided

theorem trySelect_fuel {n m : Nat} (h : closureOf items n s.decided v.item = closureOf items m s.decided v.item) :
    trySelect items score budget threshold n s v = trySelect items score budget threshold m s v := by
  rw [trySelect, trySelect, h]

theorem trySelect_mono {n m : Nat} (hLe : n ≤ m)
    (h : trySelect items score budget threshold n s v = some t) :
    trySelect items score budget threshold m s v = some t := by
  cases hClosure : closureOf items n s.decided v.item with
  | some closure => rw [trySelect_fuel ((closureOf_mono hLe hClosure).trans hClosure.symm), h]
  | none =>
    unfold trySelect at h ⊢
    rw [hClosure, Option.map_none] at h
    by_cases hDecided : v.item.id ∈ s.decided
    · rw [if_pos hDecided] at h ⊢
      exact h
    rw [if_neg hDecided] at h ⊢
    by_cases hStatus : (!v.item.keeps) = true
    · rw [if_pos hStatus] at h ⊢
      exact h
    rw [if_neg hStatus] at h ⊢
    obtain ⟨hLow, hSame⟩ := Option.ite_none_right_eq_some.mp h
    rw [if_pos hLow, hSame]

theorem exists_trySelect (items : List ContextItem) (score : ContextItem → ℚ) (budget : Option ℚ)
    (threshold : ℚ) (s : Selection) (v : Visit) :
    ∃ n t, trySelect items score budget threshold n s v = some t := by
  obtain ⟨n, closure, hClosure⟩ := exists_closureOf items s.decided v.item
  refine ⟨n, ?_⟩
  unfold trySelect
  rw [hClosure, Option.map_some]
  split
  · exact ⟨_, rfl⟩
  split
  · exact ⟨_, rfl⟩
  split
  · exact ⟨_, rfl⟩
  · exact ⟨_, rfl⟩

section Runs

def after (items : List ContextItem) (score : ContextItem → ℚ) (budget : Option ℚ) (threshold : ℚ)
    (fuel : Nat) (vs : List Visit) (s : Selection) : Option Selection :=
  vs.foldlM (trySelect items score budget threshold fuel) s

theorem after_cons {vs : List Visit} :
    after items score budget threshold fuel (v :: vs) s =
      (trySelect items score budget threshold fuel s v).bind (after items score budget threshold fuel vs) :=
  rfl

theorem after_append {vs us : List Visit} :
    after items score budget threshold fuel (vs ++ us) s =
      (after items score budget threshold fuel vs s).bind (after items score budget threshold fuel us) :=
  List.foldlM_append

theorem after_mono {n m : Nat} (hLe : n ≤ m) {vs : List Visit}
    (h : after items score budget threshold n vs s = some t) :
    after items score budget threshold m vs s = some t := by
  induction vs generalizing s with
  | nil => exact h
  | cons v vs ih =>
    rw [after_cons, Option.bind_eq_some_iff] at h ⊢
    obtain ⟨u, hVisit, hRest⟩ := h
    exact ⟨u, trySelect_mono hLe hVisit, ih hRest⟩

theorem exists_after (items : List ContextItem) (score : ContextItem → ℚ) (budget : Option ℚ)
    (threshold : ℚ) (vs : List Visit) (s : Selection) :
    ∃ n t, after items score budget threshold n vs s = some t := by
  induction vs generalizing s with
  | nil => exact ⟨0, s, rfl⟩
  | cons v vs ih =>
    obtain ⟨n, u, hVisit⟩ := exists_trySelect items score budget threshold s v
    obtain ⟨m, t, hRest⟩ := ih u
    refine ⟨max n m, t, ?_⟩
    rw [after_cons, Option.bind_eq_some_iff]
    exact ⟨u, trySelect_mono (Nat.le_max_left n m) hVisit, after_mono (Nat.le_max_right n m) hRest⟩

theorem after_invariant {P : Selection → Prop} {vs : List Visit}
    (hStep : ∀ v ∈ vs, ∀ s t, P s → trySelect items score budget threshold fuel s v = some t → P t)
    (hs : P s) (h : after items score budget threshold fuel vs s = some t) : P t := by
  induction vs generalizing s with
  | nil => exact Option.some.inj h ▸ hs
  | cons v vs ih =>
    obtain ⟨hFirst, hStep⟩ := List.forall_mem_cons.mp hStep
    rw [after_cons, Option.bind_eq_some_iff] at h
    obtain ⟨u, hVisit, hRest⟩ := h
    exact ih hStep (hFirst s u hs hVisit) hRest

end Runs

def Due (items : List ContextItem) (i : ContextItem) : Prop :=
  ∃ m ∈ items, categorizeContextItem m = .mustKeep ∧ (i = m ∨ KeepReaches items m i)

def OverByDue (items : List ContextItem) (budget : Option ℚ) (s : Selection) : Prop :=
  ∃ chosen, chosen <+: s.selected ∧ fits budget (tokensOf (chosen.map Chosen.item)) = false ∧
    ∀ c ∈ chosen, Due items c.item

structure Standing (items : List ContextItem) (budget : Option ℚ) (s : Selection) : Prop where
  decided : ∀ id, id ∈ s.decided ↔ id ∈ s.items.map ContextItem.id ∨ id ∈ s.omittedIds
  nodup : (s.items.map ContextItem.id ++ s.omittedIds).Nodup
  selected : ∀ i ∈ s.items, i ∈ items ∧ i.keeps = true
  omitted : s.omittedIds ⊆ items.map ContextItem.id
  used : s.usedTokens = tokensOf s.items
  within : s.overBudget = false → fits budget s.usedTokens = true
  exceeded : s.overBudget = true → OverByDue items budget s
  spared : ∀ i ∈ items, i.id ∈ s.omittedIds → i.keeps = true → categorizeContextItem i ≠ .mustKeep

def Proper (items : List ContextItem) (v : Visit) : Prop :=
  v.item ∈ items ∧ (v.mustKeep = true ↔ categorizeContextItem v.item = .mustKeep)

theorem Standing.passOver (h : Standing items budget s) (hv : Proper items v)
    (hOver : PassesOver items budget threshold s t v) (hIds : (items.map ContextItem.id).Nodup) : Standing items budget t := by
  obtain ⟨hUndecided, hLoop, reason, rfl⟩ := hOver
  have hOmitted : (s.passOver v reason).omittedIds = s.omittedIds ++ [v.item.id] := by
    simp [Selection.omittedIds, Selection.passOver]
  have hNew := mt (h.decided v.item.id).mpr hUndecided
  exact { h with
    decided := fun id => by
      rw [hOmitted, List.mem_append, List.mem_singleton]
      have := h.decided id
      simp only [Selection.passOver, Selection.items, List.mem_cons] at this ⊢
      tauto
    nodup := by
      rw [hOmitted, ← List.append_assoc]
      refine List.nodup_append.mpr ⟨h.nodup, List.nodup_singleton _, ?_⟩
      rintro id hId other hOther rfl
      rw [List.mem_singleton.mp hOther] at hId
      exact hNew (List.mem_append.mp hId)
    omitted := by
      rw [hOmitted]
      exact List.append_subset.mpr ⟨h.omitted,
        List.cons_subset.mpr ⟨List.mem_map_of_mem hv.1, List.nil_subset _⟩⟩
    spared := fun i hi hId hKeeps hMust => by
      rw [hOmitted, List.mem_append, List.mem_singleton] at hId
      obtain hId | hId := hId
      · exact h.spared i hi hId hKeeps hMust
      · obtain rfl := eq_of_id hIds hi hv.1 hId
        have hRest := hLoop hKeeps
        rw [hv.2.mpr hMust] at hRest
        cases hRest.1 }

section Take

variable {closure : List ContextItem}

theorem TakesWith.items_eq (h : TakesWith items budget threshold s t v closure) :
    t.items = s.items ++ v.item :: closure := h.takes.items

theorem TakesWith.omittedIds_eq (h : TakesWith items budget threshold s t v closure) :
    t.omittedIds = s.omittedIds := congrArg (List.map Omission.id) h.takes.omitted

theorem TakesWith.taken (h : TakesWith items budget threshold s t v closure) (hv : Proper items v) :
    (∀ i ∈ v.item :: closure, i ∈ items ∧ i.keeps = true ∧ i.id ∉ s.decided) ∧
      ((v.item :: closure).map ContextItem.id).Nodup := by
  constructor
  · intro i hi
    obtain rfl | hi := List.mem_cons.mp hi
    · exact ⟨hv.1, h.keeps, h.undecided⟩
    · obtain ⟨hMem, hKeeps, hNew, -⟩ := h.isClosure.present i hi
      exact ⟨hMem, hKeeps, hNew⟩
  · refine List.nodup_cons.mpr ⟨fun hSame => ?_, h.isClosure.nodup⟩
    obtain ⟨dep, hDep, hId⟩ := List.mem_map.mp hSame
    exact (h.isClosure.present dep hDep).2.2.2 hId

theorem TakesWith.due (h : TakesWith items budget threshold s t v closure) (hv : Proper items v)
    (hMust : v.mustKeep = true) (hDue : ∀ i ∈ s.items, Due items i) : ∀ i ∈ t.items, Due items i := by
  intro i hi
  rw [h.items_eq, List.mem_append, List.mem_cons] at hi
  obtain hi | rfl | hi := hi
  · exact hDue i hi
  · exact ⟨v.item, hv.1, hv.2.mp hMust, .inl rfl⟩
  · exact ⟨v.item, hv.1, hv.2.mp hMust, .inr (h.isClosure.reached i hi)⟩

theorem Standing.take (h : Standing items budget s) (hv : Proper items v)
    (hTakes : TakesWith items budget threshold s t v closure)
    (hDue : v.mustKeep = true → ∀ i ∈ s.items, Due items i) : Standing items budget t := by
  obtain ⟨hTaken, hNodup⟩ := hTakes.taken hv
  have hItems := hTakes.items_eq
  have hOmitted := hTakes.omittedIds_eq
  have hAfter := hTakes.takes
  have hUsed : t.usedTokens = s.usedTokens + tokensOf (v.item :: closure) := hAfter.used
  have hOver : t.overBudget =
    (s.overBudget || !fits budget (s.usedTokens + tokensOf (v.item :: closure))) := hAfter.overBudget
  have hTokens : t.usedTokens = tokensOf t.items := by
    rw [hUsed, h.used, hItems, tokensOf, tokensOf, tokensOf, List.map_append, List.sum_append]
  constructor
  · intro id
    have hBefore := h.decided id
    have hNow : id ∈ t.decided ↔ id ∈ (v.item :: closure).map ContextItem.id ∨ id ∈ s.decided :=
      hAfter.decided id
    rw [hNow, hItems, hOmitted, List.map_append, List.mem_append]
    tauto
  · rw [hItems, hOmitted, List.map_append]
    have hPerm : (s.items.map ContextItem.id ++ (v.item :: closure).map ContextItem.id ++
        s.omittedIds).Perm
        (s.items.map ContextItem.id ++ s.omittedIds ++ (v.item :: closure).map ContextItem.id) := by
      rw [List.append_assoc, List.append_assoc]
      exact List.perm_append_comm.append_left _
    rw [hPerm.nodup_iff]
    refine List.nodup_append.mpr ⟨h.nodup, hNodup, ?_⟩
    rintro id hId other hOther rfl
    obtain ⟨i, hi, rfl⟩ := List.mem_map.mp hOther
    exact (hTaken i hi).2.2 ((h.decided i.id).mpr (List.mem_append.mp hId))
  · intro i hi
    rw [hItems, List.mem_append] at hi
    obtain hi | hi := hi
    · exact h.selected i hi
    · exact ⟨(hTaken i hi).1, (hTaken i hi).2.1⟩
  · rw [hOmitted]
    exact h.omitted
  · exact hTokens
  · intro hWithin
    rw [hOver, Bool.or_eq_false_iff, Bool.not_eq_false'] at hWithin
    rw [hUsed]
    exact hWithin.2
  · intro hExceeded
    rw [hOver, Bool.or_eq_true_iff, Bool.not_eq_true'] at hExceeded
    obtain hBefore | hNow := hExceeded
    · obtain ⟨chosen, hPrefix, hWhy⟩ := h.exceeded hBefore
      exact ⟨chosen, hPrefix.trans hAfter.selected, hWhy⟩
    · have hMust : v.mustKeep = true := hTakes.tests.resolve_right fun hFits => by
        rw [hNow] at hFits
        cases hFits.2
      refine ⟨t.selected, List.prefix_refl _, ?_, fun c hc => ?_⟩
      · rw [← hUsed, hTokens] at hNow
        exact hNow
      · exact hTakes.due hv hMust (hDue hMust) c.item (List.mem_map_of_mem hc)
  · intro i hi hId
    rw [hOmitted] at hId
    exact h.spared i hi hId

end Take

theorem standing_empty (items : List ContextItem) (budget : Option ℚ)
    (hBudget : fits budget 0 = true) : Standing items budget .empty where
  decided id := by simp [Selection.empty, Selection.items, Selection.omittedIds]
  nodup := List.nodup_nil
  selected i hi := by cases hi
  omitted := List.nil_subset _
  used := rfl
  within _ := hBudget
  exceeded h := by cases h
  spared i _ hId := by cases hId

/-- A visit keeps the standing, and while the first loop runs, all that is selected is due. -/
theorem Standing.visit (hIds : (items.map ContextItem.id).Nodup) (h : Standing items budget s)
    (hv : Proper items v) (hDue : v.mustKeep = true → ∀ i ∈ s.items, Due items i)
    (hVisit : trySelect items score budget threshold fuel s v = some t) :
    Standing items budget t ∧ (v.mustKeep = true → ∀ i ∈ t.items, Due items i) := by
  obtain ⟨-, rfl⟩ | hOver | ⟨closure, hTakes⟩ := trySelect_cases hIds hVisit
  · exact ⟨h, hDue⟩
  · refine ⟨h.passOver hv hOver hIds, ?_⟩
    obtain ⟨-, -, reason, rfl⟩ := hOver
    exact hDue
  · exact ⟨h.take hv hTakes hDue, fun hMust => hTakes.due hv hMust (hDue hMust)⟩

theorem visit_grows (hIds : (items.map ContextItem.id).Nodup)
    (hVisit : trySelect items score budget threshold fuel s v = some t) :
    s.items ⊆ t.items ∧ s.omittedIds ⊆ t.omittedIds ∧ s.decided ⊆ t.decided ∧ v.item.id ∈ t.decided := by
  obtain ⟨hDecided, rfl⟩ | ⟨-, -, reason, rfl⟩ | ⟨closure, hTakes⟩ := trySelect_cases hIds hVisit
  · exact ⟨List.Subset.refl _, List.Subset.refl _, List.Subset.refl _, hDecided⟩
  · refine ⟨List.Subset.refl _, ?_, List.subset_cons_self _ _, List.mem_cons_self⟩
    simp [Selection.omittedIds, Selection.passOver]
  · rw [hTakes.items_eq, hTakes.omittedIds_eq]
    have hNow (id : String) : id ∈ t.decided ↔
        id ∈ (v.item :: closure).map ContextItem.id ∨ id ∈ s.decided := hTakes.takes.decided id
    refine ⟨List.subset_append_left _ _, List.Subset.refl _, fun id hId => (hNow id).mpr (.inr hId), ?_⟩
    exact (hNow _).mpr (.inl List.mem_cons_self)

theorem after_grows (hIds : (items.map ContextItem.id).Nodup) {vs : List Visit}
    (h : after items score budget threshold fuel vs s = some t) :
    s.items ⊆ t.items ∧ s.omittedIds ⊆ t.omittedIds ∧ s.decided ⊆ t.decided ∧
      ∀ v ∈ vs, v.item.id ∈ t.decided := by
  induction vs generalizing s with
  | nil =>
    obtain rfl := Option.some.inj h
    exact ⟨List.Subset.refl _, List.Subset.refl _, List.Subset.refl _, fun v hv => by cases hv⟩
  | cons v vs ih =>
    rw [after_cons, Option.bind_eq_some_iff] at h
    obtain ⟨u, hVisit, hRest⟩ := h
    obtain ⟨hItems, hOmitted, hDecided, hVisited⟩ := visit_grows hIds hVisit
    obtain ⟨hItems', hOmitted', hDecided', hAll⟩ := ih hRest
    refine ⟨List.Subset.trans hItems hItems', List.Subset.trans hOmitted hOmitted',
      List.Subset.trans hDecided hDecided', ?_⟩
    exact List.forall_mem_cons.mpr ⟨hDecided' hVisited, hAll⟩

def Detaches (items : List ContextItem) (budget : Option ℚ) (threshold : ℚ) (s : Selection)
    (v : Visit) : Prop :=
  v.item.id ∉ s.decided ∧ v.item.keeps = true ∧
    (v.mustKeep = true ∨ threshold ≤ v.score ∧ FitsWith items budget s v true) ∧
    ∃ dep, KeepReaches items v.item dep ∧ dep.id ∈ s.omittedIds

def ClosedSelection (items : List ContextItem) (s : Selection) : Prop :=
  ∀ a ∈ s.items, ∀ b, KeepReaches items a b → b ∈ s.items

theorem closed_of_steps (h : ∀ a ∈ s.items, ∀ b, KeepStep items a b → b ∈ s.items) :
    ClosedSelection items s := by
  intro a ha b hReach
  induction hReach with
  | single hStep => exact h a ha _ hStep
  | tail _ hStep ih => exact h _ ih _ hStep

theorem taken_of_detaches (hIds : (items.map ContextItem.id).Nodup)
    (h : Detaches items budget threshold s v)
    (hVisit : trySelect items score budget threshold fuel s v = some t) : v.item ∈ t.items := by
  obtain ⟨hUndecided, hKeeps, hTests, -⟩ := h
  obtain ⟨hDecided, -⟩ | hOver | ⟨closure, hTakes⟩ := trySelect_cases hIds hVisit
  · exact absurd hDecided hUndecided
  · exfalso
    obtain ⟨hRest, hWhy⟩ := hOver.why hKeeps
    obtain hMust | ⟨hScore, hFits⟩ := hTests
    · rw [hRest] at hMust
      cases hMust
    · obtain hLow | hNoFit := hWhy
      · exact absurd hScore (not_le.mpr hLow)
      · cases hFits.unique hNoFit
  · rw [hTakes.items_eq]
    exact List.mem_append_right _ List.mem_cons_self

theorem ClosedSelection.visit (hIds : (items.map ContextItem.id).Nodup) (hStands : Standing items budget s)
    (hv : Proper items v) (hClosed : ClosedSelection items s) (hNot : ¬ Detaches items budget threshold s v)
    (hVisit : trySelect items score budget threshold fuel s v = some t) : ClosedSelection items t := by
  obtain ⟨-, rfl⟩ | hOver | ⟨closure, hTakes⟩ := trySelect_cases hIds hVisit
  · exact hClosed
  · obtain ⟨reason, rfl⟩ := hOver.passes
    exact hClosed
  · apply closed_of_steps
    intro a ha b hStep
    rw [hTakes.items_eq, List.mem_append] at ha ⊢
    obtain hBefore | hTaken := ha
    · exact .inl (hClosed a hBefore b (.single hStep))
    · rw [List.mem_cons] at hTaken ⊢
      obtain hSame | hDecided | hClosure := hTakes.isClosure.closed a hTaken b hStep
      · exact .inr (.inl (eq_of_id hIds hStep.1 hv.1 hSame))
      · obtain hSelected | hOmitted := (hStands.decided b.id).mp hDecided
        · obtain ⟨i, hi, hId⟩ := List.mem_map.mp hSelected
          rw [← eq_of_id hIds (hStands.selected i hi).1 hStep.1 hId]
          exact .inl hi
        · obtain ⟨n, hRun⟩ := hTakes.isRun
          refine absurd ⟨hTakes.undecided, hTakes.keeps, ?_, b, ?_, hOmitted⟩ hNot
          · exact hTakes.tests.imp_right fun hTests => ⟨hTests.1, n, closure, hRun, hTests.2⟩
          · obtain rfl | ha := hTaken
            · exact .single hStep
            · exact .tail (hTakes.isClosure.reached a ha) hStep
      · exact .inr (.inr hClosure)

section Visits

variable (localeCompare : String → String → Ordering) (items score)

theorem mem_visits {v : Visit} : v ∈ visits localeCompare items score ↔
    v.item ∈ items ∧ v.score = score v.item ∧
      v.mustKeep = decide (categorizeContextItem v.item = .mustKeep) := by
  obtain ⟨item, itemScore, mustKeep⟩ := v
  simp only [visits, List.mem_append, List.mem_map, List.mem_filter, ComparatorSort.mem_sortBy,
    Visit.mk.injEq, decide_eq_true_eq]
  constructor
  · rintro (⟨e, ⟨⟨i, hi, rfl⟩, hMust⟩, rfl, rfl, rfl⟩ | ⟨e, ⟨⟨i, hi, rfl⟩, hRest⟩, rfl, rfl, rfl⟩)
    · exact ⟨hi, rfl, (decide_eq_true hMust).symm⟩
    · exact ⟨hi, rfl, (decide_eq_false hRest).symm⟩
  · rintro ⟨hi, rfl, hLoop⟩
    by_cases hMust : categorizeContextItem item = .mustKeep
    · exact .inl ⟨_, ⟨⟨item, hi, rfl⟩, hMust⟩, rfl, rfl, (hLoop.trans (decide_eq_true hMust)).symm⟩
    · exact .inr ⟨_, ⟨⟨item, hi, rfl⟩, hMust⟩, rfl, rfl, (hLoop.trans (decide_eq_false hMust)).symm⟩

theorem visits_ordered :
    (visits localeCompare items score).Pairwise fun u v => v.mustKeep = true → u.mustKeep = true := by
  rw [visits, List.pairwise_append]
  refine ⟨List.pairwise_map.mpr (List.pairwise_of_forall fun _ _ _ => rfl),
    List.pairwise_map.mpr (List.pairwise_of_forall fun _ _ h => h), fun u hu v _ _ => ?_⟩
  obtain ⟨e, -, rfl⟩ := List.mem_map.mp hu
  rfl

variable {localeCompare items score}

theorem proper_of_mem {v : Visit} (h : v ∈ visits localeCompare items score) : Proper items v := by
  obtain ⟨hItem, -, hMust⟩ := (mem_visits items score localeCompare).mp h
  exact ⟨hItem, by rw [hMust, decide_eq_true_eq]⟩

theorem standing_run (hIds : (items.map ContextItem.id).Nodup) {vs : List Visit}
    (hProper : ∀ v ∈ vs, Proper items v)
    (hOrder : vs.Pairwise fun u v => v.mustKeep = true → u.mustKeep = true)
    (hs : Standing items budget s)
    (hDue : ∀ v ∈ vs, v.mustKeep = true → ∀ i ∈ s.items, Due items i)
    (h : after items score budget threshold fuel vs s = some t) : Standing items budget t := by
  induction vs generalizing s with
  | nil => exact Option.some.inj h ▸ hs
  | cons v vs ih =>
    obtain ⟨hFirst, hProper⟩ := List.forall_mem_cons.mp hProper
    obtain ⟨hBefore, hOrder⟩ := List.pairwise_cons.mp hOrder
    rw [after_cons, Option.bind_eq_some_iff] at h
    obtain ⟨u, hVisit, hRest⟩ := h
    obtain ⟨hStands, hNow⟩ := hs.visit hIds hFirst (hDue v List.mem_cons_self) hVisit
    exact ih hProper hOrder hStands (fun w hw hMust => hNow (hBefore w hw hMust)) hRest

theorem standing_after (hIds : (items.map ContextItem.id).Nodup) (hBudget : fits budget 0 = true)
    {before : List Visit} (hPrefix : before <+: visits localeCompare items score)
    (h : after items score budget threshold fuel before .empty = some s) : Standing items budget s := by
  apply standing_run hIds _ ((visits_ordered items score localeCompare).sublist hPrefix.sublist)
    (standing_empty items budget hBudget) _ h
  · exact fun v hv => proper_of_mem (hPrefix.subset hv)
  · intro v _ _ i hi
    cases hi

end Visits

structure SelectsWell (items : List ContextItem) (budget : Option ℚ) (s : Selection) : Prop where
  /-- Every item is selected or omitted, once. -/
  partition : (s.items.map ContextItem.id ++ s.omittedIds).Perm (items.map ContextItem.id)
  selected : ∀ i ∈ s.items, i ∈ items
  used : s.usedTokens = tokensOf s.items
  within : s.overBudget = false → ∀ b ∈ budget, s.usedTokens ≤ b
  exceeded : s.overBudget = true → OverByDue items budget s
  must : ∀ i ∈ items, i.keeps = true → categorizeContextItem i = .mustKeep → i ∈ s.items
  closed : ClosedSelection items s

def NeverDetaches (localeCompare : String → String → Ordering) (items : List ContextItem)
    (opts : SelectOptions) : Prop :=
  ∀ before v later, visits localeCompare items (opts.score items) = before ++ v :: later →
    ∀ n s, after items (opts.score items) opts.budget opts.threshold n before .empty = some s →
      ¬ Detaches items opts.budget opts.threshold s v

variable {localeCompare : String → String → Ordering} {opts : SelectOptions}

theorem fits_iff {tokens : ℚ} : fits budget tokens = true ↔ ∀ b ∈ budget, tokens ≤ b := by
  cases budget <;> simp [fits]

theorem fits_zero (opts : SelectOptions) : fits opts.budget 0 = true := by
  rw [fits_iff]
  intro b hb
  exact le_of_lt (of_decide_eq_true (Option.mem_filter_iff.mp hb).2)

theorem selectsWell_iff (hIds : (items.map ContextItem.id).Nodup)
    (h : selectContext localeCompare fuel items opts = some s) :
    SelectsWell items opts.budget s ↔ ClosedSelection items s := by
  refine ⟨SelectsWell.closed, fun hClosed => ?_⟩
  have hStands := standing_after hIds (fits_zero opts) (List.prefix_refl _) h
  have hDecided (i : ContextItem) (hi : i ∈ items) : i.id ∈ s.decided := by
    have hVisit : ⟨i, opts.score items i, decide (categorizeContextItem i = .mustKeep)⟩ ∈
        visits localeCompare items (opts.score items) := (mem_visits _ _ _).mpr ⟨hi, rfl, rfl⟩
    exact (after_grows hIds h).2.2.2 _ hVisit
  constructor
  · rw [List.perm_ext_iff_of_nodup hStands.nodup hIds]
    intro id
    rw [List.mem_append]
    constructor
    · rintro (hSelected | hOmitted)
      · obtain ⟨i, hi, rfl⟩ := List.mem_map.mp hSelected
        exact List.mem_map_of_mem (hStands.selected i hi).1
      · exact hStands.omitted hOmitted
    · intro hId
      obtain ⟨i, hi, rfl⟩ := List.mem_map.mp hId
      exact (hStands.decided i.id).mp (hDecided i hi)
  · exact fun i hi => (hStands.selected i hi).1
  · exact hStands.used
  · exact fun hWithin => fits_iff.mp (hStands.within hWithin)
  · exact hStands.exceeded
  · intro i hi hKeeps hMust
    obtain hSelected | hOmitted := (hStands.decided i.id).mp (hDecided i hi)
    · obtain ⟨j, hj, hId⟩ := List.mem_map.mp hSelected
      rw [← eq_of_id hIds (hStands.selected j hj).1 hi hId]
      exact hj
    · exact absurd hMust (hStands.spared i hi hOmitted hKeeps)
  · exact hClosed

theorem closedSelection_iff (hIds : (items.map ContextItem.id).Nodup)
    (h : selectContext localeCompare fuel items opts = some s) :
    ClosedSelection items s ↔ NeverDetaches localeCompare items opts := by
  constructor
  · rintro hClosed before v later hVisits n u hBefore hDetaches
    have hStands := standing_after hIds (fits_zero opts) (List.prefix_refl _) h
    have hWhole : after items (opts.score items) opts.budget opts.threshold (max fuel n)
        (before ++ v :: later) .empty = some s := hVisits ▸ after_mono (Nat.le_max_left fuel n) h
    rw [after_append, after_mono (Nat.le_max_right fuel n) hBefore, Option.bind_some, after_cons,
      Option.bind_eq_some_iff] at hWhole
    obtain ⟨t, hVisit, hLater⟩ := hWhole
    have hTaken := (after_grows hIds hLater).1 (taken_of_detaches hIds hDetaches hVisit)
    obtain ⟨-, -, -, dep, hReach, hOmitted⟩ := hDetaches
    have hStill := (after_grows hIds hLater).2.1 ((visit_grows hIds hVisit).2.1 hOmitted)
    have hSelected := List.mem_map_of_mem (f := ContextItem.id) (hClosed _ hTaken dep hReach)
    exact (List.nodup_append.mp hStands.nodup).2.2 _ hSelected _ hStill rfl
  · intro hNever
    have hPrefix (before : List Visit) : ∀ later u,
        visits localeCompare items (opts.score items) = before ++ later →
        after items (opts.score items) opts.budget opts.threshold fuel before .empty = some u →
        ClosedSelection items u := by
      induction before using List.reverseRecOn with
      | nil =>
        intro later u _ hStart
        obtain rfl := Option.some.inj hStart
        exact closed_of_steps fun a ha => by cases ha
      | append_singleton before v ih =>
        intro later u hVisits hAfter
        rw [List.append_assoc] at hVisits
        rw [after_append, Option.bind_eq_some_iff] at hAfter
        obtain ⟨t, hBefore, hVisit⟩ := hAfter
        rw [after_cons, Option.bind_eq_some_iff] at hVisit
        obtain ⟨u', hVisit, hEnd⟩ := hVisit
        obtain rfl := Option.some.inj hEnd
        have hMem : v ∈ visits localeCompare items (opts.score items) := by
          rw [hVisits]
          exact List.mem_append_right _ List.mem_cons_self
        exact (ih _ t hVisits hBefore).visit hIds
          (standing_after hIds (fits_zero opts) ⟨_, hVisits.symm⟩ hBefore)
          (proper_of_mem hMem) (hNever before v later hVisits fuel t hBefore) hVisit
    exact hPrefix _ [] s (List.append_nil _).symm h

theorem exists_selectContext (localeCompare : String → String → Ordering) (items : List ContextItem)
    (opts : SelectOptions) : ∃ n s, ∀ m, n ≤ m → selectContext localeCompare m items opts = some s := by
  obtain ⟨n, s, h⟩ := exists_after items (opts.score items) opts.budget opts.threshold
    (visits localeCompare items (opts.score items)) .empty
  exact ⟨n, s, fun m hLe => after_mono hLe h⟩

theorem selectContext_iff (localeCompare : String → String → Ordering) (items : List ContextItem)
    (opts : SelectOptions) (hIds : (items.map ContextItem.id).Nodup) :
    (∃ n s, (∀ m, n ≤ m → selectContext localeCompare m items opts = some s) ∧
      SelectsWell items opts.budget s) ↔ NeverDetaches localeCompare items opts := by
  obtain ⟨n, s, h⟩ := exists_selectContext localeCompare items opts
  constructor
  · rintro ⟨m, t, hRun, hWell⟩
    exact (closedSelection_iff hIds (hRun m (Nat.le_refl m))).mp hWell.closed
  · intro hNever
    have hRun := h n (Nat.le_refl n)
    exact ⟨n, s, h, (selectsWell_iff hIds hRun).mpr ((closedSelection_iff hIds hRun).mpr hNever)⟩

theorem SelectsWell.mem_of_id (h : SelectsWell items budget s) (hIds : (items.map ContextItem.id).Nodup)
    {i : ContextItem} (hi : i ∈ items) (hId : i.id ∈ s.items.map ContextItem.id) : i ∈ s.items := by
  obtain ⟨j, hj, hSame⟩ := List.mem_map.mp hId
  exact eq_of_id hIds (h.selected j hj) hi hSame ▸ hj

def fileItem (id : String) (tokens relevance : ℚ) (needs : List String) : ContextItem where
  id := id
  kind := some "file".toList
  title := some id.toList
  source := "workspace".toList
  tokens := tokens
  relevance := some relevance
  status := some "KEEP".toList
  content := []
  importance := none
  dependencies := some needs
  createdAt := none
  isProtected := false
  contextCategory := []
  metadata := ⟨[], [], [], false, false, [], none, none, none⟩

def plainOptions (tokenBudget : ℚ) : SelectOptions :=
  ⟨some tokenBudget, none, ⟨[], [], "general", defaultWeights, [], 0, []⟩⟩

def bigAndSmall : List ContextItem := [fileItem "big" 100 0.9 [], fileItem "small" 5 0.5 ["big"]]

theorem selectContext_iff_bigAndSmall :
    (bigAndSmall.map ContextItem.id).Nodup ∧
      ((∃ n s, (∀ m, n ≤ m → selectContext compare m bigAndSmall (plainOptions 10) = some s) ∧
        SelectsWell bigAndSmall (plainOptions 10).budget s) ↔
      NeverDetaches compare bigAndSmall (plainOptions 10)) :=
  ⟨by decide, selectContext_iff compare bigAndSmall (plainOptions 10) (by decide)⟩

theorem small_without_big :
    ¬ ∃ n s, (∀ m, n ≤ m → selectContext compare m bigAndSmall (plainOptions 10) = some s) ∧
      SelectsWell bigAndSmall (plainOptions 10).budget s := by
  rintro ⟨n, s, hRun, hWell⟩
  have hIds : (selectContext compare 3 bigAndSmall (plainOptions 10)).map
      (fun s => s.items.map ContextItem.id) = some ["small"] := by decide +kernel
  obtain ⟨t, hSelect, hItems⟩ := Option.map_eq_some_iff.mp hIds
  obtain rfl : t = s := Option.some.inj ((after_mono (Nat.le_max_right n 3) hSelect).symm.trans
    (hRun _ (Nat.le_max_left n 3)))
  have hSmall : fileItem "small" 5 0.5 ["big"] ∈ t.items :=
    hWell.mem_of_id (by decide) (List.mem_cons_of_mem _ List.mem_cons_self)
      (hItems ▸ List.mem_cons_self)
  have hBig := hWell.closed _ hSmall (fileItem "big" 100 0.9 [])
    (.single ⟨List.mem_cons_self, List.mem_cons_self, by decide⟩)
  have hId := List.mem_map_of_mem (f := ContextItem.id) hBig
  rw [hItems] at hId
  exact absurd hId (by decide)

end OrchestraAI.Context
