import OrchestraAI.Context.Manager
import OrchestraAI.Context.SelectionClosure

/-! # Protected items

Protected items are never compressed. Those that have to be kept are selected whatever the budget is;
those that only a flag protects are selected by their score, as they are.
-/

namespace OrchestraAI.Context

open LabelledSystem

variable {items : List ContextItem} {score : ContextItem → ℚ} {budget : Option ℚ} {threshold : ℚ}
  {s t : Selection} {v : Visit} {fuel : Nat} {i : ContextItem}

def OwnId (items : List ContextItem) (i : ContextItem) : Prop := ∀ j ∈ items, j.id = i.id → j = i

def Sure (i : ContextItem) (s : Selection) : Prop := i.id ∈ s.decided → i ∈ s.items

theorem Sure.choose (h : Sure i s) {c : Chosen} (hSame : c.item.id = i.id → c.item = i) :
    Sure i (s.choose c) := by
  intro hDecided
  rw [Selection.items_choose, List.mem_append]
  obtain hId | hBefore := List.mem_cons.mp hDecided
  · exact .inr (List.mem_singleton.mpr (hSame hId.symm).symm)
  · exact .inl (h hBefore)

theorem Sure.chooseDeps (h : Sure i s) {mustKeep : Bool} {closure : List ContextItem}
    (hSame : ∀ dep ∈ closure, dep.id = i.id → dep = i) :
    Sure i (closure.foldl (Selection.chooseDep score mustKeep) s) := by
  induction closure generalizing s with
  | nil => exact h
  | cons dep closure ih =>
    obtain ⟨hDep, hSame⟩ := List.forall_mem_cons.mp hSame
    refine ih ?_ hSame
    rw [Selection.chooseDep]
    split
    · exact h
    · exact h.choose hDep

theorem Sure.visit (hOwn : OwnId items i) (hKeeps : i.keeps = true)
    (hMust : categorizeContextItem i = .mustKeep) (hv : Proper items v) (h : Sure i s)
    (hVisit : trySelect items score budget threshold fuel s v = some t) : Sure i t := by
  obtain ⟨-, rfl⟩ | hPasses | ⟨closure, category, -, -, hClosure, -, rfl⟩ := trySelect_forms hVisit
  · exact h
  · obtain ⟨reason, rfl⟩ := hPasses.passes
    intro hDecided
    obtain hId | hBefore := List.mem_cons.mp hDecided
    · -- an item that has to be kept is not passed over
      obtain rfl := hOwn v.item hv.1 hId.symm
      obtain ⟨hRest, -⟩ := hPasses.why hKeeps
      rw [hv.2.mpr hMust] at hRest
      cases hRest
    · exact h hBefore
  · have hMarked : Sure i (marked budget s (v.item :: closure)) := h
    apply Sure.chooseDeps
    · exact hMarked.choose (hOwn v.item hv.1)
    · exact fun dep hDep => hOwn dep (closureOf_present hClosure dep hDep).1

theorem chooseDeps_decided (score : ContextItem → ℚ) (mustKeep : Bool) (closure : List ContextItem)
    (s : Selection) : s.decided ⊆ (closure.foldl (Selection.chooseDep score mustKeep) s).decided := by
  induction closure generalizing s with
  | nil => exact List.Subset.refl _
  | cons dep closure ih =>
    refine List.Subset.trans ?_ (ih _)
    rw [Selection.chooseDep]
    split
    · exact List.Subset.refl _
    · exact List.subset_cons_self _ _

theorem mem_chooseDeps {mustKeep : Bool} {closure : List ContextItem}
    (h : i ∈ (closure.foldl (Selection.chooseDep score mustKeep) s).items) : i ∈ s.items ∨ i ∈ closure := by
  induction closure generalizing s with
  | nil => exact .inl h
  | cons dep closure ih =>
    obtain h | h := ih h
    · rw [Selection.chooseDep] at h
      split at h
      · exact .inl h
      · rw [Selection.items_choose, List.mem_append, List.mem_singleton] at h
        obtain h | rfl := h
        · exact .inl h
        · exact .inr List.mem_cons_self
    · exact .inr (List.mem_cons_of_mem _ h)

theorem selected_keeps {localeCompare : String → String → Ordering} {opts : SelectOptions}
    (h : selectContext localeCompare fuel items opts = some s) : ∀ i ∈ s.items, i.keeps = true := by
  refine after_invariant (P := fun s => ∀ i ∈ s.items, i.keeps = true) (fun v _ s t hs hVisit => ?_) ?_ h
  · obtain ⟨-, rfl⟩ | hPasses | ⟨closure, category, -, hKeeps, hClosure, -, rfl⟩ := trySelect_forms hVisit
    · exact hs
    · obtain ⟨reason, rfl⟩ := hPasses.passes
      exact hs
    · intro i hi
      obtain hi | hi := mem_chooseDeps hi
      · rw [Selection.items_choose, List.mem_append, List.mem_singleton] at hi
        obtain hi | rfl := hi
        · exact hs i hi
        · exact hKeeps
      · exact (closureOf_present hClosure i hi).2
  · intro i hi
    cases hi

theorem decided_visit (hVisit : trySelect items score budget threshold fuel s v = some t) :
    v.item.id ∈ t.decided ∧ s.decided ⊆ t.decided := by
  obtain ⟨hDecided, rfl⟩ | hPasses | ⟨closure, category, -, -, -, -, rfl⟩ := trySelect_forms hVisit
  · exact ⟨hDecided, List.Subset.refl _⟩
  · obtain ⟨reason, rfl⟩ := hPasses.passes
    exact ⟨List.mem_cons_self, List.subset_cons_self _ _⟩
  · have hDeps := chooseDeps_decided score v.mustKeep closure
      ((marked budget s (v.item :: closure)).choose ⟨v.item, v.score, category, false⟩)
    exact ⟨hDeps List.mem_cons_self, fun id hId => hDeps (List.mem_cons_of_mem _ hId)⟩

theorem decided_after {vs : List Visit}
    (h : after items score budget threshold fuel vs s = some t) :
    s.decided ⊆ t.decided ∧ ∀ v ∈ vs, v.item.id ∈ t.decided := by
  induction vs generalizing s with
  | nil =>
    obtain rfl := Option.some.inj h
    exact ⟨List.Subset.refl _, fun v hv => by cases hv⟩
  | cons v vs ih =>
    rw [after_cons, Option.bind_eq_some_iff] at h
    obtain ⟨u, hVisit, hRest⟩ := h
    obtain ⟨hNow, hGrows⟩ := decided_visit hVisit
    obtain ⟨hLater, hAll⟩ := ih hRest
    exact ⟨List.Subset.trans hGrows hLater, List.forall_mem_cons.mpr ⟨hLater hNow, hAll⟩⟩

theorem mustKeep_selected {localeCompare : String → String → Ordering} {opts : SelectOptions}
    (hi : i ∈ items) (hOwn : OwnId items i) (hKeeps : i.keeps = true)
    (hMust : categorizeContextItem i = .mustKeep)
    (h : selectContext localeCompare fuel items opts = some s) : i ∈ s.items := by
  have hSure : Sure i s := by
    refine after_invariant (fun v hv _ _ hSure hVisit => ?_) ?_ h
    · exact hSure.visit hOwn hKeeps hMust (proper_of_mem hv) hVisit
    · intro hDecided
      cases hDecided
  have hVisit : ⟨i, opts.score items i, decide (categorizeContextItem i = .mustKeep)⟩ ∈
      visits localeCompare items (opts.score items) := (mem_visits _ _ _).mpr ⟨hi, rfl, rfl⟩
  exact hSure ((decided_after h).2 _ hVisit)

/-- Named MUST_KEEP, or recognised without a flag and named to be of no other category. -/
def PlainlyProtected (i : ContextItem) : Prop :=
  explicitCategory i = some .mustKeep ∨
    isProtectedKind i = true ∧
      (i.isProtected = false ∧ i.metadata.isProtected = false ∧ i.metadata.neverCompress = false) ∧
      ∀ category ∈ explicitCategory i, category = .neverCompress

theorem isProtectedCategoryItem_of_unflagged
    (h : i.metadata.isProtected = false ∧ i.metadata.neverCompress = false) :
    isProtectedCategoryItem i = isProtectedContextItem i := by
  simp [isProtectedCategoryItem, isProtectedContextItem, h]

theorem PlainlyProtected.mustKeep (h : PlainlyProtected i) : categorizeContextItem i = .mustKeep := by
  rw [categorizeContextItem]
  obtain hNamed | ⟨hKind, ⟨hTop, hProtected, hNever⟩, hNamed⟩ := h
  · rw [hNamed]
    rfl
  · have hCategory : isProtectedCategoryItem i = true := by
      simp [isProtectedCategoryItem, hTop, hProtected, hNever, hKind]
    cases hExplicit : explicitCategory i with
    | none => simp [hTop, hProtected, hNever, hCategory]
    | some category =>
      obtain rfl := hNamed category hExplicit
      simp [hCategory]

theorem neverCompress_of_flag (h : explicitCategory i = none)
    (hFlag : i.isProtected = true ∨ i.metadata.isProtected = true ∨ i.metadata.neverCompress = true) :
    categorizeContextItem i = .neverCompress := by
  rw [categorizeContextItem, h]
  obtain hFlag | hFlag | hFlag := hFlag <;> simp [hFlag]

theorem protected_iff_category (h : explicitCategory i = none) :
    isProtectedContextItem i = true ↔
      categorizeContextItem i = .mustKeep ∨ categorizeContextItem i = .neverCompress := by
  by_cases hFlag : i.isProtected = true ∨ i.metadata.isProtected = true ∨ i.metadata.neverCompress = true
  · have hProtected : isProtectedContextItem i = true := by
      obtain hFlag | hFlag | hFlag := hFlag <;> simp [isProtectedContextItem, hFlag]
    exact iff_of_true hProtected (.inr (neverCompress_of_flag h hFlag))
  · simp only [not_or, Bool.not_eq_true] at hFlag
    obtain ⟨hTop, hProtected, hNever⟩ := hFlag
    rw [categorizeContextItem, h]
    cases hKind : isProtectedKind i with
    | true => simp [isProtectedContextItem, isProtectedCategoryItem, hTop, hProtected, hNever, hKind]
    | false =>
      simp only [isProtectedContextItem, isProtectedCategoryItem, hTop, hProtected, hNever, hKind]
      cases i.relevance.any fun relevance => 0.7 ≤ relevance <;> simp

section Compression

variable {config : ManagerConfig} {view : TaskView} {c : ContextState}

theorem candidates_spec {e : ContextItem × Nat} (h : e ∈ candidates c view) :
    c.contextItems[e.2]? = some e.1 ∧ isProtectedContextItem e.1 = false := by
  obtain ⟨hMem, hFree⟩ := List.mem_filter.mp h
  obtain ⟨e', hSorted, rfl⟩ := List.mem_map.mp hMem
  obtain ⟨e'', hKept, rfl⟩ := List.mem_map.mp ((ComparatorSort.mem_sortBy _).mp hSorted)
  obtain ⟨hPlace, -⟩ := List.mem_filter.mp hKept
  rw [Bool.and_eq_true_iff, Bool.not_eq_true'] at hFree
  exact ⟨List.mem_zipIdx_iff_getElem?.mp hPlace, hFree.1⟩

/-- Another item takes the place of an item that is not `i`. -/
def Alters (i x y : ContextItem) : Prop :=
  y = x ∨ x.id ≠ i.id ∧ y.id = x.id ∧ isProtectedContextItem y = isProtectedContextItem x

def Altered (i : ContextItem) : List ContextItem → List ContextItem → Prop := List.Forall₂ (Alters i)

theorem Altered.refl (i : ContextItem) (l : List ContextItem) : Altered i l l := by
  induction l with
  | nil => exact .nil
  | cons x l ih => exact .cons (.inl rfl) ih

theorem Altered.trans {k l m : List ContextItem} (h : Altered i k l) (h' : Altered i l m) :
    Altered i k m := by
  induction h generalizing m with
  | nil => exact h'
  | cons hFirst _ ih =>
    cases h' with
    | cons hSecond hRest =>
      refine .cons ?_ (ih hRest)
      obtain rfl | ⟨hOther, hId, hSame⟩ := hFirst
      · exact hSecond
      · obtain rfl | ⟨-, hId', hSame'⟩ := hSecond
        · exact .inr ⟨hOther, hId, hSame⟩
        · exact .inr ⟨hOther, hId'.trans hId, hSame'.trans hSame⟩

theorem altered_set {l : List ContextItem} {n : Nat} {x y : ContextItem} (hx : l[n]? = some x)
    (hAlters : Alters i x y) : Altered i l (l.set n y) := by
  induction l generalizing n with
  | nil => exact .nil
  | cons z l ih =>
    cases n with
    | zero =>
      obtain rfl := Option.some.inj hx
      exact .cons hAlters (Altered.refl i l)
    | succ n => exact .cons (.inl rfl) (ih hx)

theorem Altered.at_place {l m : List ContextItem} (h : Altered i l m) {n : Nat} {y : ContextItem}
    (hy : m[n]? = some y) : ∃ x, l[n]? = some x ∧ Alters i x y := by
  induction h generalizing n with
  | nil => cases hy
  | cons hFirst _ ih =>
    cases n with
    | zero =>
      obtain rfl := Option.some.inj hy
      exact ⟨_, rfl, hFirst⟩
    | succ n => exact ih hy

theorem Altered.mem {l m : List ContextItem} (h : Altered i l m) (hi : i ∈ l) : i ∈ m := by
  induction h with
  | nil => cases hi
  | cons hFirst _ ih =>
    obtain rfl | hi := List.mem_cons.mp hi
    · obtain rfl | ⟨hOther, -⟩ := hFirst
      · exact List.mem_cons_self
      · exact absurd rfl hOther
    · exact List.mem_cons_of_mem _ (ih hi)

theorem Altered.ownId {l m : List ContextItem} (h : Altered i l m) (hOwn : OwnId l i) : OwnId m i := by
  intro y hy hId
  obtain ⟨n, hPlace⟩ := List.mem_iff_getElem?.mp hy
  obtain ⟨x, hx, rfl | ⟨hOther, hSame, -⟩⟩ := h.at_place hPlace
  · exact hOwn y (List.mem_of_getElem? hx) hId
  · exact absurd (hSame.symm.trans hId) hOther

theorem altered_compressItem {id : String} (hId : id ≠ i.id) (tokens : ℚ) :
    Altered i c.contextItems (c.compressItem id tokens).1.contextItems := by
  rw [ContextState.compressItem]
  split
  · exact Altered.refl i _
  rename_i n hFound
  split
  · exact Altered.refl i _
  rename_i x hPlace
  have hx : x.id = id := by
    obtain ⟨hLt, hAt, -⟩ := List.findIdx?_eq_some_iff_getElem.mp hFound
    rw [List.getElem?_eq_getElem hLt] at hPlace
    rw [← Option.some.inj hPlace]
    exact of_decide_eq_true hAt
  exact altered_set hPlace (.inr ⟨hx ▸ hId, rfl, rfl⟩)

theorem withCompressedText_id (x : ContextItem) (r : Compression) :
    (withCompressedText x r).id = x.id ∧
      isProtectedContextItem (withCompressedText x r) = isProtectedContextItem x := by
  rw [withCompressedText]
  split <;> exact ⟨rfl, rfl⟩

theorem altered_compressAt {toReclaim : ℚ} {d : Compressing} {place : Nat}
    (hOther : ∀ x, d.state.contextItems[place]? = some x → x.id ≠ i.id) :
    Altered i d.state.contextItems (compressAt config view toReclaim d place).state.contextItems := by
  rw [compressAt]
  split
  · exact Altered.refl i _
  cases hPlace : d.state.contextItems[place]? with
  | none => exact Altered.refl i _
  | some x =>
    have hId := hOther x hPlace
    obtain ⟨hSame, hProtected⟩ := withCompressedText_id x (compressionOf config view x)
    have hNoted := altered_set hPlace (.inr ⟨hId, hSame, hProtected⟩)
    have hStored (noted : ContextState) (h : Altered i d.state.contextItems noted.contextItems)
        (tokens : ℚ) : Altered i d.state.contextItems (noted.compressItem x.id tokens).1.contextItems :=
      h.trans (altered_compressItem hId tokens)
    dsimp only
    split
    · exact hNoted
    · split
      · exact hStored _ hNoted _
      · exact hStored _ hNoted _

theorem altered_compressContext (config : ManagerConfig) (view : TaskView)
    (hProtected : isProtectedContextItem i = true) (hOwn : OwnId c.contextItems i) (targetTokens : ℚ) :
    Altered i c.contextItems (compressContext config c targetTokens view).state.contextItems := by
  rw [compressContext]
  split
  · exact Altered.refl i _
  have hFree : ∀ place ∈ (candidates c view).map Prod.snd, ∀ x, c.contextItems[place]? = some x →
      isProtectedContextItem x = false := by
    intro place hMem x hx
    obtain ⟨e, he, rfl⟩ := List.mem_map.mp hMem
    obtain ⟨hPlace, hUnprotected⟩ := candidates_spec he
    rw [hPlace] at hx
    exact Option.some.inj hx ▸ hUnprotected
  have hLoop (places : List Nat) (d : Compressing) (hBefore : Altered i c.contextItems d.state.contextItems)
      (hFree : ∀ place ∈ places, ∀ x, c.contextItems[place]? = some x → isProtectedContextItem x = false) :
      Altered i c.contextItems (places.foldl (compressAt config view
        (c.currentTokens - targetTokens)) d).state.contextItems := by
    induction places generalizing d with
    | nil => exact hBefore
    | cons place places ih =>
      obtain ⟨hFirst, hFree⟩ := List.forall_mem_cons.mp hFree
      refine ih _ (hBefore.trans (altered_compressAt fun y hy hId => ?_)) hFree
      -- the item at the place is not protected, so it is not `i`
      obtain ⟨x, hx, hAlters⟩ := hBefore.at_place hy
      have hy := hBefore.ownId hOwn y (List.mem_of_getElem? hy) hId
      have hUnprotected : isProtectedContextItem y = false := by
        obtain rfl | ⟨-, -, hSame⟩ := hAlters
        · exact hFirst y hx
        · rw [hSame, hFirst x hx]
      rw [hy, hProtected] at hUnprotected
      cases hUnprotected
  exact hLoop _ _ (Altered.refl i _) hFree

end Compression

section Runs

variable {config : ManagerConfig} {c d : ContextState}

def Spares (i : ContextItem) (_ : ContextState) : Operation → Prop
  | .addContext items now => ∀ item ∈ items, (item.contextItem now).id ≠ i.id
  | .compressContext _ _ => True
  | .compilePrompt _ => True

theorem addContext_contextItems (c : ContextState) (items : List Incoming) (now : ℚ) :
    (addContext c items now).contextItems =
      c.contextItems ++ items.map (Incoming.contextItem now) := by
  rw [addContext]
  induction items generalizing c with
  | nil => exact (List.append_nil _).symm
  | cons item items ih => rw [List.foldl_cons, ih, ContextState.addItem, List.append_assoc]; rfl

theorem operate_keeps (hProtected : isProtectedContextItem i = true) {op : Operation}
    (h : i ∈ c.contextItems ∧ OwnId c.contextItems i) (hSpares : Spares i c op)
    (hStep : operate config c op = some d) : i ∈ d.contextItems ∧ OwnId d.contextItems i := by
  obtain ⟨hi, hOwn⟩ := h
  cases op with
  | addContext items now =>
    obtain rfl := Option.some.inj hStep
    rw [addContext_contextItems]
    refine ⟨List.mem_append_left _ hi, fun j hj hId => ?_⟩
    obtain hj | hj := List.mem_append.mp hj
    · exact hOwn j hj hId
    · obtain ⟨item, hItem, rfl⟩ := List.mem_map.mp hj
      exact absurd hId (hSpares item hItem)
  | compressContext targetTokens view =>
    obtain rfl := Option.some.inj hStep
    have hAltered := altered_compressContext config view hProtected hOwn targetTokens
    exact ⟨hAltered.mem hi, hAltered.ownId hOwn⟩
  | compilePrompt opts =>
    obtain rfl := Option.some.inj hStep
    exact ⟨hi, hOwn⟩

structure Protects (config : ManagerConfig) : Prop where
  candidates : ∀ c view, ∀ e ∈ candidates c view, isProtectedContextItem e.1 = false
  kept : ∀ c d i, i ∈ c.contextItems → OwnId c.contextItems i → isProtectedContextItem i = true →
    Reach (operate config) (Spares i) (· = c) d → i ∈ d.contextItems
  plainly : ∀ i, PlainlyProtected i → categorizeContextItem i = .mustKeep
  selected : ∀ items i, i ∈ items → OwnId items i → categorizeContextItem i = .mustKeep → i.keeps = true →
    ∀ localeCompare opts, ∃ n s,
      (∀ m, n ≤ m → selectContext localeCompare m items opts = some s) ∧ i ∈ s.items
  flagged : ∀ i, explicitCategory i = none →
    i.isProtected = true ∨ i.metadata.isProtected = true ∨ i.metadata.neverCompress = true →
    categorizeContextItem i = .neverCompress
  category : ∀ i, explicitCategory i = none → (isProtectedContextItem i = true ↔
    categorizeContextItem i = .mustKeep ∨ categorizeContextItem i = .neverCompress)
  mirrors : ∀ i, i.metadata.isProtected = false ∧ i.metadata.neverCompress = false →
    isProtectedCategoryItem i = isProtectedContextItem i

theorem protects (config : ManagerConfig) : Protects config where
  candidates _ _ _ he := (candidates_spec he).2
  kept c d i hi hOwn hProtected hRun := by
    have hKept := hRun.invariant (I := fun c => i ∈ c.contextItems ∧ OwnId c.contextItems i)
      (fun s hs => hs ▸ ⟨hi, hOwn⟩) (fun _ _ _ h => operate_keeps hProtected h)
    exact hKept.1
  plainly _ := PlainlyProtected.mustKeep
  selected items i hi hOwn hMust hKeeps localeCompare opts := by
    obtain ⟨n, s, h⟩ := exists_selectContext localeCompare items opts
    exact ⟨n, s, h, mustKeep_selected hi hOwn hKeeps hMust (h n (Nat.le_refl n))⟩
  flagged _ := neverCompress_of_flag
  category _ := protected_iff_category
  mirrors _ := isProtectedCategoryItem_of_unflagged

end Runs

def pinned : ContextItem :=
  { fileItem "pinned" 100 0.9 [] with metadata := { emptyMetadata with isProtected := true } }

def instruction (tokens : ℚ) : ContextItem :=
  { fileItem "system" tokens 0.9 [] with kind := some "system".toList }

theorem selectContext_unique {localeCompare : String → String → Ordering} {opts : SelectOptions} {n m : Nat}
    (h : selectContext localeCompare n items opts = some s)
    (h' : selectContext localeCompare m items opts = some t) : s = t :=
  Option.some.inj ((after_mono (Nat.le_max_left n m) h).symm.trans (after_mono (Nat.le_max_right n m) h'))

/-- A protected item that does not fit is omitted, and so is one of two that have the same id. -/
theorem protected_omitted :
    (isProtectedContextItem pinned = true ∧ pinned.keeps = true ∧
      isProtectedCategoryItem pinned = false ∧
      ∀ n s, selectContext compare n [pinned] (plainOptions 10) = some s → pinned ∉ s.items) ∧
    (isProtectedContextItem (instruction 2) = true ∧ (instruction 2).keeps = true ∧
      ∀ n s, selectContext compare n [instruction 1, instruction 2] (plainOptions 10) = some s →
        instruction 2 ∉ s.items) := by
  have hPinned : (selectContext compare 3 [pinned] (plainOptions 10)).map
      (fun s => s.items.map ContextItem.tokens) = some [] := by decide +kernel
  have hTwins : (selectContext compare 3 [instruction 1, instruction 2] (plainOptions 10)).map
      (fun s => s.items.map ContextItem.tokens) = some [1] := by decide +kernel
  obtain ⟨s₁, hSelect₁, hTokens₁⟩ := Option.map_eq_some_iff.mp hPinned
  obtain ⟨s₂, hSelect₂, hTokens₂⟩ := Option.map_eq_some_iff.mp hTwins
  refine ⟨⟨by decide +kernel, by decide +kernel, by decide +kernel, fun n s h hMem => ?_⟩,
    by decide +kernel, by decide +kernel, fun n s h hMem => ?_⟩
  · obtain rfl := selectContext_unique hSelect₁ h
    have hTokens := List.mem_map_of_mem (f := ContextItem.tokens) hMem
    rw [hTokens₁] at hTokens
    cases hTokens
  · obtain rfl := selectContext_unique hSelect₂ h
    have hTokens := List.mem_map_of_mem (f := ContextItem.tokens) hMem
    rw [hTokens₂] at hTokens
    exact absurd hTokens (by decide +kernel)

end OrchestraAI.Context
