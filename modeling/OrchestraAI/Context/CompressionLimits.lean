import OrchestraAI.Context.Protection

/-! # What compression keeps

The spans, the label and the sentences of a compressed text share one cut, and an item that is
compressed is no longer of those that are selected.
-/

namespace OrchestraAI.Context

open CodeUnits (Units)

variable {text : Units} {opts : CompressOptions}

theorem isInfix_span {span : Units} (h : span ∈ extractPreserved text) : span <:+: text := by
  have hKept := List.mem_of_mem_take (List.mem_eraseDups.mp h)
  obtain ⟨re, -, hFound⟩ := List.mem_flatMap.mp hKept
  obtain ⟨m, hMatch, rfl⟩ := List.mem_map.mp hFound
  exact (Text.trimBy_infix m.taken).trans (Regex.isInfix_found hMatch)

theorem infix_intercalate {sep x : Units} {xs : List Units} (h : x ∈ xs) :
    x <:+: List.intercalate sep xs := by
  induction xs with
  | nil => cases h
  | cons y xs ih =>
    cases xs with
    | nil =>
      rw [List.mem_singleton.mp h, List.intercalate_singleton]
    | cons z xs =>
      rw [List.intercalate_cons_cons]
      obtain rfl | h := List.mem_cons.mp h
      · rw [List.append_assoc]
        exact (List.prefix_append _ _).isInfix
      · exact (ih h).trans (List.suffix_append _ _).isInfix

theorem exists_header {spans : List Units} (h : spans ≠ []) :
    ∃ shown, headerOf spans = shown ++ unitsOf "\n\n".toList ∧ ∀ span ∈ spans, span <:+: shown := by
  refine ⟨_, if_neg h, fun span hSpan => ?_⟩
  have hLine : spanLine span <:+: List.intercalate (unitsOf "\n".toList) (spans.map spanLine) :=
    infix_intercalate (List.mem_map_of_mem hSpan)
  have hSpanLine : span <:+: spanLine span := (List.suffix_append _ _).isInfix
  exact (hSpanLine.trans hLine).trans (List.suffix_append _ _).isInfix

/-- What compression promises of a text: its preserved list, or what it counts of one, is that of
`extractPreserved`. -/
structure KeepsText (text : Units) (opts : CompressOptions) : Prop where
  spans : ∀ span ∈ extractPreserved text, span <:+: (compressContent text opts).compressedContent
  smaller : (compressContent text opts).compressedTokens ≤ (compressContent text opts).originalTokens
  estimated : (compressContent text opts).compressedTokens =
    estimateTokensFor (compressContent text opts).compressedContent

def Within (text : Units) (opts : CompressOptions) : Prop :=
  (estimateTokensFor text : ℚ) ≤ opts.target (estimateTokensFor text)

/-- The lines of the spans are not cut off, or what is cut off of them also stands before the cut. -/
def SpansFit (text : Units) (opts : CompressOptions) : Prop :=
  (headerOf (extractPreserved text)).length ≤ opts.limit (estimateTokensFor text) + 2 ∨
    ∀ span ∈ extractPreserved text,
      span <:+: (headerOf (extractPreserved text)).take (opts.limit (estimateTokensFor text))

def LeavesRoom (text : Units) (opts : CompressOptions) : Prop :=
  opts.limit (estimateTokensFor text) ≤ 4 * estimateTokensFor text ∨
    (headerOf (extractPreserved text)).length + opts.label.length + (bodyOf opts text).length ≤
      4 * estimateTokensFor text

def written (text : Units) (opts : CompressOptions) : Units :=
  headerOf (extractPreserved text) ++ opts.label ++ bodyOf opts text

theorem compressContent_within (h : Within text opts) :
    (compressContent text opts).compressedContent = text ∧
      (compressContent text opts).originalTokens = estimateTokensFor text ∧
      (compressContent text opts).compressedTokens = estimateTokensFor text := by
  rw [Within] at h
  simp only [compressContent, if_pos h, and_self]

theorem compressContent_beyond (h : ¬ Within text opts) :
    (compressContent text opts).compressedContent =
        (written text opts).take (opts.limit (estimateTokensFor text)) ∧
      (compressContent text opts).originalTokens = estimateTokensFor text ∧
      (compressContent text opts).compressedTokens =
        estimateTokensFor ((written text opts).take (opts.limit (estimateTokensFor text))) := by
  rw [Within] at h
  simp only [compressContent, if_neg h, written, and_self]

theorem spans_iff_fit : (∀ span ∈ extractPreserved text,
      span <:+: (written text opts).take (opts.limit (estimateTokensFor text))) ↔
    SpansFit text opts := by
  let limit := opts.limit (estimateTokensFor text)
  have hWritten : headerOf (extractPreserved text) <+: written text opts := by
    rw [written, List.append_assoc]
    exact List.prefix_append _ _
  constructor
  · intro hSpans
    by_cases hLong : limit < (headerOf (extractPreserved text)).length
    · -- the cut is in the header, so that nothing else can have the spans
      right
      obtain ⟨rest, hRest⟩ := hWritten
      rw [← hRest, List.take_append_of_le_length hLong.le] at hSpans
      exact hSpans
    · exact .inl (by omega)
  · intro hFit span hSpan
    obtain hRoom | hBefore := hFit
    · obtain ⟨shown, hHeader, hShown⟩ := exists_header (List.ne_nil_of_mem hSpan)
      have hLength : shown.length ≤ limit := by
        rw [hHeader, List.length_append] at hRoom
        have hBlank : (unitsOf "\n\n".toList).length = 2 := by decide
        omega
      have hPrefix : shown <+: (written text opts).take limit := by
        rw [List.prefix_take_iff]
        exact ⟨(hHeader ▸ List.prefix_append shown _).trans hWritten, hLength⟩
      exact (hShown span hSpan).trans hPrefix.isInfix
    · have hPrefix := hWritten.take limit
      exact (hBefore span hSpan).trans hPrefix.isInfix

theorem smaller_iff_room :
    estimateTokensFor ((written text opts).take (opts.limit (estimateTokensFor text))) ≤
      estimateTokensFor text ↔ LeavesRoom text opts := by
  have hLength : (written text opts).length =
      (headerOf (extractPreserved text)).length + opts.label.length + (bodyOf opts text).length := by
    rw [written, List.length_append, List.length_append]
  have hFour (content : Units) (tokens : Nat) :
      estimateTokensFor content ≤ tokens ↔ content.length ≤ 4 * tokens := by
    rw [estimateTokensFor]
    omega
  rw [hFour, List.length_take, min_le_iff, hLength]
  rfl

theorem keepsText_iff (text : Units) (opts : CompressOptions) :
    KeepsText text opts ↔ Within text opts ∨ SpansFit text opts ∧ LeavesRoom text opts := by
  by_cases hWithin : Within text opts
  · obtain ⟨hContent, hOriginal, hTokens⟩ := compressContent_within hWithin
    refine iff_of_true ⟨?_, ?_, ?_⟩ (.inl hWithin)
    · intro span hSpan
      rw [hContent]
      exact isInfix_span hSpan
    · rw [hTokens, hOriginal]
    · rw [hTokens, hContent]
  · obtain ⟨hContent, hOriginal, hTokens⟩ := compressContent_beyond hWithin
    constructor
    · rintro ⟨hSpans, hSmaller, -⟩
      rw [hContent] at hSpans
      rw [hTokens, hOriginal] at hSmaller
      exact .inr ⟨spans_iff_fit.mp hSpans, smaller_iff_room.mp hSmaller⟩
    · rintro (h | ⟨hFit, hRoom⟩)
      · exact absurd h hWithin
      · refine ⟨?_, ?_, ?_⟩
        · rw [hContent]
          exact spans_iff_fit.mpr hFit
        · rw [hTokens, hOriginal]
          exact smaller_iff_room.mpr hRoom
        · rw [hTokens, hContent]

theorem length_lines (span : Units) (spans : List Units) :
    (List.intercalate (unitsOf "\n".toList) ((span :: spans).map spanLine)).length =
      (span :: spans).flatten.length + 3 * spans.length + 2 := by
  have hLine (s : Units) : (spanLine s).length = s.length + 2 := by
    rw [spanLine, List.length_append, Nat.add_comm]
    rfl
  induction spans generalizing span with
  | nil => simp [hLine]
  | cons next spans ih =>
    have hBreak : (unitsOf "\n".toList).length = 1 := by decide
    rw [List.map_cons, List.map_cons, List.intercalate_cons_cons, ← List.map_cons, List.length_append,
      List.length_append, ih, hLine, hBreak]
    simp only [List.flatten_cons, List.length_append, List.length_cons]
    omega

/-- The spans are kept where the cut leaves them three units each, and 29 for the title. -/
theorem spansFit_of_short (h : (extractPreserved text).flatten.length + 3 * (extractPreserved text).length +
    29 ≤ opts.limit (estimateTokensFor text)) : SpansFit text opts := by
  refine .inl ?_
  cases hSpans : extractPreserved text with
  | nil => exact Nat.zero_le _
  | cons span spans =>
    have hTitle : (unitsOf "Key facts preserved verbatim:\n".toList).length = 30 := by decide
    have hBlank : (unitsOf "\n\n".toList).length = 2 := by decide
    rw [hSpans, List.length_cons] at h
    rw [headerOf, if_neg (List.cons_ne_nil _ _), List.length_append, List.length_append, length_lines,
      hTitle, hBlank]
    omega

theorem leavesRoom_of_long
    (h : max 128 (opts.target (estimateTokensFor text) * 4 + 512) ≤ (text.length : ℚ)) :
    LeavesRoom text opts := by
  have hFloor := Int.floor_mono h
  rw [Int.floor_natCast] at hFloor
  have hLimit : opts.limit (estimateTokensFor text) ≤ text.length := Int.toNat_le.mpr hFloor
  have hTokens : text.length ≤ 4 * estimateTokensFor text := by
    rw [estimateTokensFor]
    omega
  exact .inl (hLimit.trans hTokens)

section Manager

variable {config : ManagerConfig} {view : TaskView} {s t u : ContextState} {toReclaim : ℚ}
  {d : Compressing} {place : Nat} {x : ContextItem}

def Shrinks (config : ManagerConfig) (view : TaskView) (item : ContextItem) : Prop :=
  ((compressionOf config view item).compressedTokens : ℚ) < item.tokens

theorem shrinks_of_above (h : targetOf config x + 129 ≤ x.tokens) : Shrinks config view x := by
  let opts : CompressOptions := ⟨some (targetOf config x), view.taskText, view.taskText, "structured".toList⟩
  have hLeast : 16 ≤ targetOf config x := le_max_left _ _
  have hTarget (n : Nat) : opts.target n = targetOf config x := by
    have hSome : targetOf config x ≠ 0 := by linarith
    rw [CompressOptions.target, Option.filter_some_pos (by simpa using hSome)]
    exact max_eq_right hLeast
  rw [Shrinks, compressionOf]
  by_cases hWithin : Within (unitsOf (contentOf x)) opts
  · rw [(compressContent_within hWithin).2.2]
    rw [Within, hTarget] at hWithin
    linarith
  · rw [(compressContent_beyond hWithin).2.2]
    set limit := opts.limit (estimateTokensFor (unitsOf (contentOf x))) with hLimit
    have hCut : (limit : ℚ) ≤ targetOf config x * 4 + 512 := by
      rw [CompressOptions.limit, hTarget, max_eq_right (by linarith)] at hLimit
      rw [hLimit, ← Int.cast_natCast, Int.toNat_of_nonneg (Int.floor_nonneg.mpr (by linarith))]
      exact Int.floor_le _
    have hTokens : 4 * estimateTokensFor ((written (unitsOf (contentOf x)) opts).take limit) ≤ limit + 3 := by
      have hLength := List.length_take_le limit (written (unitsOf (contentOf x)) opts)
      rw [estimateTokensFor]
      omega
    have hTokens : (4 : ℚ) * estimateTokensFor ((written (unitsOf (contentOf x)) opts).take limit) ≤
        limit + 3 := by exact_mod_cast hTokens
    linarith

def Extends (s t : ContextState) : Prop :=
  ∃ new, t.compressedItems = s.compressedItems ++ new ∧ ∀ e ∈ new, e.item.keeps = false

theorem Extends.refl (s : ContextState) : Extends s s :=
  ⟨[], (List.append_nil _).symm, fun e he => by cases he⟩

theorem Extends.trans (h : Extends s t) (h' : Extends t u) : Extends s u := by
  obtain ⟨first, hFirst, hStatus⟩ := h
  obtain ⟨second, hSecond, hStatus'⟩ := h'
  refine ⟨first ++ second, by rw [hSecond, hFirst, List.append_assoc], fun e he => ?_⟩
  obtain he | he := List.mem_append.mp he
  · exact hStatus e he
  · exact hStatus' e he

theorem compressItem_extends (s : ContextState) (id : String) (tokens : ℚ) :
    Extends s (s.compressItem id tokens).1 := by
  rw [ContextState.compressItem]
  split
  · exact .refl s
  split
  · exact .refl s
  · refine ⟨_, rfl, fun e he => ?_⟩
    rw [List.mem_singleton.mp he]
    rfl

theorem compressItem_compresses {id : String} (hx : x ∈ s.contextItems) (hId : x.id = id) (tokens : ℚ) :
    (s.compressItem id tokens).1.compressedItems ≠ s.compressedItems := by
  rw [ContextState.compressItem]
  split
  · rename_i hNone
    have hOther := List.findIdx?_eq_none_iff.mp hNone x hx
    exact absurd hId (of_decide_eq_false hOther)
  rename_i n hFound
  split
  · rename_i hNone
    obtain ⟨hLt, -⟩ := List.findIdx?_eq_some_iff_getElem.mp hFound
    exact absurd (List.getElem?_eq_none_iff.mp hNone) (Nat.not_le.mpr hLt)
  · simp

def bare (item : ContextItem) : ContextItem :=
  { item with metadata := { item.metadata with compressedText := none } }

theorem bare_withCompressedText (item : ContextItem) (r : Compression) :
    bare (withCompressedText item r) = bare item := by
  rw [withCompressedText]
  split <;> rfl

theorem shrinks_bare (item : ContextItem) : Shrinks config view (bare item) ↔ Shrinks config view item :=
  Iff.rfl

theorem map_set_of_eq {β γ : Type} {f : β → γ} {l : List β} {n : Nat} {a b : β} (ha : l[n]? = some a)
    (h : f b = f a) : (l.set n b).map f = l.map f := by
  rw [List.map_set, h]
  obtain ⟨hLt, rfl⟩ := List.getElem?_eq_some_iff.mp ha
  have hLength : n < (l.map f).length := by rwa [List.length_map]
  have hAt : f l[n] = (l.map f)[n] := (List.getElem_map f).symm
  rw [hAt, List.set_getElem_self hLength]

theorem compressAt_cases (config : ManagerConfig) (view : TaskView) (toReclaim : ℚ) (d : Compressing)
    (place : Nat) :
    (toReclaim ≤ d.reclaimed ∨ d.state.contextItems[place]? = none) ∧
        compressAt config view toReclaim d place = d ∨
      d.reclaimed < toReclaim ∧ ∃ x noted, d.state.contextItems[place]? = some x ∧
        noted = { d.state with contextItems :=
          d.state.contextItems.set place (withCompressedText x (compressionOf config view x)) } ∧
        (¬ Shrinks config view x ∧
            compressAt config view toReclaim d place = { d with state := noted } ∨
          Shrinks config view x ∧ ∃ tokens,
            (compressAt config view toReclaim d place).state = (noted.compressItem x.id tokens).1) := by
  rw [compressAt]
  split
  · rename_i hDone
    exact .inl ⟨.inl hDone, rfl⟩
  rename_i hTurn
  split
  · rename_i hNone
    exact .inl ⟨.inr hNone, rfl⟩
  rename_i x hPlace
  refine .inr ⟨not_le.mp hTurn, x, _, hPlace, rfl, ?_⟩
  dsimp only
  split
  · rename_i hLess
    exact .inl ⟨not_lt.mpr (le_min_iff.mp hLess).2, rfl⟩
  · rename_i hMore
    have hShrinks : Shrinks config view x := by
      rw [Shrinks]
      by_contra hNot
      exact hMore (le_min le_rfl (not_lt.mp hNot))
    refine .inr ⟨hShrinks, min x.tokens (compressionOf config view x).compressedTokens, ?_⟩
    split <;> rfl

theorem compressAt_extends (d : Compressing) (place : Nat) :
    Extends d.state (compressAt config view toReclaim d place).state := by
  obtain ⟨-, hSame⟩ | ⟨-, x, noted, -, rfl, ⟨-, hNoted⟩ | ⟨-, tokens, hStored⟩⟩ :=
    compressAt_cases config view toReclaim d place
  · rw [hSame]
    exact .refl _
  · rw [hNoted]
    exact .refl d.state
  · rw [hStored]
    exact compressItem_extends _ _ _

theorem loop_extends (config : ManagerConfig) (view : TaskView) (toReclaim : ℚ) (places : List Nat)
    (d : Compressing) :
    Extends d.state (places.foldl (compressAt config view toReclaim) d).state := by
  induction places generalizing d with
  | nil => exact .refl _
  | cons place places ih => exact (compressAt_extends d place).trans (ih _)

theorem loop_compresses_iff {places : List Nat} {d : Compressing} (hTurn : d.reclaimed < toReclaim) :
    (places.foldl (compressAt config view toReclaim) d).state.compressedItems ≠ d.state.compressedItems ↔
      ∃ place ∈ places, ∃ x, d.state.contextItems[place]? = some x ∧ Shrinks config view x := by
  induction places generalizing d with
  | nil => simp
  | cons place places ih =>
    rw [List.foldl_cons, List.exists_mem_cons_iff]
    obtain ⟨hDone | hNone, hSame⟩ | ⟨-, x, noted, hPlace, hNotedEq, ⟨hNot, hNoted⟩ | ⟨hShrinks, tokens, hStored⟩⟩ :=
      compressAt_cases config view toReclaim d place
    · exact absurd hDone (not_le.mpr hTurn)
    · rw [hSame, ih hTurn, hNone]
      simp
    · -- the items are the same but for a compressed text
      have hBare : noted.contextItems.map bare = d.state.contextItems.map bare := by
        rw [hNotedEq]
        exact map_set_of_eq hPlace (bare_withCompressedText x _)
      have hItems (n : Nat) : (∃ y, noted.contextItems[n]? = some y ∧ Shrinks config view y) ↔
          ∃ y, d.state.contextItems[n]? = some y ∧ Shrinks config view y := by
        have hAt := congrArg (·[n]?) hBare
        simp only [List.getElem?_map] at hAt
        constructor
        · rintro ⟨y, hy, hShrinks⟩
          rw [hy, Option.map_some] at hAt
          obtain ⟨z, hz, hEq⟩ := Option.map_eq_some_iff.mp hAt.symm
          exact ⟨z, hz, (shrinks_bare z).mp (hEq ▸ (shrinks_bare y).mpr hShrinks)⟩
        · rintro ⟨y, hy, hShrinks⟩
          rw [hy, Option.map_some] at hAt
          obtain ⟨z, hz, hEq⟩ := Option.map_eq_some_iff.mp hAt
          exact ⟨z, hz, (shrinks_bare z).mp (hEq ▸ (shrinks_bare y).mpr hShrinks)⟩
      have hSteady : noted.compressedItems = d.state.compressedItems := by rw [hNotedEq]
      have hRest := ih (d := { d with state := noted }) hTurn
      rw [hSteady] at hRest
      rw [hNoted, hRest]
      simp only [hItems]
      refine (or_iff_right ?_).symm
      rintro ⟨y, hy, hShrinks⟩
      rw [hPlace] at hy
      exact hNot (Option.some.inj hy ▸ hShrinks)
    · refine iff_of_true ?_ (.inl ⟨x, hPlace, hShrinks⟩)
      obtain ⟨later, hLater, -⟩ := loop_extends config view toReclaim places
        (compressAt config view toReclaim d place)
      obtain ⟨now, hNow, -⟩ := compressItem_extends noted x.id tokens
      have hMem : withCompressedText x (compressionOf config view x) ∈ noted.contextItems := by
        rw [hNotedEq]
        obtain ⟨hLt, -⟩ := List.getElem?_eq_some_iff.mp hPlace
        exact List.mem_set hLt _
      have hNew := compressItem_compresses hMem (withCompressedText_id x _).1 tokens
      rw [hNow] at hNew
      have hSteady : noted.compressedItems = d.state.compressedItems := by rw [hNotedEq]
      rw [hLater, hStored, hNow, hSteady, List.append_assoc]
      intro hEmpty
      have hNil := List.append_eq_nil_iff.mp (List.append_right_eq_self.mp hEmpty)
      rw [hNil.1, List.append_nil] at hNew
      exact hNew rfl

/-- What compression promises of an item that it has compressed: it is selected if everything fits,
its line shows the compressed text, and the lines differ by the tokens that are reclaimed. -/
structure KeepsItem (config : ManagerConfig) (s t : ContextState) (e : CompressedItem) : Prop where
  selected : ∀ localeCompare fuel opts selection,
    fits (selectOptions config t opts).budget (tokensOf t.contextItems) = true →
    promptSelection localeCompare config fuel t opts = some selection → e.item ∈ selection.items
  rendered : ∀ compressed ∈ e.item.metadata.compressedText, compressed <:+: unitsOf (lineOf e.item)
  reclaimed : ∀ old ∈ s.contextItems.find? (·.id = e.item.id), e.reclaimedTokens =
    (estimateTokensFor (unitsOf (lineOf old)) : ℚ) - estimateTokensFor (unitsOf (lineOf e.item))

def KeepsItems (config : ManagerConfig) (s : ContextState) (targetTokens : ℚ) (view : TaskView) : Prop :=
  ∀ new, (compressContext config s targetTokens view).state.compressedItems = s.compressedItems ++ new →
    ∀ e ∈ new, KeepsItem config s (compressContext config s targetTokens view).state e

theorem compressContext_extends (config : ManagerConfig) (s : ContextState) (targetTokens : ℚ)
    (view : TaskView) : Extends s (compressContext config s targetTokens view).state := by
  rw [compressContext]
  split
  · exact .refl s
  · exact loop_extends config view _ _ _

theorem compresses_iff : (compressContext config s targetTokens view).state.compressedItems ≠ s.compressedItems ↔
    targetTokens < s.currentTokens ∧ ∃ c ∈ candidates s view, Shrinks config view c.1 := by
  rw [compressContext]
  split
  · rename_i hWithin
    simp [not_lt.mpr hWithin]
  rename_i hBeyond
  rw [not_le] at hBeyond
  have hTurn : (⟨s, 0, []⟩ : Compressing).reclaimed < s.currentTokens - targetTokens :=
    sub_pos.mpr hBeyond
  rw [loop_compresses_iff hTurn, and_iff_right hBeyond]
  constructor
  · rintro ⟨place, hPlace, x, hx, hShrinks⟩
    obtain ⟨c, hc, rfl⟩ := List.mem_map.mp hPlace
    rw [(candidates_spec hc).1] at hx
    exact ⟨c, hc, Option.some.inj hx ▸ hShrinks⟩
  · rintro ⟨c, hc, hShrinks⟩
    exact ⟨c.2, List.mem_map_of_mem hc, c.1, (candidates_spec hc).1, hShrinks⟩

def unbounded : PromptOptions := ⟨[], [], [], "general", some 0, defaultWeights, 0⟩

theorem not_keepsItem {e : CompressedItem} (hStatus : e.item.keeps = false) : ¬ KeepsItem config s t e := by
  intro hKeeps
  obtain ⟨n, selection, hSelect⟩ := exists_selectContext compare t.contextItems
    (selectOptions config t unbounded)
  have hMem := hKeeps.selected compare n unbounded selection rfl (hSelect n (Nat.le_refl n))
  rw [selected_keeps (hSelect n (Nat.le_refl n)) _ hMem] at hStatus
  cases hStatus

theorem keepsItems_iff (config : ManagerConfig) (s : ContextState) (targetTokens : ℚ) (view : TaskView) :
    KeepsItems config s targetTokens view ↔
      (targetTokens < s.currentTokens → ∀ c ∈ candidates s view, ¬ Shrinks config view c.1) := by
  have hSteady : (targetTokens < s.currentTokens → ∀ c ∈ candidates s view, ¬ Shrinks config view c.1) ↔
      (compressContext config s targetTokens view).state.compressedItems = s.compressedItems := by
    rw [← not_iff_not, ← ne_eq _ s.compressedItems, compresses_iff]
    simp only [Classical.not_imp, not_forall, not_not]
  obtain ⟨new, hNew, hStatus⟩ := compressContext_extends config s targetTokens view
  rw [hSteady, hNew, List.append_right_eq_self]
  constructor
  · intro hKeeps
    rw [List.eq_nil_iff_forall_not_mem]
    exact fun e he => not_keepsItem (hStatus e he) (hKeeps new hNew e he)
  · rintro rfl new hEq e he
    rw [hNew, List.append_nil] at hEq
    rw [List.append_right_eq_self.mp hEq.symm] at he
    cases he

end Manager

theorem compression_iff (config : ManagerConfig) :
    (∀ text opts, KeepsText text opts ↔ Within text opts ∨ SpansFit text opts ∧ LeavesRoom text opts) ∧
      ∀ s targetTokens view, KeepsItems config s targetTokens view ↔
        (targetTokens < s.currentTokens → ∀ c ∈ candidates s view, ¬ Shrinks config view c.1) :=
  ⟨keepsText_iff, keepsItems_iff config⟩

def toSixteen : CompressOptions := ⟨some 16, [], [], "structured".toList⟩

def errors : Units :=
  unitsOf (["1", "2", "3"].flatMap fun n => ("error: " ++ n).toList ++ List.replicate 198 '=' ++ ['\n'])

def twoSentences : Units :=
  unitsOf "The build is green again. Nothing else was touched in this session.".toList

def oneNote : ContextState :=
  ⟨100, 1000, 1000, [{ fileItem "note" 100 0.5 [] with content := "Nothing else was touched.".toList }], []⟩

/-- A span is cut off, a text gets longer, and a compressed item is in no prompt. -/
theorem compression_loses :
    ¬ (∀ span ∈ extractPreserved errors, span <:+: (compressContent errors toSixteen).compressedContent) ∧
      (compressContent twoSentences toSixteen).originalTokens <
        (compressContent twoSentences toSixteen).compressedTokens ∧
      ¬ KeepsItems ⟨0.3, 0.3⟩ oneNote 10 ⟨[], "general", 0⟩ := by
  have hCut : (extractPreserved errors).all
      (fun span => span <:+: (compressContent errors toSixteen).compressedContent) = false := by
    decide +kernel
  have hShrinks : (candidates oneNote ⟨[], "general", 0⟩).any (fun c =>
      ((compressionOf ⟨0.3, 0.3⟩ ⟨[], "general", 0⟩ c.1).compressedTokens : ℚ) < c.1.tokens) = true := by
    decide +kernel
  have hLonger : (compressContent twoSentences toSixteen).originalTokens <
      (compressContent twoSentences toSixteen).compressedTokens := by decide +kernel
  refine ⟨fun hSpans => ?_, hLonger, fun hKeeps => ?_⟩
  · obtain ⟨span, hSpan, hNot⟩ := List.all_eq_false.mp hCut
    exact hNot (decide_eq_true (hSpans span hSpan))
  · obtain ⟨c, hc, hLess⟩ := List.any_eq_true.mp hShrinks
    have hLess := of_decide_eq_true hLess
    exact (keepsItems_iff _ _ _ _).mp hKeeps (by decide +kernel) c hc hLess

end OrchestraAI.Context
