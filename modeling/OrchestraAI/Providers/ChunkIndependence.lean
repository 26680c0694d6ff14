import OrchestraAI.Providers.StreamAdapters

/-! # Streams and chunks

What a stream yields for a body that arrives in chunks, against what it yields for the whole body
with a blank line at the end.
-/

namespace OrchestraAI.Providers

open BlankLineBlocks Utf8

inductive Provider
  | openai
  | anthropic

variable (P : Platform)

def stream : Provider → List Bytes → Outcome
  | .openai => OpenAi.stream P
  | .anthropic => Anthropic.stream P

def SameAnswer (a b : Outcome) : Prop :=
  a.deltas = b.deltas ∧ a.result.map (·.answer) = b.result.map (·.answer)

def openData (t : Text) : List Text := (scan '\n' dataLine fresh (normalized t)).1.block

/-- Between the data lines of one event no chunk ends within a line end of two characters. -/
def CleanCuts (texts : List Text) : Prop :=
  ∀ n < texts.length, (texts.take n).flatten.getLast? = some '\r' →
    (texts.drop n).flatten.head? = some '\n' →
      openData (texts.take n).flatten = [] ∨
        quiet '\n' dataLine [] (normalized (texts.drop n).flatten.tail) = true

instance (texts : List Text) : Decidable (CleanCuts texts) :=
  inferInstanceAs (Decidable (∀ n < texts.length, _ → _ → (_ ∨ _)))

def unfinished (texts : List Text) : Text := (cut '\n' [] (texts.flatMap normalized)).2

/-- The event that no blank line ends has nothing but what the stream reads of it: usage, where its
first line is a data line. -/
def OpenAi.endsWell (last : Text) : Bool :=
  match frameEvent P last with
  | none => true
  | some .null => flushes P last
  | some data =>
    let usage := truthy (prop data "usage")
    if truthy (prop data "done") then !(flushes P last && usage)
    else contentOf data = [] && !truthy (prop (choiceOf data) "finish_reason") &&
      (toolCallsOf data).any List.isEmpty && (flushes P last || !usage)

def Anthropic.endsWell (last : Text) : Bool :=
  match frameEvent P last with
  | none => true
  | some .null => false
  | some data =>
    let type := prop data "type"
    let counts (field : Economics.WireField) : Bool := field.toNumber.any (0 ≤ ·)
    if isText type "message_start" then !counts (inputTokensOf P data)
    else if isText type "content_block_start" then
      !isText (prop (prop data "content_block") "type") "tool_use"
    else if isText type "content_block_delta" then
      (textDelta data).isNone && !isText (prop (prop data "delta") "type") "input_json_delta"
    else if isText type "message_delta" then
      !counts (outputTokensOf P data) && !counts (reasoningTokensOf P data)
    else true

def endsWell : Provider → Text → Bool
  | .openai => OpenAi.endsWell P
  | .anthropic => Anthropic.endsWell P

/-- The chunks as pieces of the normalized text; after a carriage return, one that begins with a line
feed brings an additional line end. -/
def piecesOf (afterCr : Bool) : List Text → Pieces Char
  | [] => []
  | t :: ts =>
    (afterCr && t.head? = some '\n', lineEnds afterCr t) :: piecesOf (endsWithCr afterCr t) ts

variable {P}

theorem bare_piecesOf (afterCr : Bool) (ts : List Text) :
    bare (piecesOf afterCr ts) = lineEnds afterCr ts.flatten := by
  induction ts generalizing afterCr with
  | nil => rfl
  | cons t ts ih =>
    rw [List.flatten_cons, lineEnds_append, ← ih]
    rfl

theorem extended_piecesOf (afterCr : Bool) (ts : List Text) :
    extended '\n' (piecesOf afterCr ts) = ts.flatMap normalized := by
  induction ts generalizing afterCr with
  | nil => rfl
  | cons t ts ih =>
    rw [List.flatMap_cons, ← ih (endsWithCr afterCr t), normalized_eq, lineEnds_false]
    rw [piecesOf, extended, List.flatMap_cons]
    congr 1
    cases afterCr with
    | false =>
      rw [← lineEnds_false]
      rfl
    | true =>
      rw [Bool.true_and]
      simp only [decide_eq_true_iff]

theorem endsWithCr_eq (t : Text) : endsWithCr false t = true ↔ t.getLast? = some '\r' := by
  induction t using List.reverseRecOn with
  | nil => exact ⟨nofun, nofun⟩
  | append_singleton t c ih =>
    rw [endsWithCr_append, List.getLast?_concat, endsWithCr, endsWithCr, decide_eq_true_iff,
      Option.some_inj]

theorem line_of_endsWithCr {t : Text} (h : endsWithCr false t = true) :
    (scan '\n' dataLine fresh (lineEnds false t)).1.line = [] := by
  obtain ⟨u, rfl⟩ := List.getLast?_eq_some_iff.mp ((endsWithCr_eq t).mp h)
  have hLast (afterCr : Bool) : lineEnds afterCr ['\r'] = ['\n'] := rfl
  rw [lineEnds_append, hLast, scan_append, scan_singleton, step, if_pos rfl]
  split <;> rfl

theorem harmless_piecesOf (before after : List Text) (h : CleanCuts (before ++ after)) :
    Harmless '\n' dataLine (scan '\n' dataLine fresh (lineEnds false before.flatten)).1
      (piecesOf (endsWithCr false before.flatten) after) := by
  induction after generalizing before with
  | nil => trivial
  | cons t ts ih =>
    have hNext : before ++ t :: ts = (before ++ [t]) ++ ts := by
      rw [List.append_assoc, List.singleton_append]
    have hFlat : (before ++ [t]).flatten = before.flatten ++ t := by
      rw [List.flatten_append, List.flatten_singleton]
    refine ⟨fun hExtra => ?_, ?_⟩
    · obtain ⟨hCr, hHead⟩ := Bool.and_eq_true_iff.mp hExtra
      have hHead : t.head? = some '\n' := of_decide_eq_true hHead
      refine ⟨line_of_endsWithCr hCr, ?_⟩
      obtain ⟨u, rfl⟩ := List.head?_eq_some_iff.mp hHead
      have hCut := h before.length (by rw [List.length_append, List.length_cons]; omega)
      rw [List.take_left, List.drop_left] at hCut
      have hRest : lineEnds (endsWithCr false before.flatten) ('\n' :: u) ++
            bare (piecesOf (endsWithCr (endsWithCr false before.flatten) ('\n' :: u)) ts) =
          normalized (('\n' :: u) :: ts).flatten.tail := by
        rw [bare_piecesOf, ← lineEnds_append, hCr, normalized_eq]
        rfl
      rw [hRest]
      have hOpen : openData before.flatten =
          (scan '\n' dataLine fresh (lineEnds false before.flatten)).1.block := by
        rw [openData, normalized_eq]
      rw [← hOpen]
      exact hCut ((endsWithCr_eq _).mp hCr) rfl
    · have hRest := ih (before ++ [t]) (hNext ▸ h)
      rw [hFlat, lineEnds_append, endsWithCr_append, scan_append] at hRest
      exact hRest

theorem dataLine_nil : dataLine [] = none := rfl

theorem scan_whole (t : Text) : scan '\n' dataLine fresh (normalized (t ++ ['\n', '\n'])) =
    (fresh, (scan '\n' dataLine fresh (lineEnds false t ++ ['\n', '\n'])).2) := by
  rw [normalized_eq, lineEnds_append, scan_append, scan_append]
  rw [scan_blank dataLine_nil]
  cases hCr : endsWithCr false t with
  | false =>
    have hEnds : lineEnds false ['\n', '\n'] = ['\n', '\n'] := rfl
    rw [hEnds, scan_blank dataLine_nil]
  | true =>
    have hEnds : lineEnds true ['\n', '\n'] = ['\n'] := rfl
    have hLine := line_of_endsWithCr hCr
    rw [hEnds, scan_nl hLine, hLine, dataLine_nil]
    exact congrArg (fun block => (fresh, _ ++ ended block)) (List.append_nil _).symm

theorem cutAll_texts (texts : List Text) : cutAll '\n' [] (texts.map normalized) =
    cut '\n' [] (texts.flatMap normalized) := by
  have h := @cutAll_eq _ _ '\n' [] (texts.map normalized)
  rw [List.nil_append] at h
  exact h.symm

theorem events_of_cleanCuts {texts : List Text} (h : CleanCuts texts) :
    (cut '\n' [] (normalized (texts.flatten ++ ['\n', '\n']))).1.filterMap (frameEvent P) =
      (cut '\n' [] (texts.flatMap normalized)).1.filterMap (frameEvent P) ++
        (frameEvent P (unfinished texts)).toList := by
  obtain ⟨hWhole, -⟩ := scan_cut (t := normalized (texts.flatten ++ ['\n', '\n'])) dataLine_nil
    open_nil nofun
  obtain ⟨hChunks, hOpen⟩ := scan_cut (t := texts.flatMap normalized) dataLine_nil open_nil nofun
  have hSame := (scan_extended dataLine_nil).1 fresh (harmless_piecesOf [] texts h)
  rw [extended_piecesOf, bare_piecesOf, scan_append, scan_blank dataLine_nil] at hSame
  rw [scan_whole] at hWhole
  rw [frames_events, frames_events, frameEvent_eq, ← List.filterMap_append, ← hWhole, ← hChunks,
    unfinished, hOpen.items_eq]
  exact congrArg (List.filterMap (eventOf P)) hSame.symm

theorem frameEvent_whole (t : Text) :
    frameEvent P (cut '\n' [] (normalized (t ++ ['\n', '\n']))).2 = none := by
  obtain ⟨-, hOpen⟩ := scan_cut (t := normalized (t ++ ['\n', '\n'])) dataLine_nil open_nil nofun
  rw [scan_whole] at hOpen
  have hItems := hOpen.items_eq
  rw [items] at hItems
  rw [frameEvent, hItems]
  rfl

structure Left (t : Text) : Prop where
  unpaired : Unpaired '\n' t
  noCr : '\r' ∉ t

theorem left_cut {t : Text} (h : '\r' ∉ t) : Left (cut '\n' [] t).2 :=
  ⟨unpaired_cut (unpaired_head t), fun hMem => (mem_cut hMem).elim List.not_mem_nil h⟩

theorem cr_notMem_normalized (t : Text) : '\r' ∉ normalized t := by
  rw [normalized_eq]
  exact cr_notMem_lineEnds false t

theorem left_unfinished (texts : List Text) : Left (unfinished texts) := by
  apply left_cut
  rw [List.mem_flatMap]
  rintro ⟨t, -, hMem⟩
  exact cr_notMem_normalized t hMem

theorem frameEvent_concat (t : Text) : frameEvent P (t ++ ['\n']) = frameEvent P t := by
  have hItems : items '\n' dataLine (t ++ ['\n']) = items '\n' dataLine t :=
    (items_append List.not_mem_nil t).trans (List.append_nil _)
  rw [items, items] at hItems
  rw [frameEvent, frameEvent, hItems]

namespace OpenAi

theorem ne_nil_of_flushes {t : Text} (h : flushes P t = true) : trim P t ≠ [] := by
  intro hNil
  rw [flushes, hNil] at h
  cases h

theorem flush_events {t : Text} (hLeft : Left t) (h : flushes P t = true) :
    (parseSseData P (t ++ ['\n']) true).1 = (frameEvent P t).toList := by
  have hNormalized : normalized (t ++ ['\n']) = t ++ ['\n'] := normalized_append hLeft.noCr ['\n']
  have hEvents (frame : Text) : [frame].filterMap (frameEvent P) = (frameEvent P frame).toList := by
    rw [List.filterMap_cons, List.filterMap_nil]
    cases frameEvent P frame <;> rfl
  rw [parseSseData, hNormalized]
  obtain rfl | ⟨r, c, rfl⟩ := List.eq_nil_or_concat t
  · exact absurd rfl (ne_nil_of_flushes h)
  rw [List.concat_eq_append] at hLeft h ⊢
  by_cases hc : c = '\n'
  · subst hc
    have hCut : cut '\n' [] (r ++ ['\n'] ++ ['\n']) = ([r], []) := by
      rw [List.append_assoc]
      exact (cut_of_unpaired (t := ['\n', '\n']) [] hLeft.unpaired).trans rfl
    rw [hCut, frameEvent_concat, ← hEvents]
    dsimp only
    rw [if_neg]
    rintro ⟨-, hNone, -⟩
    cases hNone
  · have hUnpaired : Unpaired '\n' (r ++ [c] ++ ['\n']) := by
      rw [List.append_assoc]
      exact List.isChain_split.mpr ⟨hLeft.unpaired, List.isChain_pair.mpr fun hPair => hc hPair.1⟩
    have hCut : cut '\n' [] (r ++ [c] ++ ['\n']) = ([], r ++ [c] ++ ['\n']) :=
      (cut_of_unpaired (t := ['\n']) [] hUnpaired).trans rfl
    have hText : trim P (r ++ [c] ++ ['\n']) ≠ [] := by
      intro hNil
      refine ne_nil_of_flushes h (Text.trimBy_eq_nil.mpr fun d hd => ?_)
      exact Text.trimBy_eq_nil.mp hNil d (List.mem_append_left _ hd)
    rw [hCut]
    dsimp only
    rw [if_pos ⟨rfl, rfl, hText⟩, hEvents, frameEvent_concat]

theorem close_none {t : Text} (hLeft : Left t) (h : frameEvent P t = none) (s : State) :
    flush P s t = some s := by
  rw [flush]
  split
  · rename_i hFlushes
    rw [flush_events hLeft hFlushes, h]
    rfl
  · rfl

theorem usageOf_of_not {data : Json} (h : truthy (prop data "usage") = false) (usage : Economics.Usage) :
    usageOf P data usage = usage := by
  rw [usageOf]
  split
  · rename_i u hSome
    rw [hSome] at h
    have hFalse : u.truthy = false := h
    rw [hFalse]
    rfl
  · rfl

theorem flush_event {t : Text} (hLeft : Left t) {data : Json} (h : frameEvent P t = some data)
    (s : State) : flush P s t = if flushes P t then readUsage P s data else some s := by
  rw [flush]
  split
  · rename_i hFlushes
    rw [flush_events hLeft hFlushes, h]
    exact bind_pure (readUsage P s data)
  · rfl

theorem answer_congr {s t : State} (hText : s.text = t.text) (hUsage : s.usage = t.usage)
    (hReason : s.finishReason = t.finishReason) (hTools : s.toolState = t.toolState) :
    (finish P s).answer = (finish P t).answer := by
  rw [finish, finish, toolCalls, toolCalls, hText, hUsage, hReason, hTools]

theorem read_usage {data : Json} (hDone : truthy (prop data "done") = false)
    (hContent : contentOf data = []) (hReason : truthy (prop (choiceOf data) "finish_reason") = false)
    (hTools : toolCallsOf data = some []) (s : State) : (readEvent P s data).1 = [] ∧
      (readEvent P s data).2.map (fun s => (finish P s).answer) =
        some (finish P { s with usage := usageOf P data s.usage }).answer := by
  rw [readEvent, hDone, hContent, hTools, orElse, hReason]
  exact ⟨rfl, congrArg some (answer_congr (List.append_nil s.text) rfl rfl rfl)⟩

theorem close_event {t : Text} (hLeft : Left t) {data : Json} (h : frameEvent P t = some data)
    (hEnd : endsWell P t = true) (s : State) : (read P s data).1 = [] ∧
      (flush P s t).map (fun s => (finish P s).answer) =
        (read P s data).2.map (fun s => (finish P s).answer) := by
  rw [flush_event hLeft h]
  rw [endsWell, h] at hEnd
  by_cases hNull : data = .null
  · subst hNull
    have hFlushes : flushes P t = true := hEnd
    rw [if_pos hFlushes]
    exact ⟨rfl, rfl⟩
  · have hRead : read P s data = readEvent P s data := by
      cases data <;> first | exact absurd rfl hNull | rfl
    have hUsage : readUsage P s data = some { s with usage := usageOf P data s.usage } := by
      cases data <;> first | exact absurd rfl hNull | rfl
    have hEnd : (let usage := truthy (prop data "usage")
        if truthy (prop data "done") then !(flushes P t && usage)
        else contentOf data = [] && !truthy (prop (choiceOf data) "finish_reason") &&
          (toolCallsOf data).any List.isEmpty && (flushes P t || !usage)) = true := by
      cases data <;> first | exact absurd rfl hNull | exact hEnd
    have hUnread (h : truthy (prop data "usage") = false) :
        ({ s with usage := usageOf P data s.usage } : State) = s := by
      rw [usageOf_of_not h]
    rw [hRead, hUsage]
    dsimp only at hEnd
    split at hEnd
    · rename_i hDone
      have hReadDone : readEvent P s data = ([], some s) := by
        rw [readEvent, if_pos hDone]
      rw [hReadDone]
      refine ⟨rfl, ?_⟩
      cases hFlushes : flushes P t with
      | false => rfl
      | true =>
        rw [hFlushes, Bool.true_and, Bool.not_eq_true'] at hEnd
        rw [hUnread hEnd]
        rfl
    · rename_i hDone
      simp only [Bool.and_eq_true, decide_eq_true_eq, Bool.not_eq_true', Bool.or_eq_true] at hEnd
      obtain ⟨⟨⟨hContent, hReason⟩, hTools⟩, hFlushed⟩ := hEnd
      have hNone : toolCallsOf data = some [] := by
        cases hCalls : toolCallsOf data with
        | none =>
          rw [hCalls] at hTools
          cases hTools
        | some calls =>
          rw [hCalls] at hTools
          exact congrArg some (List.isEmpty_iff.mp hTools)
      obtain ⟨hDeltas, hAnswer⟩ :=
        read_usage (P := P) (Bool.eq_false_iff.mpr hDone) hContent hReason hNone s
      refine ⟨hDeltas, ?_⟩
      rw [hAnswer]
      cases hFlushes : flushes P t with
      | true => rfl
      | false =>
        rw [hUnread (hFlushed.resolve_left (hFlushes ▸ Bool.false_ne_true))]
        rfl

end OpenAi

namespace Anthropic

theorem takeCount_of_not {field : Economics.WireField} (h : field.toNumber.any (0 ≤ ·) = false)
    (count : Option ℚ) : Economics.takeCount field count = count := by
  rw [Economics.takeCount]
  split
  · rename_i n hNumber
    rw [hNumber] at h
    exact if_neg (of_decide_eq_false h)
  · rfl

theorem read_event {t : Text} {data : Json} (h : frameEvent P t = some data)
    (hEnd : endsWell P t = true) (s : State) : (read P s data).1 = [] ∧
      (read P s data).2.map (fun s => (finish P s).answer) = some (finish P s).answer := by
  rw [endsWell, h] at hEnd
  by_cases hNull : data = .null
  · subst hNull
    cases hEnd
  · have hRead : read P s data = ((readEvent P s data).1, some (readEvent P s data).2) := by
      cases data <;> first | exact absurd rfl hNull | rfl
    have hEnd : (let type := prop data "type"
        let counts (field : Economics.WireField) : Bool := field.toNumber.any (0 ≤ ·)
        if isText type "message_start" then !counts (inputTokensOf P data)
        else if isText type "content_block_start" then
          !isText (prop (prop data "content_block") "type") "tool_use"
        else if isText type "content_block_delta" then
          (textDelta data).isNone && !isText (prop (prop data "delta") "type") "input_json_delta"
        else if isText type "message_delta" then
          !counts (outputTokensOf P data) && !counts (reasoningTokensOf P data)
        else true) = true := by
      cases data <;> first | exact absurd rfl hNull | exact hEnd
    rw [hRead, readEvent]
    dsimp only at hEnd ⊢
    split at hEnd
    · rename_i hType
      rw [if_pos hType]
      refine ⟨rfl, ?_⟩
      rw [Economics.AnthropicCounts.read, takeCount_of_not ((Bool.not_eq_true' _).mp hEnd)]
      rfl
    rename_i hType
    rw [if_neg hType]
    split at hEnd
    · rename_i hType
      rw [if_pos hType, startTool, (Bool.not_eq_true' _).mp hEnd]
      exact ⟨rfl, rfl⟩
    rename_i hType
    rw [if_neg hType]
    split at hEnd
    · rename_i hType
      obtain ⟨hText, hJson⟩ := Bool.and_eq_true_iff.mp hEnd
      rw [if_pos hType, Option.isNone_iff_eq_none.mp hText, addJson, (Bool.not_eq_true' _).mp hJson]
      have hSame : ({ s with text := s.text ++ [] } : State) = s := by
        rw [List.append_nil]
      exact ⟨rfl, congrArg (fun s => some (finish P s).answer) hSame⟩
    rename_i hType
    rw [if_neg hType]
    split at hEnd
    · rename_i hType
      obtain ⟨hOutput, hReasoning⟩ := Bool.and_eq_true_iff.mp hEnd
      rw [if_pos hType, Economics.AnthropicCounts.read,
        takeCount_of_not ((Bool.not_eq_true' _).mp hOutput),
        takeCount_of_not ((Bool.not_eq_true' _).mp hReasoning)]
      exact ⟨rfl, rfl⟩
    · rename_i hType
      rw [if_neg hType]
      exact ⟨rfl, rfl⟩

end Anthropic

section Streams

variable {σ : Type} {read : σ → Json → List Json × Option σ} {base : σ → StreamResult}
  {close : σ → Text → Option StreamResult} {start : σ}

/-- What a stream yields that reads events one after another and closes with what is left. -/
def outcome (P : Platform) (read : σ → Json → List Json × Option σ) (start : σ)
    (close : σ → Text → Option StreamResult) (chunks : List Bytes) : Outcome :=
  let body := readBody P read .fresh [] start chunks
  ⟨body.1, body.2.bind fun last => close last.1 last.2⟩

theorem outcome_eq (chunks : List Bytes) : outcome P read start close chunks =
    let texts := Decoder.fresh.decodeAll chunks
    let body := readAll read start ((cut '\n' [] (texts.flatMap normalized)).1.filterMap (frameEvent P))
    ⟨body.1, body.2.bind fun s => close s (unfinished texts)⟩ := by
  rw [outcome, readBody_eq _ _ _ List.not_mem_nil, cutAll_texts]
  dsimp only
  cases readAll read start _ with
  | mk deltas next => cases next <;> rfl

theorem withoutMark_append (t : Text) : Decoder.withoutMark (t ++ ['\n', '\n']) =
    Decoder.withoutMark t ++ ['\n', '\n'] := by
  cases t with
  | nil => rfl
  | cons c t =>
    rw [Decoder.withoutMark, Decoder.withoutMark, List.cons_append, List.head?_cons, List.head?_cons]
    split <;> rfl

theorem texts_whole (t : Text) : Decoder.fresh.decodeAll [encode t ++ [10, 10]] =
    [Decoder.withoutMark t ++ ['\n', '\n']] := by
  have hEncode : encode t ++ [10, 10] = encode (t ++ ['\n', '\n']) := by
    rw [encode, encode, List.flatMap_append]
    rfl
  have hDecode : (Decoder.fresh.decode (encode (t ++ ['\n', '\n']))).1 =
      Decoder.withoutMark (t ++ ['\n', '\n']) := by
    rw [Decoder.decode, Decoder.fresh]
    dsimp only
    rw [decodePiece_encode]
    rfl
  rw [hEncode, Decoder.decodeAll, hDecode, withoutMark_append]
  rfl

variable (base close) in
/-- A stream that closes with what its loop would read yields the same for the chunks as for the
whole. -/
theorem outcome_chunks {t : Text} {chunks : List Bytes} (h : chunks.flatten = encode t)
    (hCuts : CleanCuts (Decoder.fresh.decodeAll chunks))
    (hNone : ∀ u, Left u → frameEvent P u = none → ∀ s, close s u = some (base s))
    (hEvent : ∀ data, frameEvent P (unfinished (Decoder.fresh.decodeAll chunks)) = some data →
      ∀ s, (read s data).1 = [] ∧
        (close s (unfinished (Decoder.fresh.decodeAll chunks))).map (·.answer) =
          (read s data).2.map fun s => (base s).answer) :
    SameAnswer (outcome P read start close chunks)
      (outcome P read start close [encode t ++ [10, 10]]) := by
  rw [outcome_eq, outcome_eq, texts_whole]
  have hFlat : (Decoder.fresh.decodeAll chunks).flatten = Decoder.withoutMark t :=
    Decoder.decodeAll_encode h
  generalize Decoder.fresh.decodeAll chunks = texts at *
  have hEvents := events_of_cleanCuts (P := P) hCuts
  rw [hFlat] at hEvents
  have hWhole : [Decoder.withoutMark t ++ ['\n', '\n']].flatMap normalized =
      normalized (Decoder.withoutMark t ++ ['\n', '\n']) := List.append_nil _
  dsimp only
  rw [hWhole, hEvents, readAll_append]
  cases readAll read start ((cut '\n' [] (texts.flatMap normalized)).1.filterMap (frameEvent P)) with
  | mk deltas next =>
    cases next with
    | none => exact ⟨rfl, rfl⟩
    | some s =>
      have hRest (s : σ) : close s (unfinished [Decoder.withoutMark t ++ ['\n', '\n']]) =
          some (base s) := by
        refine hNone _ (left_unfinished _) ?_ s
        rw [unfinished, hWhole]
        exact frameEvent_whole _
      cases hLast : frameEvent P (unfinished texts) with
      | none =>
        refine ⟨(List.append_nil _).symm, ?_⟩
        change (close s (unfinished texts)).map _ = (close s _).map _
        rw [hNone _ (left_unfinished texts) hLast s, hRest]
      | some data =>
        obtain ⟨hDeltas, hAnswer⟩ := hEvent data hLast s
        cases hRead : read s data with
        | mk more next =>
          rw [hRead] at hDeltas hAnswer
          obtain rfl : more = [] := hDeltas
          have hOne : readAll read s [data] = ([], next) := by
            rw [readAll.eq_def]
            dsimp only
            rw [hRead]
            cases next <;> rfl
          rw [Option.toList_some]
          dsimp only
          rw [hOne]
          cases next with
          | none => exact ⟨(List.append_nil _).symm, hAnswer⟩
          | some s' =>
            refine ⟨(List.append_nil _).symm, ?_⟩
            change (close s (unfinished texts)).map _ = (close s' _).map _
            rw [hAnswer, hRest]
            rfl

end Streams

/-- For a body of any text, a stream yields for chunks that are cut cleanly and leave nothing unread
what it yields for the whole with a blank line at the end. -/
theorem stream_chunks (P : Platform) (provider : Provider) {t : Text} {chunks : List Bytes}
    (h : chunks.flatten = encode t) (hCuts : CleanCuts (Decoder.fresh.decodeAll chunks))
    (hEnd : endsWell P provider (unfinished (Decoder.fresh.decodeAll chunks)) = true) :
    SameAnswer (stream P provider chunks) (stream P provider [encode t ++ [10, 10]]) := by
  cases provider with
  | openai =>
    refine outcome_chunks (P := P) (OpenAi.finish P)
      (fun s buffer => (OpenAi.flush P s buffer).map (OpenAi.finish P)) h hCuts
      (fun u hLeft hNone s => ?_) fun data hData s => ?_
    · rw [OpenAi.close_none hLeft hNone]
      rfl
    · obtain ⟨hDeltas, hAnswer⟩ := OpenAi.close_event (left_unfinished _) hData hEnd s
      refine ⟨hDeltas, ?_⟩
      rw [Option.map_map]
      exact hAnswer
  | anthropic =>
    have hStream (chunks : List Bytes) : Anthropic.stream P chunks =
        outcome P (Anthropic.read P) Anthropic.start (fun s _ => some (Anthropic.finish P s)) chunks := by
      rw [Anthropic.stream, outcome, Option.map_eq_bind]
      rfl
    rw [stream, hStream, hStream]
    refine outcome_chunks (Anthropic.finish P) (fun s _ => some (Anthropic.finish P s)) h hCuts
      (fun _ _ _ _ => rfl) fun data hData s => ?_
    obtain ⟨hDeltas, hAnswer⟩ := Anthropic.read_event hData hEnd s
    exact ⟨hDeltas, hAnswer.symm⟩

def contentLines : Text × Text :=
  ("\x7b\"choices\":[\x7b\"delta\":".toList, "\x7b\"content\":\"hé\"\x7d\x7d]\x7d".toList)

def usageLine : Text :=
  "\x7b\"choices\":[],\"usage\":\x7b\"prompt_tokens\":3,\"completion_tokens\":5\x7d\x7d".toList

def smallPlatform : Platform where
  parse t :=
    if t = contentLines.1 ++ '\n' :: contentLines.2 then
      some (.obj [("choices", .arr [.obj [("delta", .obj [("content", .str "hé")])]])])
    else if t = usageLine then
      some (.obj [("choices", .arr []), ("usage", .obj [("prompt_tokens", .num (.ofNat 3)),
        ("completion_tokens", .num (.ofNat 5))])])
    else none
  number v :=
    match v with
    | .num n => some (n.text.foldl (fun q c => q * 10 + (c.toNat - '0'.toNat : Nat)) 0)
    | _ => none
  string v :=
    match v with
    | .str s => s.toList
    | _ => []
  indexText _ := ['0']
  isSpace c := c = ' ' ∨ c = '\n' ∨ c = '\r' ∨ c = '\t'

def twoLines : Text × Text :=
  ("data: ".toList ++ contentLines.1 ++ ['\r'], "\ndata: ".toList ++ contentLines.2)

def meteredBody : Text :=
  twoLines.1 ++ twoLines.2 ++ "\r\n\r\ndata: ".toList ++ usageLine ++ ['\n']

/-- The body is cut within a character and, where the event has all its data, within a line end. -/
def meteredChunks : List Bytes :=
  let bytes := encode meteredBody
  let cuts := (encode (twoLines.1 ++ "\ndata: ".toList)).length + 14
  let ends := (encode (twoLines.1 ++ twoLines.2 ++ ['\r'])).length
  [bytes.take cuts, (bytes.take ends).drop cuts, [], bytes.drop ends]

theorem stream_chunks_metered :
    (stream smallPlatform .openai meteredChunks).result.map (·.answer.text) = some "hé".toList ∧
      (meteredChunks.head?.bind List.getLast?) = some 0xC3 ∧
      SameAnswer (stream smallPlatform .openai meteredChunks)
        (stream smallPlatform .openai [encode meteredBody ++ [10, 10]]) :=
  ⟨by decide +kernel, by decide +kernel,
    stream_chunks smallPlatform .openai (by decide +kernel) (by decide +kernel) (by decide +kernel)⟩

/-- Cut between its data lines, or without a blank line after it, an event is lost. -/
theorem event_lost :
    ¬ SameAnswer (stream smallPlatform .openai
        [encode twoLines.1, encode (twoLines.2 ++ "\r\n\r\n".toList)])
      (stream smallPlatform .openai
        [encode (twoLines.1 ++ twoLines.2 ++ "\r\n\r\n".toList) ++ [10, 10]]) ∧
    ¬ SameAnswer (stream smallPlatform .openai [encode (twoLines.1 ++ twoLines.2)])
      (stream smallPlatform .openai [encode (twoLines.1 ++ twoLines.2) ++ [10, 10]]) :=
  ⟨fun h => absurd (congrArg List.length h.1) (by decide +kernel),
    fun h => absurd (congrArg List.length h.1) (by decide +kernel)⟩

end OrchestraAI.Providers
