import Mathlib.Data.List.DropRight
import Mathlib.Data.Rat.Floor
import OrchestraAI.Library.BlankLineBlocks
import OrchestraAI.Library.JsonText
import OrchestraAI.Library.TextUnits
import OrchestraAI.Library.Utf8

/-! # Event streams of providers

`parseSseData` of `providers/provider-adapter.js`, and the loop in which the adapters read the chunks
of a response.
-/

namespace OrchestraAI.Providers

open BlankLineBlocks Utf8

structure Platform where
  /-- `JSON.parse`, unless it throws. -/
  parse : Text → Option Json
  /-- `Number(v)`, where it is finite. -/
  number : Json → Option ℚ
  /-- `String(v)`. -/
  string : Json → Text
  /-- The text of `Number(v) || 0`. -/
  indexText : Option Json → Text
  /-- What `trim` takes off. -/
  isSpace : Char → Bool

variable (P : Platform)

def trim (t : Text) : Text := Text.trimBy P.isSpace t

/-- `.replace(/\r\n/g, '\n')`. -/
def joinCrLf : Text → Text
  | '\r' :: '\n' :: t => '\n' :: joinCrLf t
  | c :: t => c :: joinCrLf t
  | [] => []

/-- `.replace(/\r\n/g, '\n').replace(/\r/g, '\n')`. -/
def normalized (t : Text) : Text := (joinCrLf t).map fun c => if c = '\r' then '\n' else c

def dataLine (line : Text) : Option Text :=
  if line = [] ∨ line.head? = some ':' then none
  else if "data:".toList.isPrefixOf line then
    let rest := line.drop 5
    some (if rest.head? = some ' ' then rest.tail else rest)
  else none

def doneEvent : Json := .obj [("done", .bool true)]

def eventOf (dataLines : List Text) : Option Json :=
  let raw := trim P (['\n'].intercalate dataLines)
  if raw = [] then none
  else if raw = "[DONE]".toList then some doneEvent
  else P.parse raw

def frameEvent (frame : Text) : Option Json :=
  let dataLines := (frame.splitOn '\n').filterMap dataLine
  if dataLines = [] then none else eventOf P dataLines

/-- `parseSseData(buffer, { flush })`. -/
def parseSseData (buffer : Text) (flush : Bool) : List Json × Text :=
  let parts := cut '\n' [] (normalized buffer)
  -- the text has a delimiter if it was cut
  if flush ∧ parts.1 = [] ∧ trim P parts.2 ≠ [] then ([parts.2].filterMap (frameEvent P), [])
  else (parts.1.filterMap (frameEvent P), parts.2)

attribute [grind =] joinCrLf

section Loop

variable {σ : Type} (read : σ → Json → List Json × Option σ)

def readAll (s : σ) : List Json → List Json × Option σ
  | [] => ([], some s)
  | data :: events =>
    match read s data with
    | (deltas, none) => (deltas, none)
    | (deltas, some s) =>
      let rest := readAll s events
      (deltas ++ rest.1, rest.2)

def readBody (decoder : Decoder) (buffer : Text) (s : σ) :
    List Bytes → List Json × Option (σ × Text)
  | [] => ([], some (s, buffer))
  | chunk :: chunks =>
    let decoded := decoder.decode chunk
    let parsed := parseSseData P (buffer ++ decoded.1) false
    match readAll read s parsed.1 with
    | (deltas, none) => (deltas, none)
    | (deltas, some s) =>
      let rest := readBody decoded.2 parsed.2 s chunks
      (deltas ++ rest.1, rest.2)

attribute [grind =] readAll readBody

end Loop

/-- The line ends of a text as line feeds; one that completes a line end of two characters is left
out. -/
def lineEnds (afterCr : Bool) : Text → Text
  | [] => []
  | c :: t =>
    if c = '\r' then '\n' :: lineEnds true t
    else if c = '\n' ∧ afterCr then lineEnds false t
    else c :: lineEnds false t

def endsWithCr (afterCr : Bool) : Text → Bool
  | [] => afterCr
  | c :: t => endsWithCr (c = '\r') t

attribute [grind =] lineEnds endsWithCr

variable {P} {t u : Text}

theorem lineEnds_append (afterCr : Bool) (t u : Text) :
    lineEnds afterCr (t ++ u) = lineEnds afterCr t ++ lineEnds (endsWithCr afterCr t) u := by
  induction t generalizing afterCr with
  | nil => rfl
  | cons c t ih =>
    rw [List.cons_append, lineEnds, lineEnds, endsWithCr]
    split
    · rename_i hCr
      rw [ih, decide_eq_true hCr, List.cons_append]
    · rename_i hCr
      rw [decide_eq_false hCr]
      split
      · exact ih false
      · rw [ih, List.cons_append]

theorem endsWithCr_append (afterCr : Bool) (t u : Text) :
    endsWithCr afterCr (t ++ u) = endsWithCr (endsWithCr afterCr t) u := by
  induction t generalizing afterCr with
  | nil => rfl
  | cons c t ih => exact ih _

theorem lineEnds_false (t : Text) : lineEnds false t =
    if t.head? = some '\n' then '\n' :: lineEnds true t else lineEnds true t := by
  cases t with
  | nil => rfl
  | cons c t =>
    rw [List.head?_cons, lineEnds, lineEnds]
    by_cases hLf : c = '\n'
    · subst hLf
      rfl
    · rw [if_neg fun h => hLf (Option.some.inj h)]
      simp only [hLf, false_and, if_false]

theorem normalized_eq (t : Text) : normalized t = lineEnds false t := by
  induction t using joinCrLf.induct with
  | case1 t ih =>
    rw [normalized, joinCrLf, List.map_cons]
    exact congrArg ('\n' :: ·) ih
  | case2 c t hNext ih =>
    have hJoin : joinCrLf (c :: t) = c :: joinCrLf t := by
      rw [joinCrLf]
      exact hNext
    rw [normalized, hJoin, List.map_cons, lineEnds]
    split
    · rename_i hCr
      have hHead : t.head? ≠ some '\n' := by
        intro hHead
        obtain ⟨u, rfl⟩ := List.head?_eq_some_iff.mp hHead
        exact hNext u hCr rfl
      refine congrArg ('\n' :: ·) (ih.trans ?_)
      rw [lineEnds_false, if_neg hHead]
    · rw [if_neg fun h => Bool.false_ne_true h.2]
      exact congrArg (c :: ·) ih
  | case3 => rfl

theorem cr_notMem_lineEnds (afterCr : Bool) (t : Text) : '\r' ∉ lineEnds afterCr t := by
  induction t generalizing afterCr with
  | nil => exact List.not_mem_nil
  | cons c t ih =>
    rw [lineEnds]
    split
    · rw [List.mem_cons]
      rintro (hEq | hMem)
      · exact absurd hEq (by decide)
      · exact ih true hMem
    · rename_i hCr
      split
      · exact ih false
      · rw [List.mem_cons]
        rintro (hEq | hMem)
        · exact hCr hEq.symm
        · exact ih false hMem

theorem lineEnds_of_notMem (h : '\r' ∉ t) : lineEnds false t = t ∧ endsWithCr false t = false := by
  induction t with
  | nil => exact ⟨rfl, rfl⟩
  | cons c t ih =>
    have hc : c ≠ '\r' := fun hEq => h (hEq ▸ List.mem_cons_self)
    obtain ⟨hText, hEnd⟩ := ih fun hMem => h (List.mem_cons_of_mem c hMem)
    rw [lineEnds, if_neg hc, if_neg fun hAfter => Bool.false_ne_true hAfter.2, hText, endsWithCr,
      decide_eq_false hc]
    exact ⟨rfl, hEnd⟩

theorem normalized_append (h : '\r' ∉ t) (u : Text) : normalized (t ++ u) = t ++ normalized u := by
  rw [normalized_eq, normalized_eq, lineEnds_append, (lineEnds_of_notMem h).1,
    (lineEnds_of_notMem h).2]

theorem frameEvent_eq (frame : Text) : (frameEvent P frame).toList =
    (ended (items '\n' dataLine frame)).filterMap (eventOf P) := by
  rw [frameEvent, items, ended]
  split
  · rfl
  · rw [List.filterMap_cons, List.filterMap_nil]
    cases eventOf P ((frame.splitOn '\n').filterMap dataLine) <;> rfl

theorem frames_events (frames : List Text) : frames.filterMap (frameEvent P) =
    (frames.flatMap fun p => ended (items '\n' dataLine p)).filterMap (eventOf P) := by
  induction frames with
  | nil => rfl
  | cons frame frames ih =>
    rw [List.flatMap_cons, List.filterMap_append, ← frameEvent_eq, ← ih, List.filterMap_cons]
    cases frameEvent P frame <;> rfl

section Loop

variable {σ : Type} {read : σ → Json → List Json × Option σ}

theorem readAll_append (s : σ) (l m : List Json) : readAll read s (l ++ m) =
    match readAll read s l with
    | (deltas, none) => (deltas, none)
    | (deltas, some s) => (deltas ++ (readAll read s m).1, (readAll read s m).2) := by
  induction l generalizing s with
  | nil => rfl
  | cons data l ih =>
    rw [List.cons_append, readAll, readAll]
    cases hRead : read s data with
    | mk deltas next =>
      cases next with
      | none => rfl
      | some s =>
        dsimp only
        rw [ih]
        cases hRest : readAll read s l with
        | mk rest last =>
          cases last with
          | none => rfl
          | some s => exact congrArg (·, _) (List.append_assoc _ _ _).symm

theorem readBody_eq (decoder : Decoder) {buffer : Text} (s : σ) (chunks : List Bytes)
    (hBuffer : '\r' ∉ buffer) : readBody P read decoder buffer s chunks =
      let frames := cutAll '\n' buffer ((decoder.decodeAll chunks).map normalized)
      match readAll read s (frames.1.filterMap (frameEvent P)) with
      | (deltas, none) => (deltas, none)
      | (deltas, some s) => (deltas, some (s, frames.2)) := by
  induction chunks generalizing decoder buffer s with
  | nil => rfl
  | cons chunk chunks ih =>
    rw [readBody, Decoder.decodeAll, List.map_cons, cutAll]
    have hParsed : parseSseData P (buffer ++ (decoder.decode chunk).1) false =
        ((cut '\n' [] (buffer ++ normalized (decoder.decode chunk).1)).1.filterMap (frameEvent P),
          (cut '\n' [] (buffer ++ normalized (decoder.decode chunk).1)).2) := by
      rw [parseSseData, normalized_append hBuffer]
      exact if_neg fun h => Bool.false_ne_true h.1
    have hLeft : '\r' ∉ (cut '\n' [] (buffer ++ normalized (decoder.decode chunk).1)).2 := by
      intro hMem
      obtain hNone | hMem := mem_cut hMem
      · cases hNone
      · obtain hMem | hMem := List.mem_append.mp hMem
        · exact hBuffer hMem
        · rw [normalized_eq] at hMem
          exact cr_notMem_lineEnds false _ hMem
    rw [hParsed]
    dsimp only
    rw [List.filterMap_append, readAll_append]
    cases readAll read s _ with
    | mk deltas next =>
      cases next with
      | none => rfl
      | some s =>
        dsimp only
        rw [ih _ _ hLeft]
        dsimp only
        cases readAll read s _ with
        | mk rest last => cases last <;> rfl

end Loop

end OrchestraAI.Providers
