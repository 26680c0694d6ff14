import OrchestraAI.Context.Manager
import OrchestraAI.Library.AddressText

/-! # The fingerprint of a context

`fingerprintContext` of `intelligence/context-engine.js`. The first sixteen digits of a SHA-256 are a
parameter.
-/

namespace OrchestraAI.Context

open CodeUnits (Units quotedUnits)

structure FingerprintItem where
  kind : Option Text
  title : Option Text
  tokens : Option Numeral
  status : Text

structure ToolSpec where
  /-- `function.name`. -/
  functionName : Text
  name : Text

structure FingerprintInput where
  taskText : Text
  task : Text
  contextItems : List FingerprintItem
  /-- The titles, empty where there is none. -/
  memoryItems : List Text
  toolSpecs : List ToolSpec
  policy : Json

def FingerprintItem.identity (i : FingerprintItem) : List Text :=
  [shown i.kind, shown i.title, shown (i.tokens.map Numeral.text), textOr i.status "KEEP".toList]

def FingerprintItem.row (i : FingerprintItem) : Text := [':'].intercalate i.identity

/-- The name, or what `String` makes of an object. -/
def ToolSpec.toolName (t : ToolSpec) : Text :=
  textOr t.functionName (textOr t.name "[object Object]".toList)

/-- `texts.sort()`. -/
def sortTexts (ts : List Text) : List Text := ts.insertionSort fun a b => unitsOf a ≤ unitsOf b

def sortedLine (ts : List Text) : Text := ['|'].intercalate (sortTexts ts)

structure Canon where
  task : Units
  context : Text
  memory : Text
  tools : Text
  policy : Units

def canonOf (input : FingerprintInput) : Canon where
  task := (unitsOf (textOr input.taskText input.task)).take 2000
  context := sortedLine (input.contextItems.map FingerprintItem.row)
  memory := sortedLine input.memoryItems
  tools := sortedLine (input.toolSpecs.map ToolSpec.toolName)
  policy := if input.policy.truthy then (unitsOf (stringify input.policy)).take 1000 else []

def jsonField (key : Text) (value rest : Text) : Text := key ++ (value ++ rest)

/-- `JSON.stringify(canon)`. -/
def Canon.text (c : Canon) : Text :=
  jsonField "\x7b\"task\":".toList (quotedUnits c.task) <|
    jsonField ",\"context\":".toList (quoted c.context) <|
    jsonField ",\"memory\":".toList (quoted c.memory) <|
    jsonField ",\"tools\":".toList (quoted c.tools) <|
    jsonField ",\"policy\":".toList (quotedUnits c.policy) ['\x7d']

def fingerprintContext (digest : Text → Text) (input : FingerprintInput) : Text :=
  "ctxfp-".toList ++ digest (canonOf input).text

def Canon.Valid (c : Canon) : Prop := (∀ u ∈ c.task, u < 0x10000) ∧ ∀ u ∈ c.policy, u < 0x10000

theorem canonOf_valid (input : FingerprintInput) : (canonOf input).Valid := by
  constructor
  · exact fun u hu => CodeUnits.ofText_lt (List.mem_of_mem_take hu)
  · intro u hu
    rw [canonOf] at hu
    dsimp only at hu
    split at hu
    · exact CodeUnits.ofText_lt (List.mem_of_mem_take hu)
    · cases hu

theorem jsonField_quoted {key s t r r' : Text} (h : jsonField key (quoted s) r = jsonField key (quoted t) r') :
    s = t ∧ r = r' :=
  quoted_readOnly (List.append_cancel_left h)

theorem jsonField_quotedUnits {key r r' : Text} {s t : Units} (hs : ∀ u ∈ s, u < 0x10000)
    (ht : ∀ u ∈ t, u < 0x10000)
    (h : jsonField key (quotedUnits s) r = jsonField key (quotedUnits t) r') : s = t ∧ r = r' :=
  CodeUnits.quotedUnits_readOnly hs ht (List.append_cancel_left h)

theorem Canon.text_injective {c d : Canon} (hc : c.Valid) (hd : d.Valid) (h : c.text = d.text) : c = d := by
  obtain ⟨hTask, h⟩ := jsonField_quotedUnits hc.1 hd.1 h
  obtain ⟨hContext, h⟩ := jsonField_quoted h
  obtain ⟨hMemory, h⟩ := jsonField_quoted h
  obtain ⟨hTools, h⟩ := jsonField_quoted h
  obtain ⟨hPolicy, -⟩ := jsonField_quotedUnits hc.2 hd.2 h
  cases c
  cases d
  cases hTask
  cases hContext
  cases hMemory
  cases hTools
  cases hPolicy
  rfl

theorem fingerprint_congr (digest : Text → Text) {a b : FingerprintInput} (h : canonOf a = canonOf b) :
    fingerprintContext digest a = fingerprintContext digest b :=
  congrArg (fun c : Canon => "ctxfp-".toList ++ digest c.text) h

theorem fingerprint_eq_iff {digest : Text → Text} (hDigest : Function.Injective digest)
    (a b : FingerprintInput) :
    fingerprintContext digest a = fingerprintContext digest b ↔ canonOf a = canonOf b := by
  constructor
  · intro h
    exact Canon.text_injective (canonOf_valid a) (canonOf_valid b) (hDigest (List.append_cancel_left h))
  · exact fingerprint_congr digest

theorem sortTexts_eq_iff {as bs : List Text} : sortTexts as = sortTexts bs ↔ as.Perm bs := by
  have hPerm (ts : List Text) : (sortTexts ts).Perm ts := List.perm_insertionSort _ ts
  have hTotal : Std.Total fun a b : Text => unitsOf a ≤ unitsOf b := ⟨fun a b => le_total _ _⟩
  have hTrans : IsTrans Text fun a b => unitsOf a ≤ unitsOf b := ⟨fun _ _ _ => le_trans⟩
  constructor
  · intro h
    exact (hPerm as).symm.trans (h ▸ hPerm bs)
  · intro h
    have hBoth : (sortTexts as).Perm (sortTexts bs) := (hPerm as).trans (h.trans (hPerm bs).symm)
    apply hBoth.eq_of_pairwise _ (List.pairwise_insertionSort _ as) (List.pairwise_insertionSort _ bs)
    exact fun a b _ _ hab hba => CodeUnits.ofText_injective (le_antisymm hab hba)

theorem intercalate_bar_injective {as bs : List Text} (ha : ∀ t ∈ as, '|' ∉ t ∧ t ≠ [])
    (hb : ∀ t ∈ bs, '|' ∉ t ∧ t ≠ []) (h : ['|'].intercalate as = ['|'].intercalate bs) : as = bs := by
  have hEmpty {ts : List Text} (hts : ∀ t ∈ ts, '|' ∉ t ∧ t ≠ []) (hNil : ['|'].intercalate ts = []) :
      ts = [] := by
    cases ts with
    | nil => rfl
    | cons t ts =>
      have hText := (hts t List.mem_cons_self).2
      cases ts with
      | nil =>
        rw [List.intercalate_singleton] at hNil
        exact absurd hNil hText
      | cons u ts =>
        rw [List.intercalate_cons_cons] at hNil
        have hBar := (List.append_eq_nil_iff.mp (List.append_eq_nil_iff.mp hNil).1).1
        exact absurd hBar hText
  by_cases hA : as = []
  · subst hA
    exact (hEmpty hb h.symm).symm
  by_cases hB : bs = []
  · subst hB
    exact hEmpty ha h
  rw [← List.splitOn_intercalate '|' (fun t ht => (ha t ht).1) hA, h,
    List.splitOn_intercalate '|' (fun t ht => (hb t ht).1) hB]

theorem sortedLine_eq_iff {as bs : List Text} (ha : ∀ t ∈ as, '|' ∉ t ∧ t ≠ [])
    (hb : ∀ t ∈ bs, '|' ∉ t ∧ t ≠ []) : sortedLine as = sortedLine bs ↔ as.Perm bs := by
  have hMem {ts : List Text} (t : Text) (ht : t ∈ sortTexts ts) : t ∈ ts :=
    (List.perm_insertionSort _ ts).mem_iff.mp ht
  rw [← sortTexts_eq_iff]
  constructor
  · exact intercalate_bar_injective (fun t ht => ha t (hMem t ht)) fun t ht => hb t (hMem t ht)
  · exact congrArg ['|'].intercalate

/-- No text that goes into a line has its separator, no kind or status that of the fields, and no
title of a memory is missing. -/
structure Separable (input : FingerprintInput) : Prop where
  items : ∀ i ∈ input.contextItems, ':' ∉ shown i.kind ∧ ':' ∉ textOr i.status "KEEP".toList ∧
    ∀ t ∈ [shown i.kind, shown i.title, textOr i.status "KEEP".toList], '|' ∉ t
  memory : ∀ t ∈ input.memoryItems, '|' ∉ t ∧ t ≠ []
  tools : ∀ t ∈ input.toolSpecs, '|' ∉ t.toolName

theorem tokens_unseparated (n : Option Numeral) :
    ':' ∉ shown (n.map Numeral.text) ∧ '|' ∉ shown (n.map Numeral.text) := by
  cases n with
  | none => decide
  | some n => exact ⟨fun h => absurd (n.numeric _ h) (by decide), fun h => absurd (n.numeric _ h) (by decide)⟩

theorem identity_unbarred {input : FingerprintInput} (h : Separable input) {i : FingerprintItem}
    (hi : i ∈ input.contextItems) : ∀ t ∈ i.identity, '|' ∉ t := by
  have hItems := (h.items i hi).2.2
  simp only [FingerprintItem.identity, List.mem_cons, List.not_mem_nil, or_false] at hItems ⊢
  rintro t (rfl | rfl | rfl | rfl)
  · exact hItems _ (.inl rfl)
  · exact hItems _ (.inr (.inl rfl))
  · exact (tokens_unseparated i.tokens).2
  · exact hItems _ (.inr (.inr rfl))

theorem split_at_colon {a : Text} (h : ':' ∉ a) (b : Text) :
    (a ++ ':' :: b).takeWhile (· ≠ ':') = a ∧ ((a ++ ':' :: b).dropWhile (· ≠ ':')).tail = b := by
  have hFront : ∀ c ∈ a, decide (c ≠ ':') = true := fun c hc => decide_eq_true (ne_of_mem_of_not_mem hc h)
  rw [List.takeWhile_append_of_pos hFront, List.dropWhile_append_of_pos hFront]
  simp

def fieldsOf (row : Text) : List Text :=
  let back := (row.dropWhile (· ≠ ':')).tail.reverse
  let front := (back.dropWhile (· ≠ ':')).tail
  [row.takeWhile (· ≠ ':'), (front.dropWhile (· ≠ ':')).tail.reverse,
    (front.takeWhile (· ≠ ':')).reverse, (back.takeWhile (· ≠ ':')).reverse]

theorem fieldsOf_row {input : FingerprintInput} (h : Separable input) {i : FingerprintItem}
    (hi : i ∈ input.contextItems) : fieldsOf i.row = i.identity := by
  obtain ⟨hKind, hStatus, -⟩ := h.items i hi
  have hTokens := (tokens_unseparated i.tokens).1
  have hRow : i.row = shown i.kind ++ ':' :: (shown i.title ++ ':' ::
      (shown (i.tokens.map Numeral.text) ++ ':' :: textOr i.status "KEEP".toList)) := by
    simp [FingerprintItem.row, FingerprintItem.identity]
  obtain ⟨hFirst, hBehind⟩ := split_at_colon hKind (shown i.title ++ ':' ::
    (shown (i.tokens.map Numeral.text) ++ ':' :: textOr i.status "KEEP".toList))
  have hBack : (shown i.title ++ ':' :: (shown (i.tokens.map Numeral.text) ++ ':' ::
      textOr i.status "KEEP".toList)).reverse = (textOr i.status "KEEP".toList).reverse ++ ':' ::
        ((shown (i.tokens.map Numeral.text)).reverse ++ ':' :: (shown i.title).reverse) := by
    simp
  obtain ⟨hLast, hFront⟩ := split_at_colon (a := (textOr i.status "KEEP".toList).reverse)
    (by rwa [List.mem_reverse]) ((shown (i.tokens.map Numeral.text)).reverse ++ ':' :: (shown i.title).reverse)
  obtain ⟨hThird, hSecond⟩ := split_at_colon (a := (shown (i.tokens.map Numeral.text)).reverse)
    (by rwa [List.mem_reverse]) (shown i.title).reverse
  rw [fieldsOf, hRow, hFirst, hBehind, hBack, hLast, hFront, hThird, hSecond, List.reverse_reverse, List.reverse_reverse,
    List.reverse_reverse]
  rfl

theorem rows_unbarred {input : FingerprintInput} (h : Separable input) :
    ∀ t ∈ input.contextItems.map FingerprintItem.row, '|' ∉ t ∧ t ≠ [] := by
  intro t ht
  obtain ⟨i, hi, rfl⟩ := List.mem_map.mp ht
  constructor
  · intro hBar
    obtain hColon | ⟨field, hField, hMem⟩ := AddressText.mem_intercalate hBar
    · exact absurd hColon (by decide)
    · exact identity_unbarred h hi field hField hMem
  · intro hNil
    rw [FingerprintItem.row, FingerprintItem.identity, List.intercalate_cons_cons] at hNil
    exact absurd (List.append_eq_nil_iff.mp (List.append_eq_nil_iff.mp hNil).1).2 (List.cons_ne_nil _ _)

theorem toolNames_unbarred {input : FingerprintInput} (h : Separable input) :
    ∀ t ∈ input.toolSpecs.map ToolSpec.toolName, '|' ∉ t ∧ t ≠ [] := by
  intro t ht
  obtain ⟨tool, hTool, rfl⟩ := List.mem_map.mp ht
  refine ⟨h.tools tool hTool, ?_⟩
  rw [ToolSpec.toolName, textOr]
  split
  · rw [textOr]
    split
    · decide
    · assumption
  · assumption

/-- The inputs agree in all that the fingerprint keeps: the first 2000 units of the task, the items,
titles and names in any order, and the first 1000 units of the policy. -/
structure SameKept (a b : FingerprintInput) : Prop where
  task : (canonOf a).task = (canonOf b).task
  context : (a.contextItems.map FingerprintItem.identity).Perm (b.contextItems.map FingerprintItem.identity)
  memory : a.memoryItems.Perm b.memoryItems
  tools : (a.toolSpecs.map ToolSpec.toolName).Perm (b.toolSpecs.map ToolSpec.toolName)
  policy : (canonOf a).policy = (canonOf b).policy

theorem SameKept.canon {a b : FingerprintInput} (h : SameKept a b) : canonOf a = canonOf b := by
  have hRows : (a.contextItems.map FingerprintItem.row).Perm (b.contextItems.map FingerprintItem.row) := by
    have hMap := h.context.map [':'].intercalate
    rwa [List.map_map, List.map_map] at hMap
  have hLine {as bs : List Text} (hPerm : as.Perm bs) : sortedLine as = sortedLine bs := by
    rw [sortedLine, sortedLine, sortTexts_eq_iff.mpr hPerm]
  have hTask := h.task
  have hPolicy := h.policy
  simp only [canonOf] at hTask hPolicy ⊢
  rw [hTask, hPolicy, hLine hRows, hLine h.memory, hLine h.tools]

theorem sameKept_of_canon {a b : FingerprintInput} (ha : Separable a) (hb : Separable b)
    (h : canonOf a = canonOf b) : SameKept a b where
  task := congrArg Canon.task h
  context := by
    have hRows := (sortedLine_eq_iff (rows_unbarred ha) (rows_unbarred hb)).mp (congrArg Canon.context h)
    have hIdentities {input : FingerprintInput} (hInput : Separable input) :
        (input.contextItems.map FingerprintItem.row).map fieldsOf =
          input.contextItems.map FingerprintItem.identity := by
      rw [List.map_map]
      exact List.map_congr_left fun i hi => fieldsOf_row hInput hi
    rw [← hIdentities ha, ← hIdentities hb]
    exact hRows.map _
  memory := (sortedLine_eq_iff ha.memory hb.memory).mp (congrArg Canon.memory h)
  tools := (sortedLine_eq_iff (toolNames_unbarred ha) (toolNames_unbarred hb)).mp (congrArg Canon.tools h)
  policy := congrArg Canon.policy h

/-- With digests that tell all texts apart. -/
theorem fingerprint_identifies {digest : Text → Text} (hDigest : Function.Injective digest)
    (a b : FingerprintInput) :
    (SameKept a b → fingerprintContext digest a = fingerprintContext digest b) ∧
      (Separable a → Separable b → fingerprintContext digest a = fingerprintContext digest b →
        SameKept a b) := by
  rw [fingerprint_eq_iff hDigest]
  exact ⟨SameKept.canon, sameKept_of_canon⟩

def titledItems (titles : List String) : List FingerprintItem :=
  titles.map fun title => ⟨some "file".toList, some title.toList, some (.ofNat 10), []⟩

def plainInput (taskText : Text) (titles : List String) : FingerprintInput :=
  ⟨taskText, [], titledItems titles, [], [], .null⟩

theorem fingerprint_identifies_logins :
    Function.Injective (id : Text → Text) ∧
      SameKept (plainInput "fix login".toList ["auth", "other"]) (plainInput "fix login".toList ["other", "auth"]) ∧
      fingerprintContext id (plainInput "fix login".toList ["auth", "other"]) =
        fingerprintContext id (plainInput "fix login".toList ["other", "auth"]) := by
  have hSame : SameKept (plainInput "fix login".toList ["auth", "other"])
      (plainInput "fix login".toList ["other", "auth"]) :=
    ⟨rfl, List.Perm.swap _ _ _, List.Perm.refl _, List.Perm.refl _, rfl⟩
  exact ⟨Function.injective_id, hSame, (fingerprint_identifies Function.injective_id _ _).1 hSame⟩

theorem plainInput_canon {s t : Text} {titles titles' : List String}
    (hTask : (unitsOf s).take 2000 = (unitsOf t).take 2000)
    (hContext : sortedLine ((titledItems titles).map FingerprintItem.row) =
      sortedLine ((titledItems titles').map FingerprintItem.row)) :
    canonOf (plainInput s titles) = canonOf (plainInput t titles') := by
  have hText (u : Text) : textOr u [] = u := by
    rw [textOr]
    split
    · exact Eq.symm ‹_›
    · rfl
  simp only [canonOf, plainInput, hText, hTask, hContext]
  rfl

def longTask : Text := List.replicate 2000 'a'

/-- Of a long task only the beginning is told, and a title may have the separator of the items. -/
theorem fingerprint_confuses :
    ((∀ digest : Text → Text, fingerprintContext digest (plainInput longTask []) =
        fingerprintContext digest (plainInput ('a' :: longTask) [])) ∧
      (plainInput longTask []).taskText ≠ (plainInput ('a' :: longTask) []).taskText) ∧
    (∀ digest : Text → Text, fingerprintContext digest (plainInput [] ["a", "b"]) =
        fingerprintContext digest (plainInput [] ["a:10:KEEP|file:b"])) ∧
      ¬ ((plainInput [] ["a", "b"]).contextItems.map FingerprintItem.identity).Perm
        ((plainInput [] ["a:10:KEEP|file:b"]).contextItems.map FingerprintItem.identity) := by
  have hTask : (unitsOf longTask).take 2000 = (unitsOf ('a' :: longTask)).take 2000 := by
    decide +kernel
  have hContext : sortedLine ((titledItems ["a", "b"]).map FingerprintItem.row) =
      sortedLine ((titledItems ["a:10:KEEP|file:b"]).map FingerprintItem.row) := by decide +kernel
  refine ⟨⟨fun digest => ?_, (List.cons_ne_self _ _).symm⟩, fun digest => ?_, fun h => ?_⟩
  · exact fingerprint_congr digest (plainInput_canon hTask rfl)
  · exact fingerprint_congr digest (plainInput_canon rfl hContext)
  · have hLength := h.length_eq
    simp [plainInput, titledItems] at hLength

end OrchestraAI.Context
