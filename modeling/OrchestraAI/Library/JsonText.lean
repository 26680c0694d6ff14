import Mathlib.Data.List.Sort
import Mathlib.Data.List.Basic
import Mathlib.Data.List.Lex

/-! # JSON texts

Values and the text that `JSON.stringify` writes for them, character by character.
A text is read in one way only, so two values with one text are equal; a text made
after sorting the keys of every object tells values apart up to the order of keys.
-/

abbrev Text := List Char

instance : LawfulBEq Text := List.instLawfulBEq

def numeralChars : List Char := "0123456789+-.e".toList

structure Numeral where
  text : Text
  nonempty : text ≠ []
  numeric : ∀ c ∈ text, c ∈ numeralChars

def Numeral.ofNat (n : Nat) : Numeral where
  text := Nat.toDigits 10 n
  nonempty := Nat.toDigits_ne_nil
  numeric c hc := by
    have hDigit := Nat.isDigit_of_mem_toDigits (by omega) (by omega) hc
    have hRange : c.toNat ∈ List.range' 48 10 := by
      have hBounds : 48 ≤ c.toNat ∧ c.toNat ≤ 57 := Char.isDigit_iff_toNat.mp hDigit
      rw [List.mem_range'_1]
      omega
    rw [← Char.ofNat_toNat c]
    exact (by decide : ∀ n ∈ List.range' 48 10, Char.ofNat n ∈ numeralChars) c.toNat hRange

inductive Json
  | null
  | bool (b : Bool)
  | num (n : Numeral)
  | str (s : String)
  | arr (elems : List Json)
  | obj (fields : List (String × Json))

namespace Json

theorem induct {P : Json → Prop} (null : P .null) (bool : ∀ b, P (.bool b))
    (num : ∀ n, P (.num n)) (str : ∀ s, P (.str s))
    (arr : ∀ elems, (∀ v ∈ elems, P v) → P (.arr elems))
    (obj : ∀ fields, (∀ f ∈ fields, P f.2) → P (.obj fields)) (v : Json) : P v := by
  cases v with
  | null => exact null
  | bool b => exact bool b
  | num n => exact num n
  | str s => exact str s
  | arr elems => exact arr elems fun v _ => induct null bool num str arr obj v
  | obj fields => exact obj fields fun f _ => induct null bool num str arr obj f.2
termination_by sizeOf v
decreasing_by
  · have := List.sizeOf_lt_of_mem ‹v ∈ elems›
    simp only [Json.arr.sizeOf_spec]
    omega
  · have := List.sizeOf_lt_of_mem ‹f ∈ fields›
    obtain ⟨k, v⟩ := f
    simp only [Prod.mk.sizeOf_spec, Json.obj.sizeOf_spec] at this ⊢
    omega

end Json

def Json.truthy : Json → Bool
  | .null => false
  | .bool b => b
  | .num n => n.text ≠ ['0']
  | .str s => s ≠ ""
  | .arr _ => true
  | .obj _ => true

def hexDigit (n : Nat) : Char := "0123456789abcdef".toList.getD n '0'

def escapeChar (c : Char) : Text :=
  if c = '"' then ['\\', '"']
  else if c = '\\' then ['\\', '\\']
  else if c.toNat = 8 then ['\\', 'b']
  else if c.toNat = 9 then ['\\', 't']
  else if c.toNat = 10 then ['\\', 'n']
  else if c.toNat = 12 then ['\\', 'f']
  else if c.toNat = 13 then ['\\', 'r']
  else if c.toNat < 32 then
    ['\\', 'u', '0', '0', hexDigit (c.toNat / 16), hexDigit (c.toNat % 16)]
  else [c]

def quoted (s : Text) : Text := '"' :: s.flatMap escapeChar ++ ['"']

/-- `texts.join(',')`. -/
def commaSeparated : List Text → Text
  | [] => []
  | [t] => t
  | t :: ts => t ++ ',' :: commaSeparated ts

def fieldText (key : String) (text : Text) : Text := quoted key.toList ++ ':' :: text

mutual

/-- `JSON.stringify`. -/
def stringify : Json → Text
  | .null => "null".toList
  | .bool b => (if b then "true" else "false").toList
  | .num n => n.text
  | .str s => quoted s.toList
  | .arr elems => '[' :: commaSeparated (elemTexts elems) ++ [']']
  | .obj fields => '\x7b' :: commaSeparated (fieldTexts fields) ++ ['\x7d']

def elemTexts : List Json → List Text
  | [] => []
  | v :: vs => stringify v :: elemTexts vs

def fieldTexts : List (String × Json) → List Text
  | [] => []
  | (k, v) :: fs => fieldText k (stringify v) :: fieldTexts fs

end

theorem elemTexts_eq_map (vs : List Json) : elemTexts vs = vs.map stringify := by
  induction vs with
  | nil => rfl
  | cons v vs ih => rw [elemTexts, ih, List.map_cons]

theorem fieldTexts_eq_map (fs : List (String × Json)) :
    fieldTexts fs = fs.map fun f => fieldText f.1 (stringify f.2) := by
  induction fs with
  | nil => rfl
  | cons f fs ih => rw [fieldTexts, ih, List.map_cons]

def Delimited (r : Text) : Prop := ∀ c ∈ r.head?, c ∉ numeralChars

/-- Of all values, only `x` is written as `f x`, whatever follows. -/
def ReadOnly {α : Type} (f : α → Text) (x : α) : Prop :=
  ∀ y r r', Delimited r → Delimited r' → f x ++ r = f y ++ r' → x = y ∧ r = r'

theorem delimited_cons {c : Char} {r : Text} (h : c ∉ numeralChars) : Delimited (c :: r) := by
  rintro d hd
  cases hd
  exact h

def hexValue (c : Char) : Nat := "0123456789abcdef".toList.idxOf c

def readChar : Text → Option (Char × Text)
  | '\\' :: 'b' :: r => some (Char.ofNat 8, r)
  | '\\' :: 't' :: r => some (Char.ofNat 9, r)
  | '\\' :: 'n' :: r => some (Char.ofNat 10, r)
  | '\\' :: 'f' :: r => some (Char.ofNat 12, r)
  | '\\' :: 'r' :: r => some (Char.ofNat 13, r)
  | '\\' :: 'u' :: _ :: _ :: a :: b :: r => some (Char.ofNat (16 * hexValue a + hexValue b), r)
  | '\\' :: c :: r => some (c, r)
  | c :: r => some (c, r)
  | [] => none

theorem hexValue_hexDigit {n : Nat} (h : n < 16) : hexValue (hexDigit n) = n := by
  have hAll : ∀ n < 16, hexValue (hexDigit n) = n := by decide
  exact hAll n h

theorem readChar_escapeChar (c : Char) (r : Text) :
    readChar (escapeChar c ++ r) = some (c, r) := by
  have hSelf : Char.ofNat c.toNat = c := Char.ofNat_toNat c
  unfold escapeChar
  split
  · rename_i h
    rw [h]
    rfl
  split
  · rename_i h
    rw [h]
    rfl
  split
  · rename_i h
    rw [← hSelf, h]
    rfl
  split
  · rename_i h
    rw [← hSelf, h]
    rfl
  split
  · rename_i h
    rw [← hSelf, h]
    rfl
  split
  · rename_i h
    rw [← hSelf, h]
    rfl
  split
  · rename_i h
    rw [← hSelf, h]
    rfl
  split
  · simp only [List.cons_append, List.nil_append, readChar]
    rw [hexValue_hexDigit (by omega), hexValue_hexDigit (by omega), Nat.div_add_mod, hSelf]
  · rename_i hSlash _ _ _ _ _ _
    simp only [List.cons_append, List.nil_append]
    unfold readChar
    split <;> simp_all

theorem escapeChar_head (c : Char) : (escapeChar c).head? ≠ some '"' := by
  unfold escapeChar
  split_ifs <;> simp_all

theorem escapeChar_ne_nil (c : Char) : escapeChar c ≠ [] := by
  unfold escapeChar
  split_ifs <;> simp

theorem escaped_readOnly {s t r r' : Text}
    (h : s.flatMap escapeChar ++ '"' :: r = t.flatMap escapeChar ++ '"' :: r') :
    s = t ∧ r = r' := by
  have hEnds (c : Char) (u v w : Text) : escapeChar c ++ u ++ v ≠ '"' :: w := by
    intro hEq
    have hHead := congrArg List.head? hEq
    rw [List.append_assoc, List.head?_append_of_ne_nil _ (escapeChar_ne_nil c)] at hHead
    exact escapeChar_head c hHead
  induction s generalizing t with
  | nil =>
    cases t with
    | nil => exact ⟨rfl, List.tail_eq_of_cons_eq h⟩
    | cons d t => exact absurd h.symm (hEnds d _ _ _)
  | cons c s ih =>
    cases t with
    | nil => exact absurd h (hEnds c _ _ _)
    | cons d t =>
      simp only [List.flatMap_cons, List.append_assoc] at h
      have hRead := congrArg readChar h
      rw [readChar_escapeChar, readChar_escapeChar, Option.some.injEq, Prod.mk.injEq] at hRead
      obtain ⟨hTail, hRest⟩ := ih hRead.2
      exact ⟨by rw [hRead.1, hTail], hRest⟩

theorem quoted_readOnly {s t r r' : Text} (h : quoted s ++ r = quoted t ++ r') :
    s = t ∧ r = r' := by
  simp only [quoted, List.cons_append, List.append_assoc, List.nil_append, List.cons.injEq,
    true_and] at h
  exact escaped_readOnly h

theorem takeWhile_numeral (n : Numeral) {r : Text} (hr : Delimited r) :
    (n.text ++ r).takeWhile (· ∈ numeralChars) = n.text := by
  rw [List.takeWhile_append_of_pos fun c hc => decide_eq_true (n.numeric c hc)]
  cases r with
  | nil => exact List.append_nil _
  | cons c r => rw [List.takeWhile_cons_of_neg (by simpa using hr c rfl), List.append_nil]

theorem numeral_readOnly {m n : Numeral} {r r' : Text} (hr : Delimited r) (hr' : Delimited r')
    (h : m.text ++ r = n.text ++ r') : m = n ∧ r = r' := by
  have hText : m.text = n.text := by
    rw [← takeWhile_numeral m hr, h, takeWhile_numeral n hr']
  obtain ⟨t, _, _⟩ := m
  obtain ⟨u, _, _⟩ := n
  subst hText
  exact ⟨rfl, List.append_cancel_left h⟩

theorem commaSeparated_cons (t : Text) (ts : List Text) (close : Char) (r : Text) :
    commaSeparated (t :: ts) ++ close :: r =
      t ++ if ts = [] then close :: r else ',' :: (commaSeparated ts ++ close :: r) := by
  cases ts with
  | nil => rfl
  | cons u us => simp [commaSeparated]

theorem commaSeparated_readOnly {α : Type} {f : α → Text} {close : Char} {xs ys : List α}
    {r r' : Text} (hComma : close ≠ ',') (hClose : close ∉ numeralChars)
    (hStart : ∀ x, ∃ c t, f x = c :: t ∧ c ≠ close) (hxs : ∀ x ∈ xs, ReadOnly f x)
    (h : commaSeparated (xs.map f) ++ close :: r = commaSeparated (ys.map f) ++ close :: r') :
    xs = ys ∧ r = r' := by
  have hEnds (x : α) (ts : List Text) (v w : Text) :
      commaSeparated (f x :: ts) ++ close :: v ≠ close :: w := by
    obtain ⟨c, t, hText, hc⟩ := hStart x
    rw [commaSeparated_cons, hText]
    exact fun hEq => hc (List.head_eq_of_cons_eq hEq)
  have hDelimited (ts : List Text) (v : Text) :
      Delimited (if ts = [] then close :: v else ',' :: (commaSeparated ts ++ close :: v)) := by
    split
    · exact delimited_cons hClose
    · exact delimited_cons (by decide)
  induction xs generalizing ys with
  | nil =>
    cases ys with
    | nil => exact ⟨rfl, List.tail_eq_of_cons_eq h⟩
    | cons y ys => exact absurd h.symm (hEnds y _ _ _)
  | cons x xs ih =>
    cases ys with
    | nil => exact absurd h (hEnds x _ _ _)
    | cons y ys =>
      simp only [List.map_cons] at h
      rw [commaSeparated_cons, commaSeparated_cons] at h
      obtain ⟨rfl, hRest⟩ :=
        hxs x List.mem_cons_self y _ _ (hDelimited _ _) (hDelimited _ _) h
      cases xs with
      | nil =>
        cases ys with
        | nil => exact ⟨rfl, by simpa using hRest⟩
        | cons y ys => exact absurd (List.head_eq_of_cons_eq hRest) hComma
      | cons x' xs =>
        cases ys with
        | nil => exact absurd (List.head_eq_of_cons_eq hRest).symm hComma
        | cons y ys =>
          obtain ⟨hTail, hr⟩ := ih (fun z hz => hxs z (List.mem_cons_of_mem _ hz))
            (List.tail_eq_of_cons_eq hRest)
          exact ⟨by rw [hTail], hr⟩

def kind : Json → Char
  | .null => 'n'
  | .bool true => 't'
  | .bool false => 'f'
  | .num _ => '0'
  | .str _ => '"'
  | .arr _ => '['
  | .obj _ => '\x7b'

theorem stringify_start (v : Json) :
    ∃ c t, stringify v = c :: t ∧ (if c ∈ numeralChars then '0' else c) = kind v := by
  cases v with
  | null => exact ⟨_, _, rfl, by decide⟩
  | bool b =>
    cases b
    · exact ⟨_, _, rfl, by decide⟩
    · exact ⟨_, _, rfl, by decide⟩
  | num n =>
    obtain ⟨t, hNonempty, hNumeric⟩ := n
    cases t with
    | nil => exact absurd rfl hNonempty
    | cons c t => exact ⟨c, t, rfl, if_pos (hNumeric c List.mem_cons_self)⟩
  | str s => exact ⟨_, _, rfl, if_neg (by decide)⟩
  | arr elems => exact ⟨_, _, rfl, if_neg (by decide)⟩
  | obj fields => exact ⟨_, _, rfl, if_neg (by decide)⟩

theorem kind_eq {v w : Json} {r r' : Text} (h : stringify v ++ r = stringify w ++ r') :
    kind v = kind w := by
  obtain ⟨c, t, hv, hKind⟩ := stringify_start v
  obtain ⟨d, u, hw, hKind'⟩ := stringify_start w
  rw [hv, hw] at h
  obtain rfl := List.head_eq_of_cons_eq h
  rw [← hKind, ← hKind']

theorem stringify_ne (v : Json) {close : Char} (hMark : ∀ w, kind w ≠ close)
    (hClose : close ∉ numeralChars) : ∃ c t, stringify v = c :: t ∧ c ≠ close := by
  obtain ⟨c, t, hText, hKind⟩ := stringify_start v
  refine ⟨c, t, hText, ?_⟩
  rintro rfl
  rw [if_neg hClose] at hKind
  exact hMark v hKind.symm

theorem kind_ne_bracket (w : Json) : kind w ≠ ']' := by
  cases w with
  | bool b => cases b <;> decide
  | _ => simp [kind]

theorem field_readOnly {f : String × Json} (hValue : ReadOnly stringify f.2) :
    ReadOnly (fun f : String × Json => fieldText f.1 (stringify f.2)) f := by
  rintro ⟨k, w⟩ r r' hr hr' h
  simp only [fieldText, List.append_assoc, List.cons_append] at h
  obtain ⟨hKey, hRest⟩ := quoted_readOnly h
  obtain ⟨hSame, hr⟩ := hValue w r r' hr hr' (List.tail_eq_of_cons_eq hRest)
  exact ⟨Prod.ext (String.toList_inj.mp hKey) hSame, hr⟩

theorem stringify_readOnly (v : Json) : ReadOnly stringify v := by
  induction v using Json.induct with
  | null =>
    intro w r r' hr hr' h
    have hKind := kind_eq h
    cases w with
    | null => exact ⟨rfl, List.append_cancel_left h⟩
    | bool b => cases b <;> simp [kind] at hKind
    | _ => simp [kind] at hKind
  | bool b =>
    intro w r r' hr hr' h
    have hKind := kind_eq h
    cases w with
    | bool b' =>
      obtain rfl : b = b' := by
        cases b <;> cases b' <;> first | rfl | simp [kind] at hKind
      exact ⟨rfl, List.append_cancel_left h⟩
    | _ => cases b <;> simp [kind] at hKind
  | num n =>
    intro w r r' hr hr' h
    have hKind := kind_eq h
    cases w with
    | num n' =>
      obtain ⟨rfl, hRest⟩ := numeral_readOnly hr hr' h
      exact ⟨rfl, hRest⟩
    | bool b => cases b <;> simp [kind] at hKind
    | _ => simp [kind] at hKind
  | str s =>
    intro w r r' hr hr' h
    have hKind := kind_eq h
    cases w with
    | str s' =>
      obtain ⟨hs, hRest⟩ := quoted_readOnly h
      exact ⟨congrArg Json.str (String.toList_inj.mp hs), hRest⟩
    | bool b => cases b <;> simp [kind] at hKind
    | _ => simp [kind] at hKind
  | arr elems ih =>
    intro w r r' hr hr' h
    have hKind := kind_eq h
    cases w with
    | arr elems' =>
      simp only [stringify, elemTexts_eq_map, List.cons_append, List.append_assoc,
        List.nil_append, List.cons.injEq, true_and] at h
      obtain ⟨rfl, hRest⟩ := commaSeparated_readOnly (by decide) (by decide)
        (fun v => stringify_ne v kind_ne_bracket (by decide)) ih h
      exact ⟨rfl, hRest⟩
    | bool b => cases b <;> simp [kind] at hKind
    | _ => simp [kind] at hKind
  | obj fields ih =>
    intro w r r' hr hr' h
    have hKind := kind_eq h
    cases w with
    | obj fields' =>
      simp only [stringify, fieldTexts_eq_map, List.cons_append, List.append_assoc,
        List.nil_append, List.cons.injEq, true_and] at h
      obtain ⟨rfl, hRest⟩ := commaSeparated_readOnly (by decide) (by decide)
        (fun f => ⟨'"', _, rfl, by decide⟩) (fun f hf => field_readOnly (ih f hf)) h
      exact ⟨rfl, hRest⟩
    | bool b => cases b <;> simp [kind] at hKind
    | _ => simp [kind] at hKind

theorem stringify_injective : Function.Injective stringify := by
  intro v w h
  have hBoth : stringify v ++ [] = stringify w ++ [] := by rw [h]
  exact (stringify_readOnly v w [] [] (by simp [Delimited]) (by simp [Delimited]) hBoth).1

def codeUnits (s : String) : List Nat :=
  s.toList.flatMap fun c =>
    if c.toNat < 0x10000 then [c.toNat]
    else [0xD800 + (c.toNat - 0x10000) / 0x400, 0xDC00 + (c.toNat - 0x10000) % 0x400]

def keyLe {α : Type} (f g : String × α) : Prop := codeUnits f.1 ≤ codeUnits g.1

instance {α : Type} (f g : String × α) : Decidable (keyLe f g) :=
  inferInstanceAs (Decidable (codeUnits f.1 ≤ codeUnits g.1))

def sortKeys {α : Type} (fields : List (String × α)) : List (String × α) :=
  fields.insertionSort keyLe

mutual

def Json.sorted : Json → Json
  | .null => .null
  | .bool b => .bool b
  | .num n => .num n
  | .str s => .str s
  | .arr elems => .arr (sortedElems elems)
  | .obj fields => .obj (sortKeys (sortedFields fields))

def sortedElems : List Json → List Json
  | [] => []
  | v :: vs => v.sorted :: sortedElems vs

def sortedFields : List (String × Json) → List (String × Json)
  | [] => []
  | (k, v) :: fs => (k, v.sorted) :: sortedFields fs

end

def Json.Same (v w : Json) : Prop := v.sorted = w.sorted

mutual

def stableStringify : Json → Text
  | .null => stringify .null
  | .bool b => stringify (.bool b)
  | .num n => stringify (.num n)
  | .str s => stringify (.str s)
  | .arr elems => '[' :: commaSeparated (stableElems elems) ++ [']']
  | .obj fields =>
    '\x7b' :: commaSeparated ((sortKeys (stableFields fields)).map fun f => fieldText f.1 f.2) ++
      ['\x7d']

def stableElems : List Json → List Text
  | [] => []
  | v :: vs => stableStringify v :: stableElems vs

def stableFields : List (String × Json) → List (String × Text)
  | [] => []
  | (k, v) :: fs => (k, stableStringify v) :: stableFields fs

end

theorem stableElems_eq_map (vs : List Json) : stableElems vs = vs.map stableStringify := by
  induction vs with
  | nil => rfl
  | cons v vs ih => rw [stableElems, ih, List.map_cons]

theorem stableFields_eq_map (fs : List (String × Json)) :
    stableFields fs = fs.map fun f => (f.1, stableStringify f.2) := by
  induction fs with
  | nil => rfl
  | cons f fs ih => rw [stableFields, ih, List.map_cons]

theorem sortedElems_eq_map (vs : List Json) : sortedElems vs = vs.map Json.sorted := by
  induction vs with
  | nil => rfl
  | cons v vs ih => rw [sortedElems, ih, List.map_cons]

theorem sortedFields_eq_map (fs : List (String × Json)) :
    sortedFields fs = fs.map fun f => (f.1, f.2.sorted) := by
  induction fs with
  | nil => rfl
  | cons f fs ih => rw [sortedFields, ih, List.map_cons]

theorem sortKeys_map {α β : Type} (g : α → β) (fields : List (String × α)) :
    sortKeys (fields.map fun f => (f.1, g f.2)) = (sortKeys fields).map fun f => (f.1, g f.2) :=
  (List.map_insertionSort keyLe keyLe (fun f => (f.1, g f.2)) fields fun _ _ _ _ => Iff.rfl).symm

theorem stableStringify_eq (v : Json) : stableStringify v = stringify v.sorted := by
  induction v using Json.induct with
  | null | bool _ | num _ | str _ => simp only [stableStringify, Json.sorted]
  | arr elems ih =>
    have hElems : elems.map stableStringify = (elems.map Json.sorted).map stringify := by
      rw [List.map_map]
      exact List.map_congr_left ih
    simp only [stableStringify, stableElems_eq_map, Json.sorted, stringify, elemTexts_eq_map,
      sortedElems_eq_map, hElems]
  | obj fields ih =>
    have hFields : fields.map (fun f => (f.1, stableStringify f.2)) =
        fields.map fun f => (f.1, stringify f.2.sorted) :=
      List.map_congr_left fun f hf => by rw [ih f hf]
    simp only [stableStringify, stableFields_eq_map, Json.sorted, stringify, fieldTexts_eq_map,
      sortedFields_eq_map, hFields]
    rw [sortKeys_map (fun v : Json => stringify v.sorted), sortKeys_map Json.sorted,
      List.map_map, List.map_map]
    rfl

theorem same_of_stableStringify {v w : Json} (h : stableStringify v = stableStringify w) :
    v.Same w := by
  rw [stableStringify_eq, stableStringify_eq] at h
  exact stringify_injective h

theorem hexDigit_ne_bar (n : Nat) : hexDigit n ≠ '|' := by
  by_cases h : n < 16
  · have hAll : ∀ n < 16, hexDigit n ≠ '|' := by decide
    exact hAll n h
  · have hDefault : hexDigit n = '0' := by
      rw [hexDigit, List.getD_eq_getElem?_getD, List.getElem?_eq_none (Nat.not_lt.mp h)]
      rfl
    rw [hDefault]
    decide

theorem bar_not_mem_escapeChar {c : Char} (h : c ≠ '|') : '|' ∉ escapeChar c := by
  unfold escapeChar
  split_ifs <;> simp [(hexDigit_ne_bar _).symm, h.symm]

theorem idxOf_bar_le (s : Text) : s.idxOf '|' ≤ (s.flatMap escapeChar).idxOf '|' := by
  induction s with
  | nil => exact Nat.zero_le _
  | cons c s ih =>
    by_cases hc : c = '|'
    · subst hc
      exact Nat.zero_le _
    · rw [List.idxOf_cons_ne _ hc, List.flatMap_cons,
        List.idxOf_append_of_notMem (bar_not_mem_escapeChar hc)]
      have := List.length_pos_iff.mpr (escapeChar_ne_nil c)
      omega

theorem bar_not_mem_quoted {s : Text} (h : '|' ∉ s) : '|' ∉ quoted s := by
  intro hMem
  simp only [quoted, List.cons_append, List.mem_cons, List.mem_append, List.mem_flatMap,
    List.not_mem_nil, or_false] at hMem
  obtain hMem | ⟨c, hc, hMem⟩ | hMem := hMem
  · cases hMem
  · refine bar_not_mem_escapeChar ?_ hMem
    rintro rfl
    exact h hc
  · cases hMem

theorem idxOf_le_append (s t : Text) : s.idxOf '|' ≤ (s ++ t).idxOf '|' := by
  rw [List.idxOf_append]
  split
  · exact le_rfl
  · exact List.idxOf_le_length.trans (Nat.le_add_left _ _)

theorem idxOf_append_bar (s t : Text) : (s ++ '|' :: t).idxOf '|' = s.idxOf '|' := by
  rw [List.idxOf_append]
  split
  · rfl
  · rename_i hNone
    rw [List.idxOf_cons_self, List.idxOf_eq_length hNone, Nat.zero_add]

theorem barred_ne_quoting (name : String) {key : String} (hKey : '|' ∉ key.toList) (t : Text)
    (f : String × Json) (fs : List (String × Json)) :
    name.toList ++ '|' :: t ≠ stringify (.obj ((key, .str name) :: f :: fs)) := by
  intro h
  have hOpen : '|' ∉ '\x7b' :: (quoted key.toList ++ [':', '"']) := by
    simp [bar_not_mem_quoted hKey]
  obtain ⟨u, hText⟩ : ∃ u, stringify (.obj ((key, .str name) :: f :: fs)) =
      '\x7b' :: (quoted key.toList ++ [':', '"']) ++ (name.toList.flatMap escapeChar ++ u) := by
    simp [stringify, fieldTexts, commaSeparated, fieldText, quoted]
  have hIndex := congrArg (List.idxOf '|') h
  rw [idxOf_append_bar, hText, List.idxOf_append_of_notMem hOpen, List.length_cons] at hIndex
  have hName := (idxOf_bar_le name.toList).trans (idxOf_le_append _ u)
  omega
