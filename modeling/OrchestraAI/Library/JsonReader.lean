import OrchestraAI.Library.CodeUnits
import Mathlib.Data.List.Forall2
import Mathlib.Data.List.Perm.Basic

/-! # Reading JSON

Values whose strings are any code units, the text that is written for them, and a reader of all JSON
texts. What is written is read back, and two values are the same up to the order of keys exactly if they
become equal when the keys of every object are put in order.
-/

namespace JsonReader

open CodeUnits (Units ofChar ofText isHigh isLow pairChar escapeUnit escapeUnits quotedUnits)

abbrev JsString := List (Fin 0x10000)

def isDigit (c : Char) : Bool := '0' ≤ c && c ≤ '9'

def isNumberChar (c : Char) : Bool := isDigit c || c ∈ "+-.eE".toList

def afterDigits (t : Text) : Option Text :=
  if t.takeWhile isDigit = [] then none else some (t.dropWhile isDigit)

def afterMinus : Text → Text
  | '-' :: r => r
  | t => t

def afterInteger : Text → Option Text
  | '0' :: r => some r
  | t => afterDigits t

def afterFraction : Text → Option Text
  | '.' :: r => afterDigits r
  | t => some t

def afterSign : Text → Text
  | '+' :: r => r
  | '-' :: r => r
  | t => t

def afterExponent : Text → Option Text
  | 'e' :: r => afterDigits (afterSign r)
  | 'E' :: r => afterDigits (afterSign r)
  | t => some t

def isNumber (t : Text) : Bool :=
  t.all isNumberChar &&
    ((afterInteger (afterMinus t)).bind afterFraction).bind afterExponent = some []

structure Number where
  text : Text
  valid : isNumber text = true
  deriving DecidableEq

inductive Value
  | null
  | bool (b : Bool)
  | num (n : Number)
  | str (s : JsString)
  | arr (elems : List Value)
  | obj (fields : List (JsString × Value))

namespace Value

theorem induct {P : Value → Prop} (null : P .null) (bool : ∀ b, P (.bool b)) (num : ∀ n, P (.num n))
    (str : ∀ s, P (.str s)) (arr : ∀ elems, (∀ v ∈ elems, P v) → P (.arr elems))
    (obj : ∀ fields, (∀ f ∈ fields, P f.2) → P (.obj fields)) (v : Value) : P v := by
  cases v with
  | null => exact null
  | bool b => exact bool b
  | num n => exact num n
  | str s => exact str s
  | arr elems => exact arr elems fun v _ => induct null bool num str arr obj v
  | obj fields => exact obj fields fun f _ => induct null bool num str arr obj f.2
termination_by sizeOf v
decreasing_by
  · have := List.sizeOf_lt_of_mem ‹v ∈ elems›
    simp only [Value.arr.sizeOf_spec]
    omega
  · have := List.sizeOf_lt_of_mem ‹f ∈ fields›
    obtain ⟨k, v⟩ := f
    simp only [Prod.mk.sizeOf_spec, Value.obj.sizeOf_spec] at this ⊢
    omega

inductive Distinct : Value → Prop
  | null : Distinct .null
  | bool (b : Bool) : Distinct (.bool b)
  | num (n : Number) : Distinct (.num n)
  | str (s : JsString) : Distinct (.str s)
  | arr {elems : List Value} (h : ∀ v ∈ elems, Distinct v) : Distinct (.arr elems)
  | obj {fields : List (JsString × Value)} (hKeys : (fields.map Prod.fst).Nodup)
      (h : ∀ f ∈ fields, Distinct f.2) : Distinct (.obj fields)

/-- Equal up to the order of the keys of objects, at every depth. -/
inductive Same : Value → Value → Prop
  | null : Same .null .null
  | bool (b : Bool) : Same (.bool b) (.bool b)
  | num (n : Number) : Same (.num n) (.num n)
  | str (s : JsString) : Same (.str s) (.str s)
  | arr {xs ys : List Value} (h : List.Forall₂ Same xs ys) : Same (.arr xs) (.arr ys)
  | obj {fs fs' gs gs' : List (JsString × Value)} (hLeft : fs.Perm fs') (hRight : gs.Perm gs')
      (hKeys : fs'.map Prod.fst = gs'.map Prod.fst)
      (hValues : List.Forall₂ Same (fs'.map Prod.snd) (gs'.map Prod.snd)) : Same (.obj fs) (.obj gs)

end Value

def quotedString (s : JsString) : Text := quotedUnits (s.map Fin.val)

def fieldText (key : JsString) (text : Text) : Text := quotedString key ++ ':' :: text

mutual

/-- `JSON.stringify`. -/
def write : Value → Text
  | .null => "null".toList
  | .bool b => (if b then "true" else "false").toList
  | .num n => n.text
  | .str s => quotedString s
  | .arr elems => '[' :: commaSeparated (writeElems elems) ++ [']']
  | .obj fields => '\x7b' :: commaSeparated (writeFields fields) ++ ['\x7d']

def writeElems : List Value → List Text
  | [] => []
  | v :: vs => write v :: writeElems vs

def writeFields : List (JsString × Value) → List Text
  | [] => []
  | (k, v) :: fs => fieldText k (write v) :: writeFields fs

end

attribute [grind =] write writeElems writeFields

def isSpace (c : Char) : Bool := c = ' ' || c = '\t' || c = '\n' || c = '\r'

def skip (t : Text) : Text := t.dropWhile isSpace

def hexOf (c : Char) : Option Nat :=
  if hexValue c.toLower < 16 then some (hexValue c.toLower) else none

def unitOf (a b c d : Char) : Option (Fin 0x10000) := do
  let a ← hexOf a
  let b ← hexOf b
  let c ← hexOf c
  let d ← hexOf d
  some (Fin.ofNat _ (a * 0x1000 + b * 0x100 + c * 0x10 + d))

def letterEscape : Char → Option Char
  | '"' => some '"'
  | '\\' => some '\\'
  | '/' => some '/'
  | 'b' => some (Char.ofNat 8)
  | 'f' => some (Char.ofNat 12)
  | 'n' => some (Char.ofNat 10)
  | 'r' => some (Char.ofNat 13)
  | 't' => some (Char.ofNat 9)
  | _ => none

def charUnits (c : Char) : JsString := (ofChar c).map (Fin.ofNat _)

def readString : Text → Option (JsString × Text)
  | [] => none
  | '"' :: r => some ([], r)
  | '\\' :: 'u' :: a :: b :: c :: d :: r =>
    (unitOf a b c d).bind fun u => (readString r).map fun p => (u :: p.1, p.2)
  | '\\' :: e :: r =>
    (letterEscape e).bind fun c => (readString r).map fun p => (charUnits c ++ p.1, p.2)
  | c :: r =>
    if c.toNat < 32 ∨ c = '\\' then none
    else (readString r).map fun p => (charUnits c ++ p.1, p.2)

attribute [grind =] readString

def readNumber (t : Text) : Option (Value × Text) :=
  if h : isNumber (t.takeWhile isNumberChar) = true then
    some (.num ⟨t.takeWhile isNumberChar, h⟩, t.dropWhile isNumberChar)
  else none

def setField (fields : List (JsString × Value)) (f : JsString × Value) : List (JsString × Value) :=
  if fields.any (·.1 = f.1) then fields.map fun g => if g.1 = f.1 then f else g else fields ++ [f]

def ofEntries (entries : List (JsString × Value)) : Value := .obj (entries.foldl setField [])

mutual

def readValue : Nat → Text → Option (Value × Text)
  | 0, _ => none
  | n + 1, t =>
    match skip t with
    | 'n' :: 'u' :: 'l' :: 'l' :: r => some (.null, r)
    | 't' :: 'r' :: 'u' :: 'e' :: r => some (.bool true, r)
    | 'f' :: 'a' :: 'l' :: 's' :: 'e' :: r => some (.bool false, r)
    | '"' :: r => (readString r).map fun p => (.str p.1, p.2)
    | '[' :: r =>
      if (skip r).head? = some ']' then some (.arr [], (skip r).tail)
      else (readElems n r).map fun p => (.arr p.1, p.2)
    | '\x7b' :: r =>
      if (skip r).head? = some '\x7d' then some (.obj [], (skip r).tail)
      else (readFields n r).map fun p => (ofEntries p.1, p.2)
    | t => readNumber t

def readElems : Nat → Text → Option (List Value × Text)
  | 0, _ => none
  | n + 1, t =>
    (readValue n t).bind fun p =>
      match skip p.2 with
      | ',' :: r => (readElems n r).map fun q => (p.1 :: q.1, q.2)
      | ']' :: r => some ([p.1], r)
      | _ => none

def readFields : Nat → Text → Option (List (JsString × Value) × Text)
  | 0, _ => none
  | n + 1, t =>
    match skip t with
    | '"' :: r =>
      (readString r).bind fun k =>
        match skip k.2 with
        | ':' :: r =>
          (readValue n r).bind fun p =>
            match skip p.2 with
            | ',' :: r => (readFields n r).map fun q => ((k.1, p.1) :: q.1, q.2)
            | '\x7d' :: r => some ([(k.1, p.1)], r)
            | _ => none
        | _ => none
    | _ => none

end

attribute [grind =] readValue readElems readFields

/-- `JSON.parse`. -/
def parse (t : Text) : Option Value :=
  (readValue (2 * t.length + 1) t).bind fun p => if skip p.2 = [] then some p.1 else none

theorem hexOf_hexDigit {n : Nat} (h : n < 16) : hexOf (hexDigit n) = some n := by
  have hAll : ∀ n < 16, hexOf (hexDigit n) = some n := by decide
  exact hAll n h

/-- What is read after the units `u` is read on. -/
def Prepends (shown : Text) (u : JsString) : Prop :=
  ∀ r, readString (shown ++ r) = (readString r).map fun p => (u ++ p.1, p.2)

theorem unitOf_hexDigit (u : Fin 0x10000) :
    unitOf (hexDigit (u / 0x1000)) (hexDigit (u / 0x100 % 16)) (hexDigit (u / 16 % 16))
      (hexDigit (u % 16)) = some u := by
  have hu := u.isLt
  have hValue : u.val / 0x1000 * 0x1000 + u.val / 0x100 % 16 * 0x100 + u.val / 16 % 16 * 0x10 +
      u.val % 16 = u.val := by omega
  rw [unitOf, hexOf_hexDigit (by omega), hexOf_hexDigit (Nat.mod_lt _ (by decide)),
    hexOf_hexDigit (Nat.mod_lt _ (by decide)), hexOf_hexDigit (Nat.mod_lt _ (by decide))]
  refine congrArg some (Fin.ext ?_)
  change (_ + _ + _ + _) % 0x10000 = u.val
  rw [hValue, Nat.mod_eq_of_lt hu]

theorem prepends_escapeChar (c : Char) : Prepends (escapeChar c) (charUnits c) := by
  intro r
  have hSelf : Char.ofNat c.toNat = c := Char.ofNat_toNat c
  rw [escapeChar]
  split
  · rename_i h
    rw [h]
    rfl
  split
  · rename_i h
    rw [h]
    rfl
  split
  · rename_i h
    rw [← hSelf, h]
    rfl
  split
  · rename_i h
    rw [← hSelf, h]
    rfl
  split
  · rename_i h
    rw [← hSelf, h]
    rfl
  split
  · rename_i h
    rw [← hSelf, h]
    rfl
  split
  · rename_i h
    rw [← hSelf, h]
    rfl
  split
  · rename_i hLow
    have hUnits : charUnits c = [⟨c.toNat, by omega⟩] := by
      rw [charUnits, ofChar, if_pos (by omega), List.map_singleton]
      exact congrArg (fun u => [u]) (Fin.ext (Nat.mod_eq_of_lt (by omega)))
    have hRead := unitOf_hexDigit ⟨c.toNat, by omega⟩
    dsimp only at hRead
    rw [Nat.div_eq_of_lt (by omega : c.toNat < 0x1000), Nat.div_eq_of_lt (by omega : c.toNat < 0x100),
      Nat.mod_eq_of_lt (by omega : c.toNat / 16 < 16)] at hRead
    change ((unitOf (hexDigit 0) (hexDigit 0) _ _).bind _) = _
    rw [hRead, hUnits]
    rfl
  · rename_i hQuote hSlash _ _ _ _ _ hLow
    rw [List.singleton_append, readString.eq_def]
    split
    · exact absurd ‹_› (List.cons_ne_nil _ _)
    · exact absurd (List.head_eq_of_cons_eq ‹_›) hQuote
    · exact absurd (List.head_eq_of_cons_eq ‹_›) hSlash
    · exact absurd (List.head_eq_of_cons_eq ‹_›) hSlash
    · rename_i h
      obtain ⟨rfl, rfl⟩ := List.cons.inj h
      rw [if_neg (by rintro (h | h) <;> [exact hLow h; exact hSlash h])]

theorem ofNat_val (u : Fin 0x10000) : Fin.ofNat 0x10000 u.val = u := Fin.ext (Nat.mod_eq_of_lt u.isLt)

theorem Prepends.append {shown shown' : Text} {u v : JsString} (h : Prepends shown u)
    (h' : Prepends shown' v) : Prepends (shown ++ shown') (u ++ v) := by
  intro r
  rw [List.append_assoc, h, h', Option.map_map]
  simp [Function.comp_def]

theorem prepends_escapeUnit (u : Fin 0x10000) : Prepends (escapeUnit u) [u] := by
  have hu := u.isLt
  by_cases hHalf : (isHigh u || isLow u) = true
  · intro r
    have hRange : 0xD800 ≤ u.val ∧ u.val < 0xE000 := by
      simp only [isHigh, isLow, Bool.or_eq_true, Bool.and_eq_true_iff, decide_eq_true_eq] at hHalf
      omega
    have hFirst : u.val / 0x1000 = 13 := by omega
    have hRead := unitOf_hexDigit u
    rw [hFirst] at hRead
    rw [escapeUnit, if_pos hHalf]
    change ((unitOf (hexDigit 13) _ _ _).bind _) = _
    rw [hRead]
    rfl
  · have hRange : u.val < 0xD800 ∨ 0xDFFF < u.val ∧ u.val < 0x110000 := by
      simp only [isHigh, isLow, Bool.or_eq_true, Bool.and_eq_true_iff, decide_eq_true_eq] at hHalf
      omega
    have hUnits : charUnits (Char.ofNat u) = [u] := by
      rw [charUnits, ofChar, CodeUnits.ofNat_toNat_of_lt hRange, if_pos hu, List.map_singleton, ofNat_val]
    rw [escapeUnit, if_neg hHalf, ← hUnits]
    exact prepends_escapeChar _

theorem prepends_escapeUnits (s : JsString) : Prepends (escapeUnits (s.map Fin.val)) s := by
  match s with
  | [] =>
    intro r
    cases hRead : readString r with
    | none => exact hRead
    | some p => exact hRead
  | [u] => exact prepends_escapeUnit u
  | u :: v :: r =>
    rw [List.map_cons, List.map_cons, escapeUnits]
    split
    · rename_i hPair
      obtain ⟨hu, hv⟩ := Bool.and_eq_true_iff.mp hPair
      have hUnits : charUnits (pairChar u v) = [u, v] := by
        rw [charUnits, CodeUnits.ofChar_pairChar hu hv, List.map_cons, List.map_singleton, ofNat_val,
          ofNat_val]
      have hBoth := (prepends_escapeChar (pairChar u v)).append (prepends_escapeUnits r)
      rwa [hUnits] at hBoth
    · exact (prepends_escapeUnit u).append (prepends_escapeUnits (v :: r))

theorem readString_quoted (s : JsString) (r : Text) :
    readString (escapeUnits (s.map Fin.val) ++ '"' :: r) = some (s, r) := by
  rw [prepends_escapeUnits s]
  simp [readString]

def Ends (r : Text) : Prop := ∀ c ∈ r.head?, isNumberChar c = false

theorem ends_cons {c : Char} {r : Text} (h : isNumberChar c = false) : Ends (c :: r) := by
  rintro d hd
  cases hd
  exact h

theorem Number.all (n : Number) : ∀ c ∈ n.text, isNumberChar c = true := by
  have hValid := n.valid
  rw [isNumber, Bool.and_eq_true] at hValid
  exact List.all_eq_true.mp hValid.1

theorem Number.text_ne_nil (n : Number) : n.text ≠ [] := by
  intro hNil
  have hValid := n.valid
  rw [hNil] at hValid
  exact absurd hValid (by decide)

theorem readNumber_text (n : Number) {r : Text} (hr : Ends r) : readNumber (n.text ++ r) = some (.num n, r) := by
  have hTake : (n.text ++ r).takeWhile isNumberChar = n.text := by
    rw [List.takeWhile_append_of_pos n.all]
    cases r with
    | nil => exact List.append_nil _
    | cons c r => rw [List.takeWhile_cons_of_neg (by simp [hr c rfl]), List.append_nil]
  have hDrop : (n.text ++ r).dropWhile isNumberChar = r := by
    rw [List.dropWhile_append_of_pos n.all]
    cases r with
    | nil => rfl
    | cons c r => exact List.dropWhile_cons_of_neg (by simp [hr c rfl])
  rw [readNumber]
  simp only [hTake, hDrop, n.valid, dite_true]

theorem write_begin (v : Value) :
    ∃ c t, write v = c :: t ∧ isSpace c = false ∧ c ≠ ']' := by
  cases v with
  | null => exact ⟨_, _, rfl, rfl, by decide⟩
  | bool b =>
    cases b
    · exact ⟨_, _, rfl, rfl, by decide⟩
    · exact ⟨_, _, rfl, rfl, by decide⟩
  | num n =>
    obtain ⟨c, t, hText⟩ := List.exists_cons_of_ne_nil n.text_ne_nil
    have hc : isNumberChar c = true := n.all c (hText ▸ List.mem_cons_self)
    refine ⟨c, t, hText, ?_, ?_⟩
    · rw [← Bool.not_eq_true]
      intro hSpace
      simp only [isSpace, Bool.or_eq_true, decide_eq_true_iff] at hSpace
      obtain ((rfl | rfl) | rfl) | rfl := hSpace <;> exact absurd hc (by decide)
    · rintro rfl
      exact absurd hc (by decide)
  | str s => exact ⟨_, _, rfl, rfl, by decide⟩
  | arr elems => exact ⟨_, _, rfl, rfl, by decide⟩
  | obj fields => exact ⟨_, _, rfl, rfl, by decide⟩

theorem skip_cons {c : Char} (h : isSpace c = false) (t : Text) : skip (c :: t) = c :: t :=
  List.dropWhile_cons_of_neg (by simp [h])

theorem skip_write (v : Value) (r : Text) : skip (write v ++ r) = write v ++ r := by
  obtain ⟨c, t, hText, hSpace, -⟩ := write_begin v
  rw [hText]
  exact skip_cons hSpace _

def ReadBack (v : Value) : Prop :=
  ∀ n r, 2 * (write v).length ≤ n → Ends r → readValue n (write v ++ r) = some (v, r)

theorem write_pos (v : Value) : 0 < (write v).length := by
  obtain ⟨c, t, hText, -⟩ := write_begin v
  rw [hText]
  exact Nat.succ_pos _

theorem length_commaSeparated_cons (t : Text) {ts : List Text} (h : ts ≠ []) :
    (commaSeparated (t :: ts)).length = t.length + 1 + (commaSeparated ts).length := by
  cases ts with
  | nil => exact absurd rfl h
  | cons u us =>
    rw [commaSeparated, List.length_append, List.length_cons]
    · omega
    · exact h

theorem readElems_write {xs : List Value} (hxs : xs ≠ []) (h : ∀ x ∈ xs, ReadBack x) (n : Nat) (r : Text)
    (hn : 2 * (commaSeparated (xs.map write)).length < n) :
    readElems n (commaSeparated (xs.map write) ++ ']' :: r) = some (xs, r) := by
  induction xs generalizing n with
  | nil => exact absurd rfl hxs
  | cons x xs ih =>
    obtain ⟨n, rfl⟩ := Nat.exists_eq_succ_of_ne_zero (Nat.ne_zero_of_lt hn)
    have hx := h x List.mem_cons_self
    rw [List.map_cons] at hn ⊢
    rw [commaSeparated_cons, readElems]
    cases xs with
    | nil =>
      rw [List.map_nil, if_pos rfl, hx n _ (by simpa [commaSeparated] using Nat.le_of_lt_succ hn)
        (ends_cons rfl)]
      rfl
    | cons y ys =>
      have hNe : (y :: ys).map write ≠ [] := List.cons_ne_nil _ _
      rw [length_commaSeparated_cons _ hNe] at hn
      rw [if_neg hNe, hx n _ (by omega) (ends_cons rfl), Option.bind_some]
      dsimp only
      rw [skip_cons rfl]
      change Option.map _ (readElems n _) = _
      rw [ih (List.cons_ne_nil _ _) (fun z hz => h z (List.mem_cons_of_mem _ hz)) n (by omega)]
      rfl

def writeField (f : JsString × Value) : Text := fieldText f.1 (write f.2)

theorem readFields_write {fs : List (JsString × Value)} (hfs : fs ≠ []) (h : ∀ f ∈ fs, ReadBack f.2)
    (n : Nat) (r : Text) (hn : 2 * (commaSeparated (fs.map writeField)).length < n) :
    readFields n (commaSeparated (fs.map writeField) ++ '\x7d' :: r) = some (fs, r) := by
  induction fs generalizing n with
  | nil => exact absurd rfl hfs
  | cons f fs ih =>
    obtain ⟨n, rfl⟩ := Nat.exists_eq_succ_of_ne_zero (Nat.ne_zero_of_lt hn)
    have hf := h f List.mem_cons_self
    have hOpen (t : Text) : writeField f ++ t =
        '"' :: (escapeUnits (f.1.map Fin.val) ++ '"' :: (':' :: (write f.2 ++ t))) := by
      simp [writeField, fieldText, quotedString, quotedUnits]
    have hLength : (write f.2).length < (writeField f).length := by
      have hEq := congrArg List.length (hOpen [])
      simp only [List.length_append, List.length_cons, List.length_nil] at hEq
      omega
    rw [List.map_cons] at hn ⊢
    rw [commaSeparated_cons, readFields, hOpen, skip_cons rfl]
    change (readString _).bind _ = _
    rw [readString_quoted, Option.bind_some]
    dsimp only
    rw [skip_cons rfl]
    change (readValue n _).bind _ = _
    cases fs with
    | nil =>
      rw [List.map_nil, commaSeparated] at hn
      rw [List.map_nil, if_pos rfl, hf n _ (by omega) (ends_cons rfl)]
      rfl
    | cons g gs =>
      have hNe : (g :: gs).map writeField ≠ [] := List.cons_ne_nil _ _
      rw [length_commaSeparated_cons _ hNe] at hn
      rw [if_neg hNe, hf n _ (by omega) (ends_cons rfl), Option.bind_some]
      dsimp only
      rw [skip_cons rfl]
      change Option.map _ (readFields n _) = _
      rw [ih (List.cons_ne_nil _ _) (fun z hz => h z (List.mem_cons_of_mem _ hz)) n (by omega)]
      rfl

theorem writeElems_eq_map (vs : List Value) : writeElems vs = vs.map write := by
  induction vs with
  | nil => rfl
  | cons v vs ih => rw [writeElems, ih, List.map_cons]

theorem writeFields_eq_map (fs : List (JsString × Value)) : writeFields fs = fs.map writeField := by
  induction fs with
  | nil => rfl
  | cons f fs ih => rw [writeFields, ih, List.map_cons, writeField]

theorem foldl_setField {fs acc : List (JsString × Value)} (h : ((acc ++ fs).map Prod.fst).Nodup) :
    fs.foldl setField acc = acc ++ fs := by
  induction fs generalizing acc with
  | nil => exact (List.append_nil acc).symm
  | cons f fs ih =>
    have hNew : acc.any (·.1 = f.1) = false := by
      rw [List.any_eq_false]
      intro g hg
      rw [List.map_append, List.map_cons, List.nodup_append] at h
      rw [decide_eq_true_iff]
      exact h.2.2 _ (List.mem_map_of_mem hg) _ List.mem_cons_self
    have hSet : setField acc f = acc ++ [f] := by
      rw [setField, hNew]
      rfl
    rw [List.foldl_cons, hSet, ih (by simpa using h), List.append_assoc, List.singleton_append]

theorem ReadBack.of_succ {v : Value}
    (h : ∀ n r, 2 * (write v).length ≤ n + 1 → Ends r → readValue (n + 1) (write v ++ r) = some (v, r)) :
    ReadBack v := by
  intro n r hn hr
  have hPos := write_pos v
  obtain ⟨n, rfl⟩ := Nat.exists_eq_succ_of_ne_zero (by omega : n ≠ 0)
  exact h n r hn hr

theorem readBack {v : Value} (hv : v.Distinct) : ReadBack v := by
  induction v using Value.induct with
  | null => exact .of_succ fun n r hn hr => rfl
  | bool b =>
    refine .of_succ fun n r hn hr => ?_
    cases b
    · rfl
    · rfl
  | num m =>
    refine .of_succ fun n r hn hr => ?_
    have hSkip : skip (m.text ++ r) = m.text ++ r := skip_write (.num m) r
    obtain ⟨c, t, hText⟩ := List.exists_cons_of_ne_nil m.text_ne_nil
    have hc : isNumberChar c = true := m.all c (hText ▸ List.mem_cons_self)
    have hNot {d : Char} (hd : isNumberChar d = false) (u : Text) : m.text ++ r ≠ d :: u := by
      rw [hText]
      intro h
      rw [← List.head_eq_of_cons_eq h, hc] at hd
      cases hd
    rw [write, readValue, hSkip]
    split
    · exact absurd ‹_› (hNot rfl _)
    · exact absurd ‹_› (hNot rfl _)
    · exact absurd ‹_› (hNot rfl _)
    · exact absurd ‹_› (hNot rfl _)
    · exact absurd ‹_› (hNot rfl _)
    · exact absurd ‹_› (hNot rfl _)
    · exact readNumber_text m hr
  | str s =>
    refine .of_succ fun n r hn hr => ?_
    have hOpen : write (.str s) ++ r = '"' :: (escapeUnits (s.map Fin.val) ++ '"' :: r) := by
      simp [write, quotedString, quotedUnits]
    rw [hOpen, readValue, skip_cons rfl]
    change (readString _).map _ = _
    rw [readString_quoted]
    rfl
  | arr elems ih =>
    refine .of_succ fun n r hn hr => ?_
    have hOpen : write (.arr elems) ++ r = '[' :: (commaSeparated (elems.map write) ++ ']' :: r) := by
      simp [write, writeElems_eq_map]
    have hLength : (write (.arr elems)).length = (commaSeparated (elems.map write)).length + 2 := by
      simp [write, writeElems_eq_map]
    rw [hOpen, readValue, skip_cons rfl]
    cases elems with
    | nil => rfl
    | cons v vs =>
      obtain ⟨c, t, hText, hSpace, hc⟩ := write_begin v
      have hHead : (skip (commaSeparated ((v :: vs).map write) ++ ']' :: r)).head? ≠ some ']' := by
        rw [List.map_cons, commaSeparated_cons, hText, List.cons_append, skip_cons hSpace]
        exact fun h => hc (Option.some.inj h)
      have hElems : ∀ x ∈ v :: vs, ReadBack x := by
        intro x hx
        cases hv with
        | arr h => exact ih x hx (h x hx)
      change (if _ then _ else Option.map _ _) = _
      rw [if_neg hHead, readElems_write (List.cons_ne_nil _ _) hElems n r (by omega)]
      rfl
  | obj fields ih =>
    refine .of_succ fun n r hn hr => ?_
    have hOpen : write (.obj fields) ++ r =
        '\x7b' :: (commaSeparated (fields.map writeField) ++ '\x7d' :: r) := by
      simp [write, writeFields_eq_map]
    have hLength : (write (.obj fields)).length = (commaSeparated (fields.map writeField)).length + 2 := by
      simp [write, writeFields_eq_map]
    rw [hOpen, readValue, skip_cons rfl]
    cases fields with
    | nil => rfl
    | cons f fs =>
      have hHead : (skip (commaSeparated ((f :: fs).map writeField) ++ '\x7d' :: r)).head? ≠ some '\x7d' := by
        rw [List.map_cons, commaSeparated_cons]
        change (skip ('"' :: _)).head? ≠ _
        rw [skip_cons rfl]
        exact fun h => absurd (Option.some.inj h) (by decide)
      obtain ⟨hKeys, hFields⟩ : ((f :: fs).map Prod.fst).Nodup ∧ ∀ g ∈ f :: fs, ReadBack g.2 := by
        cases hv with
        | obj hKeys h => exact ⟨hKeys, fun g hg => ih g hg (h g hg)⟩
      change (if _ then _ else Option.map _ _) = _
      rw [if_neg hHead, readFields_write (List.cons_ne_nil _ _) hFields n r (by omega)]
      exact congrArg (fun fields => some (Value.obj fields, r)) (foldl_setField hKeys)

theorem parse_write {v : Value} (hv : v.Distinct) : parse (write v) = some v := by
  have hRead := readBack hv (2 * (write v).length + 1) [] (by omega) (by simp [Ends])
  rw [List.append_nil] at hRead
  rw [parse, hRead]
  rfl

def keyLe {α : Type} (f g : JsString × α) : Prop := f.1 ≤ g.1

instance {α : Type} (f g : JsString × α) : Decidable (keyLe f g) := inferInstanceAs (Decidable (f.1 ≤ g.1))

def sortKeys {α : Type} (fields : List (JsString × α)) : List (JsString × α) := fields.insertionSort keyLe

mutual

def Value.sorted : Value → Value
  | .null => .null
  | .bool b => .bool b
  | .num n => .num n
  | .str s => .str s
  | .arr elems => .arr (sortedElems elems)
  | .obj fields => .obj (sortKeys (sortedFields fields))

def sortedElems : List Value → List Value
  | [] => []
  | v :: vs => v.sorted :: sortedElems vs

def sortedFields : List (JsString × Value) → List (JsString × Value)
  | [] => []
  | (k, v) :: fs => (k, v.sorted) :: sortedFields fs

end

attribute [grind =] Value.sorted sortedElems sortedFields

theorem sortedElems_eq_map (vs : List Value) : sortedElems vs = vs.map Value.sorted := by
  induction vs with
  | nil => rfl
  | cons v vs ih => rw [sortedElems, ih, List.map_cons]

theorem sortedFields_eq_map (fs : List (JsString × Value)) :
    sortedFields fs = fs.map fun f => (f.1, f.2.sorted) := by
  induction fs with
  | nil => rfl
  | cons f fs ih => rw [sortedFields, ih, List.map_cons]

theorem sortKeys_map {α β : Type} (g : α → β) (fields : List (JsString × α)) :
    sortKeys (fields.map fun f => (f.1, g f.2)) = (sortKeys fields).map fun f => (f.1, g f.2) :=
  (List.map_insertionSort keyLe keyLe (fun f => (f.1, g f.2)) fields fun _ _ _ _ => Iff.rfl).symm

theorem sortKeys_perm {α : Type} (fields : List (JsString × α)) : (sortKeys fields).Perm fields :=
  List.perm_insertionSort keyLe fields

instance {α : Type} : Std.Total (keyLe (α := α)) := ⟨fun f g => le_total f.1 g.1⟩

instance {α : Type} : IsTrans (JsString × α) keyLe := ⟨fun _ _ _ hfg hgh => le_trans hfg hgh⟩

theorem sortKeys_eq {α : Type} {fs gs : List (JsString × α)} (hPerm : fs.Perm gs)
    (hKeys : (fs.map Prod.fst).Nodup) : sortKeys fs = sortKeys gs := by
  refine List.Perm.eq_of_pairwise ?_ (List.pairwise_insertionSort keyLe fs)
    (List.pairwise_insertionSort keyLe gs) (((sortKeys_perm fs).trans hPerm).trans (sortKeys_perm gs).symm)
  intro f g hf hg hfg hgf
  exact List.inj_on_of_nodup_map hKeys ((sortKeys_perm fs).mem_iff.mp hf)
    (hPerm.mem_iff.mpr ((sortKeys_perm gs).mem_iff.mp hg)) (le_antisymm hfg hgf)

theorem forall₂_of_mem {α β : Type} {R S : α → β → Prop} {xs : List α} {ys : List β}
    (hR : List.Forall₂ R xs ys) (h : ∀ x ∈ xs, ∀ y ∈ ys, R x y → S x y) : List.Forall₂ S xs ys := by
  induction hR with
  | nil => exact .nil
  | cons hxy _ ih =>
    exact .cons (h _ List.mem_cons_self _ List.mem_cons_self hxy) (ih fun x hx y hy =>
      h x (List.mem_cons_of_mem _ hx) y (List.mem_cons_of_mem _ hy))

theorem forall₂_sorted {xs ys : List Value} :
    List.Forall₂ (fun x y : Value => x.sorted = y.sorted) xs ys ↔ xs.map Value.sorted = ys.map Value.sorted := by
  rw [← List.forall₂_eq_eq_eq, List.forall₂_map_left_iff, List.forall₂_map_right_iff]

theorem map_sorted_eq_iff {fs gs : List (JsString × Value)} :
    fs.map (fun f => (f.1, f.2.sorted)) = gs.map (fun g => (g.1, g.2.sorted)) ↔
      fs.map Prod.fst = gs.map Prod.fst ∧
        (fs.map Prod.snd).map Value.sorted = (gs.map Prod.snd).map Value.sorted := by
  induction fs generalizing gs with
  | nil => cases gs with
    | nil => simp
    | cons g gs => simp
  | cons f fs ih => cases gs with
    | nil => simp
    | cons g gs =>
      simp only [List.map_cons, List.cons.injEq, ih, Prod.mk.injEq]
      exact ⟨fun h => ⟨⟨h.1.1, h.2.1⟩, h.1.2, h.2.2⟩, fun h => ⟨⟨h.1.1, h.2.1⟩, h.1.2, h.2.2⟩⟩

theorem Value.Distinct.elem {xs : List Value} (h : (Value.arr xs).Distinct) {v : Value} (hv : v ∈ xs) :
    v.Distinct := by
  cases h with
  | arr h => exact h v hv

theorem Value.Distinct.field {fs : List (JsString × Value)} (h : (Value.obj fs).Distinct) {v : Value}
    (hv : v ∈ fs.map Prod.snd) : v.Distinct := by
  obtain ⟨f, hf, rfl⟩ := List.mem_map.mp hv
  cases h with
  | obj _ h => exact h f hf

theorem Value.Distinct.keys {fs : List (JsString × Value)} (h : (Value.obj fs).Distinct) :
    (fs.map Prod.fst).Nodup := by
  cases h with
  | obj h => exact h

theorem sorted_obj_eq {fs gs : List (JsString × Value)} (hPerm : fs.Perm gs)
    (hKeys : (fs.map Prod.fst).Nodup) : (Value.obj fs).sorted = (Value.obj gs).sorted := by
  simp only [Value.sorted, sortedFields_eq_map]
  refine congrArg Value.obj (sortKeys_eq (hPerm.map _) ?_)
  rwa [List.map_map]

theorem sorted_obj (fs : List (JsString × Value)) :
    (Value.obj fs).sorted = .obj ((sortKeys fs).map fun f => (f.1, f.2.sorted)) := by
  rw [Value.sorted, sortedFields_eq_map, sortKeys_map]

theorem same_of_sorted_eq {v w : Value} (h : v.sorted = w.sorted) : v.Same w := by
  induction v using Value.induct generalizing w with
  | null => cases w with
    | null => exact .null
    | _ => simp [Value.sorted] at h
  | bool b => cases w with
    | bool b' =>
      simp only [Value.sorted, Value.bool.injEq] at h
      exact h ▸ .bool b
    | _ => simp [Value.sorted] at h
  | num n => cases w with
    | num n' =>
      simp only [Value.sorted, Value.num.injEq] at h
      exact h ▸ .num n
    | _ => simp [Value.sorted] at h
  | str s => cases w with
    | str s' =>
      simp only [Value.sorted, Value.str.injEq] at h
      exact h ▸ .str s
    | _ => simp [Value.sorted] at h
  | arr xs ih => cases w with
    | arr ys =>
      simp only [Value.sorted, Value.arr.injEq, sortedElems_eq_map] at h
      exact .arr (forall₂_of_mem (forall₂_sorted.mpr h) fun x hx y _ hxy => ih x hx hxy)
    | _ => simp [Value.sorted] at h
  | obj fs ih => cases w with
    | obj gs =>
      rw [sorted_obj, sorted_obj, Value.obj.injEq, map_sorted_eq_iff] at h
      refine .obj (sortKeys_perm fs).symm (sortKeys_perm gs).symm h.1
        (forall₂_of_mem (forall₂_sorted.mpr h.2) fun x hx y _ hxy => ?_)
      obtain ⟨f, hf, rfl⟩ := List.mem_map.mp hx
      exact ih f ((sortKeys_perm fs).mem_iff.mp hf) hxy
    | _ => simp [Value.sorted] at h

theorem sorted_eq_of_same {v w : Value} (hv : v.Distinct) (hw : w.Distinct) (h : v.Same w) :
    v.sorted = w.sorted := by
  induction v using Value.induct generalizing w with
  | null => cases h; rfl
  | bool b => cases h; rfl
  | num n => cases h; rfl
  | str s => cases h; rfl
  | arr xs ih =>
    cases h with
    | arr h =>
      simp only [Value.sorted, sortedElems_eq_map]
      refine congrArg Value.arr (forall₂_sorted.mp (forall₂_of_mem h fun x hx y hy hxy => ?_))
      exact ih x hx (hv.elem hx) (hw.elem hy) hxy
  | obj fs ih =>
    cases h with
    | obj hLeft hRight hKeys hValues =>
      rename_i fs' gs gs'
      have hInner : fs'.map (fun f => (f.1, f.2.sorted)) = gs'.map (fun g => (g.1, g.2.sorted)) := by
        refine map_sorted_eq_iff.mpr ⟨hKeys, forall₂_sorted.mp (forall₂_of_mem hValues fun x hx y hy hxy => ?_)⟩
        have hx' : x ∈ fs.map Prod.snd := (hLeft.map Prod.snd).mem_iff.mpr hx
        obtain ⟨f, hf, rfl⟩ := List.mem_map.mp hx'
        exact ih f hf (hv.field hx') (hw.field ((hRight.map Prod.snd).mem_iff.mpr hy)) hxy
      calc (Value.obj fs).sorted = (Value.obj fs').sorted := sorted_obj_eq hLeft hv.keys
        _ = (Value.obj gs').sorted := by
          simp only [Value.sorted, sortedFields_eq_map, hInner]
        _ = (Value.obj gs).sorted := (sorted_obj_eq hRight hw.keys).symm

/-- Two values are the same up to the order of keys exactly if they become equal when it is made one. -/
theorem same_iff {v w : Value} (hv : v.Distinct) (hw : w.Distinct) : v.Same w ↔ v.sorted = w.sorted :=
  ⟨sorted_eq_of_same hv hw, same_of_sorted_eq⟩

theorem distinct_sorted {v : Value} (hv : v.Distinct) : v.sorted.Distinct := by
  induction v using Value.induct with
  | null | bool _ | num _ | str _ => simpa only [Value.sorted]
  | arr xs ih =>
    rw [Value.sorted, sortedElems_eq_map]
    refine .arr fun x hx => ?_
    obtain ⟨y, hy, rfl⟩ := List.mem_map.mp hx
    exact ih y hy (hv.elem hy)
  | obj fs ih =>
    rw [sorted_obj]
    refine .obj ?_ fun f hf => ?_
    · rw [List.map_map]
      exact ((sortKeys_perm fs).map Prod.fst).nodup_iff.mpr hv.keys
    · obtain ⟨g, hg, rfl⟩ := List.mem_map.mp hf
      have hMem := (sortKeys_perm fs).mem_iff.mp hg
      exact ih g hMem (hv.field (List.mem_map_of_mem hMem))

theorem sorted_sorted {v : Value} (hv : v.Distinct) : v.sorted.sorted = v.sorted := by
  induction v using Value.induct with
  | null | bool _ | num _ | str _ => simp only [Value.sorted]
  | arr xs ih =>
    simp only [Value.sorted, sortedElems_eq_map, List.map_map]
    exact congrArg Value.arr (List.map_congr_left fun x hx => ih x hx (hv.elem hx))
  | obj fs ih =>
    have hKeys : ((sortKeys fs).map Prod.fst).Nodup := ((sortKeys_perm fs).map Prod.fst).nodup_iff.mpr hv.keys
    rw [sorted_obj, sorted_obj, sortKeys_map, sortKeys_eq (sortKeys_perm fs) hKeys, List.map_map]
    refine congrArg Value.obj (List.map_congr_left fun f hf => Prod.ext rfl ?_)
    have hMem := (sortKeys_perm fs).mem_iff.mp hf
    exact ih f hMem (hv.field (List.mem_map_of_mem hMem))

end JsonReader
