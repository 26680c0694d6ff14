import OrchestraAI.Library.JsonReader

/-! # The canonical text of parameters

`stableStringify` of `execution/approvals.js`, which a fingerprint is made of, on values whose strings
are any code units.
-/

namespace OrchestraAI.Execution

open JsonReader (Value JsString)

namespace StableText

structure JsonValue where
  value : Value
  distinct : value.Distinct

mutual

def stableStringify : Value → Text
  | .null => JsonReader.write .null
  | .bool b => JsonReader.write (.bool b)
  | .num n => JsonReader.write (.num n)
  | .str s => JsonReader.write (.str s)
  | .arr elems => '[' :: commaSeparated (stableElems elems) ++ [']']
  | .obj fields =>
    '\x7b' :: commaSeparated ((JsonReader.sortKeys (stableFields fields)).map fun f => JsonReader.fieldText f.1 f.2) ++ ['\x7d']

def stableElems : List Value → List Text
  | [] => []
  | v :: vs => stableStringify v :: stableElems vs

def stableFields : List (JsString × Value) → List (JsString × Text)
  | [] => []
  | (k, v) :: fs => (k, stableStringify v) :: stableFields fs

end

theorem stableElems_eq_map (vs : List Value) : stableElems vs = vs.map stableStringify := by
  induction vs with
  | nil => rfl
  | cons v vs ih => rw [stableElems, ih, List.map_cons]

theorem stableFields_eq_map (fs : List (JsString × Value)) :
    stableFields fs = fs.map fun f => (f.1, stableStringify f.2) := by
  induction fs with
  | nil => rfl
  | cons f fs ih => rw [stableFields, ih, List.map_cons]

theorem stableStringify_eq (v : Value) : stableStringify v = JsonReader.write v.sorted := by
  induction v using Value.induct with
  | null | bool _ | num _ | str _ => simp only [stableStringify, Value.sorted]
  | arr elems ih =>
    have hElems : elems.map stableStringify = (elems.map Value.sorted).map JsonReader.write := by
      rw [List.map_map]
      exact List.map_congr_left ih
    simp only [stableStringify, stableElems_eq_map, Value.sorted, JsonReader.write, JsonReader.writeElems_eq_map,
      JsonReader.sortedElems_eq_map, hElems]
  | obj fields ih =>
    have hFields : fields.map (fun f => (f.1, stableStringify f.2)) =
        fields.map fun f => (f.1, JsonReader.write f.2.sorted) :=
      List.map_congr_left fun f hf => by rw [ih f hf]
    rw [JsonReader.sorted_obj]
    simp only [stableStringify, stableFields_eq_map, JsonReader.write, JsonReader.writeFields_eq_map, hFields]
    rw [JsonReader.sortKeys_map (fun v : Value => JsonReader.write v.sorted), List.map_map, List.map_map]
    rfl

theorem parse_stableStringify (v : JsonValue) : JsonReader.parse (stableStringify v.value) = some v.value.sorted := by
  rw [stableStringify_eq]
  exact JsonReader.parse_write (JsonReader.distinct_sorted v.distinct)

/-- Texts are equal exactly if the values are up to the order of keys, and a text is read back as such a
value. -/
theorem stable_canonical (v w : JsonValue) :
    (stableStringify v.value = stableStringify w.value ↔ v.value.Same w.value) ∧
      ∃ u, JsonReader.parse (stableStringify v.value) = some u ∧ u.Same v.value := by
  constructor
  · rw [JsonReader.same_iff v.distinct w.distinct]
    constructor
    · intro h
      have hParse := congrArg JsonReader.parse h
      rw [parse_stableStringify, parse_stableStringify] at hParse
      exact Option.some.inj hParse
    · intro h
      rw [stableStringify_eq, stableStringify_eq, h]
  · exact ⟨_, parse_stableStringify v, JsonReader.same_of_sorted_eq (JsonReader.sorted_sorted v.distinct)⟩

end StableText

open CodeUnits (ofText ofChar escapeUnit escapeUnits)

def HasUnits (s : String) (u : JsString) : Prop := u.map Fin.val = ofText s.toList

/-- The same value, with strings as characters and as code units. -/
inductive Denotes : Json → Value → Prop
  | null : Denotes .null .null
  | bool (b : Bool) : Denotes (.bool b) (.bool b)
  | num {m : Numeral} {n : JsonReader.Number} (h : m.text = n.text) : Denotes (.num m) (.num n)
  | str {s : String} {u : JsString} (h : HasUnits s u) : Denotes (.str s) (.str u)
  | arr {xs : List Json} {ys : List Value} (h : List.Forall₂ Denotes xs ys) : Denotes (.arr xs) (.arr ys)
  | obj {fs : List (String × Json)} {gs : List (JsString × Value)}
      (hKeys : List.Forall₂ HasUnits (fs.map Prod.fst) (gs.map Prod.fst))
      (hValues : List.Forall₂ Denotes (fs.map Prod.snd) (gs.map Prod.snd)) : Denotes (.obj fs) (.obj gs)

theorem escapeUnits_ofText (t : Text) : escapeUnits (ofText t) = t.flatMap escapeChar := by
  induction t with
  | nil => rfl
  | cons c t ih =>
    have hBounds := CodeUnits.toNat_lt c
    have hSelf : Char.ofNat c.toNat = c := Char.ofNat_toNat c
    change escapeUnits (ofChar c ++ ofText t) = escapeChar c ++ t.flatMap escapeChar
    rw [← ih, ofChar]
    split
    · rename_i hShort
      have hHigh := CodeUnits.not_isHigh hShort
      have hUnit : escapeUnit c.toNat = escapeChar c := by
        have hHalf : ¬ (CodeUnits.isHigh c.toNat || CodeUnits.isLow c.toNat) = true := by
          simp only [CodeUnits.isHigh, CodeUnits.isLow, Bool.or_eq_true, Bool.and_eq_true, decide_eq_true_iff]
          omega
        rw [escapeUnit, if_neg hHalf, hSelf]
      rw [List.singleton_append]
      cases ofText t with
      | nil => rw [escapeUnits, escapeUnits, hUnit, List.append_nil]
      | cons v r => rw [escapeUnits, hHigh, hUnit]; rfl
    · rename_i hLong
      have hPair : (CodeUnits.isHigh (0xD800 + (c.toNat - 0x10000) / 0x400) &&
          CodeUnits.isLow (0xDC00 + (c.toNat - 0x10000) % 0x400)) = true := by
        simp only [CodeUnits.isHigh, CodeUnits.isLow, Bool.and_eq_true, decide_eq_true_iff]
        omega
      have hChar : CodeUnits.pairChar (0xD800 + (c.toNat - 0x10000) / 0x400)
          (0xDC00 + (c.toNat - 0x10000) % 0x400) = c := by
        have hNat : 0x10000 + (0xD800 + (c.toNat - 0x10000) / 0x400 - 0xD800) * 0x400 +
            (0xDC00 + (c.toNat - 0x10000) % 0x400 - 0xDC00) = c.toNat := by omega
        rw [CodeUnits.pairChar, hNat, hSelf]
      rw [List.cons_append, List.singleton_append, escapeUnits, if_pos hPair, hChar]

theorem quotedString_of_hasUnits {s : String} {u : JsString} (h : HasUnits s u) :
    JsonReader.quotedString u = quoted s.toList := by
  rw [JsonReader.quotedString, h, CodeUnits.quotedUnits, escapeUnits_ofText, quoted]

theorem keys_le_iff {s t : String} {u v : JsString} (hs : HasUnits s u) (ht : HasUnits t v) :
    codeUnits s ≤ codeUnits t ↔ u ≤ v := by
  change ofText s.toList ≤ ofText t.toList ↔ _
  rw [← hs, ← ht]
  clear hs ht
  rw [← not_lt, ← not_lt, not_iff_not]
  induction u generalizing v with
  | nil => exact iff_of_false (List.not_lt_nil _) (List.not_lt_nil _)
  | cons a u ih =>
    cases v with
    | nil => exact iff_of_true (List.nil_lt_cons _ _) (List.nil_lt_cons _ _)
    | cons b v => rw [List.map_cons, List.map_cons, List.cons_lt_cons_iff, List.cons_lt_cons_iff, ih,
        Fin.lt_def, Fin.ext_iff]

theorem forall₂_pairs {α β γ δ : Type} {R : α → γ → Prop} {S : β → δ → Prop} {fs : List (α × β)}
    {gs : List (γ × δ)} (hFst : List.Forall₂ R (fs.map Prod.fst) (gs.map Prod.fst))
    (hSnd : List.Forall₂ S (fs.map Prod.snd) (gs.map Prod.snd)) :
    List.Forall₂ (fun f g => R f.1 g.1 ∧ S f.2 g.2) fs gs := by
  induction fs generalizing gs with
  | nil => cases gs with
    | nil => exact .nil
    | cons g gs => cases hFst
  | cons f fs ih => cases gs with
    | nil => cases hFst
    | cons g gs =>
      obtain ⟨hKey, hKeys⟩ := List.forall₂_cons.mp hFst
      obtain ⟨hValue, hValues⟩ := List.forall₂_cons.mp hSnd
      exact .cons ⟨hKey, hValue⟩ (ih hKeys hValues)

theorem forall₂_insertionSort {α β : Type} {R : α → β → Prop} {r : α → α → Prop} {r' : β → β → Prop}
    [DecidableRel r] [DecidableRel r'] (h : ∀ a b c d, R a c → R b d → (r a b ↔ r' c d)) {xs : List α}
    {ys : List β} (hxs : List.Forall₂ R xs ys) :
    List.Forall₂ R (xs.insertionSort r) (ys.insertionSort r') := by
  have hInsert {a : α} {c : β} (hac : R a c) {us : List α} {vs : List β} (hus : List.Forall₂ R us vs) :
      List.Forall₂ R (us.orderedInsert r a) (vs.orderedInsert r' c) := by
    induction hus with
    | nil => exact .cons hac .nil
    | cons hbd hRest ih =>
      rw [List.orderedInsert, List.orderedInsert]
      split
      · rename_i hr
        rw [if_pos ((h _ _ _ _ hac hbd).mp hr)]
        exact .cons hac (.cons hbd hRest)
      · rename_i hr
        rw [if_neg fun hr' => hr ((h _ _ _ _ hac hbd).mpr hr')]
        exact .cons hbd ih
  induction hxs with
  | nil => exact .nil
  | cons hac _ ih => exact hInsert hac ih

theorem stableStringify_of_denotes {v : Json} {w : Value} (h : Denotes v w) :
    stableStringify v = StableText.stableStringify w := by
  induction v using Json.induct generalizing w with
  | null => cases h; rfl
  | bool b => cases h; rfl
  | num n => cases h with
    | num h => exact h
  | str s => cases h with
    | str h => exact (quotedString_of_hasUnits h).symm
  | arr xs ih => cases h with
    | arr h =>
      rename_i ys
      have hTexts : xs.map stableStringify = ys.map StableText.stableStringify := by
        rw [← List.forall₂_eq_eq_eq, List.forall₂_map_left_iff, List.forall₂_map_right_iff]
        exact JsonReader.forall₂_of_mem h fun x hx y _ hxy => ih x hx hxy
      simp only [stableStringify, StableText.stableStringify, stableElems_eq_map,
        StableText.stableElems_eq_map, hTexts]
  | obj fs ih => cases h with
    | obj hKeys hValues =>
      rename_i gs
      have hFields : List.Forall₂ (fun (f : String × Text) (g : JsString × Text) => HasUnits f.1 g.1 ∧ f.2 = g.2)
          (fs.map fun f => (f.1, stableStringify f.2))
          (gs.map fun g => (g.1, StableText.stableStringify g.2)) := by
        rw [List.forall₂_map_left_iff, List.forall₂_map_right_iff]
        exact JsonReader.forall₂_of_mem (forall₂_pairs hKeys hValues) fun f hf g _ hfg =>
          ⟨hfg.1, ih f hf hfg.2⟩
      have hSorted := forall₂_insertionSort
        (fun _ _ _ _ hac hbd => keys_le_iff hac.1 hbd.1) hFields
      have hTexts : (sortKeys (fs.map fun f => (f.1, stableStringify f.2))).map (fun f => fieldText f.1 f.2) =
          (JsonReader.sortKeys (gs.map fun g => (g.1, StableText.stableStringify g.2))).map
            fun g => JsonReader.fieldText g.1 g.2 := by
        rw [← List.forall₂_eq_eq_eq, List.forall₂_map_left_iff, List.forall₂_map_right_iff]
        refine hSorted.imp fun f g hfg => ?_
        rw [fieldText, JsonReader.fieldText, quotedString_of_hasUnits hfg.1, hfg.2]
      simp only [stableStringify, StableText.stableStringify, stableFields_eq_map,
        StableText.stableFields_eq_map, hTexts]

end OrchestraAI.Execution
