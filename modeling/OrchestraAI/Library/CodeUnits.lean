import OrchestraAI.Library.JsonText

/-! # Code units

Texts as their code units in UTF-16, cut between any two of them, and the JSON of what is cut, where half
of a pair is escaped. Neither makes two different texts the same.
-/

namespace CodeUnits

abbrev Units := List Nat

def ofChar (c : Char) : Units :=
  if c.toNat < 0x10000 then [c.toNat]
  else [0xD800 + (c.toNat - 0x10000) / 0x400, 0xDC00 + (c.toNat - 0x10000) % 0x400]

def ofText (t : Text) : Units := t.flatMap ofChar

def isHigh (u : Nat) : Bool := 0xD800 ≤ u && u < 0xDC00

def isLow (u : Nat) : Bool := 0xDC00 ≤ u && u < 0xE000

def pairChar (u v : Nat) : Char := Char.ofNat (0x10000 + (u - 0xD800) * 0x400 + (v - 0xDC00))

def readUnits : Units → Option (Char × Units)
  | [] => none
  | [u] => some (Char.ofNat u, [])
  | u :: v :: r => if isHigh u then some (pairChar u v, r) else some (Char.ofNat u, v :: r)

theorem toNat_lt (c : Char) : c.toNat < 0xD800 ∨ 0xDFFF < c.toNat ∧ c.toNat < 0x110000 := c.valid

theorem ofNat_toNat_of_lt {n : Nat} (h : n < 0xD800 ∨ 0xDFFF < n ∧ n < 0x110000) :
    (Char.ofNat n).toNat = n := by
  have hValid : n.isValidChar := h
  rw [Char.ofNat, dif_pos hValid]
  rfl

theorem not_isHigh {c : Char} (h : c.toNat < 0x10000) : isHigh c.toNat = false := by
  have hBounds := toNat_lt c
  rw [isHigh, Bool.and_eq_false_iff, decide_eq_false_iff_not, decide_eq_false_iff_not]
  omega

theorem readUnits_ofChar (c : Char) (r : Units) : readUnits (ofChar c ++ r) = some (c, r) := by
  have hSelf : Char.ofNat c.toNat = c := Char.ofNat_toNat c
  have hBounds := toNat_lt c
  rw [ofChar]
  split
  · rename_i hShort
    cases r with
    | nil => rw [List.singleton_append, readUnits, hSelf]
    | cons v r => rw [List.singleton_append, readUnits, not_isHigh hShort, hSelf]; rfl
  · rename_i hLong
    have hHigh : isHigh (0xD800 + (c.toNat - 0x10000) / 0x400) = true := by
      rw [isHigh, Bool.and_eq_true_iff, decide_eq_true_eq, decide_eq_true_eq]
      omega
    have hChar : pairChar (0xD800 + (c.toNat - 0x10000) / 0x400) (0xDC00 + (c.toNat - 0x10000) % 0x400) =
        c := by
      have hNat : 0x10000 + (0xD800 + (c.toNat - 0x10000) / 0x400 - 0xD800) * 0x400 +
          (0xDC00 + (c.toNat - 0x10000) % 0x400 - 0xDC00) = c.toNat := by omega
      rw [pairChar, hNat, hSelf]
    rw [List.cons_append, List.singleton_append, readUnits, if_pos hHigh, hChar]

theorem ofChar_ne_nil (c : Char) : ofChar c ≠ [] := by
  rw [ofChar]
  split <;> exact List.cons_ne_nil _ _

theorem ofText_injective : Function.Injective ofText := by
  intro s t h
  induction s generalizing t with
  | nil =>
    cases t with
    | nil => rfl
    | cons d t => exact absurd (List.append_eq_nil_iff.mp h.symm).1 (ofChar_ne_nil d)
  | cons c s ih =>
    cases t with
    | nil => exact absurd (List.append_eq_nil_iff.mp h).1 (ofChar_ne_nil c)
    | cons d t =>
      rw [ofText, ofText, List.flatMap_cons, List.flatMap_cons] at h
      have hRead := congrArg readUnits h
      rw [readUnits_ofChar, readUnits_ofChar, Option.some.injEq, Prod.mk.injEq] at hRead
      rw [hRead.1, ih hRead.2]

theorem ofChar_lt {c : Char} {u : Nat} (h : u ∈ ofChar c) : u < 0x10000 := by
  have hBounds := toNat_lt c
  rw [ofChar] at h
  split at h
  · rwa [List.mem_singleton.mp h]
  · simp only [List.mem_cons, List.not_mem_nil, or_false] at h
    omega

theorem ofText_lt {t : Text} {u : Nat} (h : u ∈ ofText t) : u < 0x10000 := by
  obtain ⟨c, -, hc⟩ := List.mem_flatMap.mp h
  exact ofChar_lt hc

def escapeUnit (u : Nat) : Text :=
  if isHigh u || isLow u then
    ['\\', 'u', 'd', hexDigit (u / 256 % 16), hexDigit (u / 16 % 16), hexDigit (u % 16)]
  else escapeChar (Char.ofNat u)

def escapeUnits : Units → Text
  | [] => []
  | [u] => escapeUnit u
  | u :: v :: r =>
    if isHigh u && isLow v then escapeChar (pairChar u v) ++ escapeUnits r
    else escapeUnit u ++ escapeUnits (v :: r)

/-- `JSON.stringify` of a text that is cut. -/
def quotedUnits (s : Units) : Text := '"' :: escapeUnits s ++ ['"']

def readEscape : Text → Option (Units × Text)
  | '\\' :: 'u' :: 'd' :: a :: b :: c :: r =>
    some ([0xD000 + 256 * hexValue a + 16 * hexValue b + hexValue c], r)
  | t => (readChar t).map fun p => (ofChar p.1, p.2)

theorem readEscape_escapeChar (c : Char) (r : Text) :
    readEscape (escapeChar c ++ r) = some (ofChar c, r) := by
  have hRead := readChar_escapeChar c r
  rw [readEscape, hRead]
  · rfl
  · intro a b c' r' h
    rw [h] at hRead
    -- no escaped character begins like half of a pair
    have hThird : ∀ t, escapeChar c ++ r ≠ '\\' :: 'u' :: 'd' :: t := by
      intro t
      unfold escapeChar
      split_ifs <;> simp_all
    exact hThird _ h

theorem readEscape_half {u : Nat} (h : isHigh u = true ∨ isLow u = true) (r : Text) :
    readEscape (escapeUnit u ++ r) = some ([u], r) := by
  have hRange : 0xD800 ≤ u ∧ u < 0xE000 := by
    simp only [isHigh, isLow, Bool.and_eq_true_iff, decide_eq_true_eq] at h
    omega
  rw [escapeUnit, if_pos (Bool.or_eq_true_iff.mpr h)]
  simp only [List.cons_append, List.nil_append, readEscape]
  rw [hexValue_hexDigit (Nat.mod_lt _ (by decide)), hexValue_hexDigit (Nat.mod_lt _ (by decide)),
    hexValue_hexDigit (Nat.mod_lt _ (by decide))]
  have hValue : 0xD000 + 256 * (u / 256 % 16) + 16 * (u / 16 % 16) + u % 16 = u := by omega
  rw [hValue]

theorem readEscape_escapeUnit {u : Nat} (hu : u < 0x10000) (r : Text) :
    readEscape (escapeUnit u ++ r) = some ([u], r) := by
  by_cases hHalf : isHigh u = true ∨ isLow u = true
  · exact readEscape_half hHalf r
  · have hRange : u < 0xD800 ∨ 0xDFFF < u ∧ u < 0x110000 := by
      simp only [isHigh, isLow, Bool.and_eq_true_iff, decide_eq_true_eq, not_or] at hHalf
      omega
    have hChar : ofChar (Char.ofNat u) = [u] := by rw [ofChar, ofNat_toNat_of_lt hRange, if_pos hu]
    rw [escapeUnit, if_neg (by rwa [Bool.or_eq_true_iff]), readEscape_escapeChar, hChar]

theorem ofChar_pairChar {u v : Nat} (hu : isHigh u = true) (hv : isLow v = true) :
    ofChar (pairChar u v) = [u, v] := by
  rw [isHigh, Bool.and_eq_true_iff, decide_eq_true_eq, decide_eq_true_eq] at hu
  rw [isLow, Bool.and_eq_true_iff, decide_eq_true_eq, decide_eq_true_eq] at hv
  rw [ofChar, pairChar, ofNat_toNat_of_lt (by omega), if_neg (by omega)]
  have hHigh : 0xD800 + (0x10000 + (u - 0xD800) * 0x400 + (v - 0xDC00) - 0x10000) / 0x400 = u := by omega
  have hLow : 0xDC00 + (0x10000 + (u - 0xD800) * 0x400 + (v - 0xDC00) - 0x10000) % 0x400 = v := by omega
  rw [hHigh, hLow]

theorem escapeUnit_head (u : Nat) : (escapeUnit u).head? ≠ some '"' ∧ escapeUnit u ≠ [] := by
  rw [escapeUnit]
  split
  · exact ⟨by simp, List.cons_ne_nil _ _⟩
  · exact ⟨escapeChar_head _, escapeChar_ne_nil _⟩

theorem escapeUnits_begin {s : Units} (hs : s ≠ []) (hUnits : ∀ u ∈ s, u < 0x10000) :
    ∃ first rest shown, s = first ++ rest ∧ first ≠ [] ∧ escapeUnits s = shown ++ escapeUnits rest ∧
      (∀ r, readEscape (shown ++ r) = some (first, r)) ∧ shown.head? ≠ some '"' ∧ shown ≠ [] := by
  match s, hs, hUnits with
  | [u], _, hUnits =>
    obtain ⟨hHead, hNil⟩ := escapeUnit_head u
    exact ⟨[u], [], escapeUnit u, rfl, List.cons_ne_nil _ _, (List.append_nil _).symm,
      readEscape_escapeUnit (hUnits u List.mem_cons_self), hHead, hNil⟩
  | u :: v :: r, _, hUnits =>
    rw [escapeUnits]
    split
    · rename_i hPair
      obtain ⟨hu, hv⟩ := Bool.and_eq_true_iff.mp hPair
      refine ⟨[u, v], r, _, rfl, List.cons_ne_nil _ _, rfl, fun r => ?_, escapeChar_head _,
        escapeChar_ne_nil _⟩
      rw [readEscape_escapeChar, ofChar_pairChar hu hv]
    · obtain ⟨hHead, hNil⟩ := escapeUnit_head u
      exact ⟨[u], v :: r, _, rfl, List.cons_ne_nil _ _, rfl,
        readEscape_escapeUnit (hUnits u List.mem_cons_self), hHead, hNil⟩

theorem escapeUnits_readOnly {s t : Units} {r r' : Text} (hs : ∀ u ∈ s, u < 0x10000)
    (ht : ∀ u ∈ t, u < 0x10000) (h : escapeUnits s ++ '"' :: r = escapeUnits t ++ '"' :: r') :
    s = t ∧ r = r' := by
  have hEnds {shown : Text} (hHead : shown.head? ≠ some '"') (hNil : shown ≠ []) (v w : Text) :
      shown ++ v ≠ '"' :: w := by
    intro hEq
    have hFirst := congrArg List.head? hEq
    rw [List.head?_append_of_ne_nil _ hNil] at hFirst
    exact hHead hFirst
  by_cases hEmpty : s = []
  · subst hEmpty
    by_cases hEmpty' : t = []
    · subst hEmpty'
      exact ⟨rfl, List.tail_eq_of_cons_eq h⟩
    · obtain ⟨_, _, shown, -, -, hShown, -, hHead, hNil⟩ := escapeUnits_begin hEmpty' ht
      rw [hShown, List.append_assoc] at h
      exact absurd h.symm (hEnds hHead hNil _ _)
  · obtain ⟨first, rest, shown, rfl, hFirst, hShown, hRead, hHead, hNil⟩ := escapeUnits_begin hEmpty hs
    by_cases hEmpty' : t = []
    · subst hEmpty'
      rw [hShown, List.append_assoc] at h
      exact absurd h (hEnds hHead hNil _ _)
    · obtain ⟨first', rest', shown', rfl, -, hShown', hRead', -, -⟩ := escapeUnits_begin hEmpty' ht
      rw [hShown, hShown', List.append_assoc, List.append_assoc] at h
      have hBoth := congrArg readEscape h
      rw [hRead, hRead', Option.some.injEq, Prod.mk.injEq] at hBoth
      obtain ⟨hSame, hRest⟩ := hBoth
      have hShorter : rest.length < (first ++ rest).length := by
        have hPos := List.length_pos_of_ne_nil hFirst
        rw [List.length_append]
        omega
      obtain ⟨hTail, hEnd⟩ := escapeUnits_readOnly
        (fun u hu => hs u (List.mem_append_right _ hu)) (fun u hu => ht u (List.mem_append_right _ hu))
        hRest
      exact ⟨by rw [hSame, hTail], hEnd⟩
termination_by s.length

theorem quotedUnits_readOnly {s t : Units} {r r' : Text} (hs : ∀ u ∈ s, u < 0x10000)
    (ht : ∀ u ∈ t, u < 0x10000) (h : quotedUnits s ++ r = quotedUnits t ++ r') : s = t ∧ r = r' := by
  simp only [quotedUnits, List.cons_append, List.append_assoc, List.nil_append, List.cons.injEq,
    true_and] at h
  exact escapeUnits_readOnly hs ht h

end CodeUnits
