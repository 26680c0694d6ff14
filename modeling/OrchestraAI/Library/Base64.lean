import Mathlib.Data.List.Nodup

/-! # Base 64

Three bytes as four characters; the last group is filled up.
-/

namespace Base64

def alphabet : List Char :=
  "ABCDEFGHIJKLMNOPQRSTUVWXYZabcdefghijklmnopqrstuvwxyz0123456789+/".toList

def digit (n : Nat) : Char := alphabet.getD n '='

def encode : List UInt8 → List Char
  | [] => []
  | [a] =>
    let n := a.toNat * 65536
    [digit (n / 262144), digit (n / 4096 % 64), '=', '=']
  | [a, b] =>
    let n := a.toNat * 65536 + b.toNat * 256
    [digit (n / 262144), digit (n / 4096 % 64), digit (n / 64 % 64), '=']
  | a :: b :: c :: t =>
    let n := a.toNat * 65536 + b.toNat * 256 + c.toNat
    digit (n / 262144) :: digit (n / 4096 % 64) :: digit (n / 64 % 64) :: digit (n % 64) ::
      encode t

theorem length_encode (bs : List UInt8) : (encode bs).length = 4 * ((bs.length + 2) / 3) := by
  fun_induction encode bs with
  | case1 => rfl
  | case2 =>
    simp only [List.length_cons, List.length_nil]
  | case3 =>
    simp only [List.length_cons, List.length_nil]
  | case4 a b c t n ih =>
    simp only [List.length_cons, ih]
    omega

theorem digit_mem (n : Nat) : digit n = '=' ∨ digit n ∈ alphabet := by
  rw [digit, List.getD_eq_getElem?_getD]
  cases h : alphabet[n]? with
  | none => exact .inl rfl
  | some c => exact .inr (List.mem_of_getElem? h)

theorem mem_encode {bs : List UInt8} {ch : Char} (h : ch ∈ encode bs) :
    ch = '=' ∨ ch ∈ alphabet := by
  fun_induction encode bs with
  | case1 => cases h
  | case2 a n =>
    simp only [List.mem_cons, List.not_mem_nil, or_false] at h
    obtain rfl | rfl | h | h := h
    · exact digit_mem _
    · exact digit_mem _
    · exact .inl h
    · exact .inl h
  | case3 a b n =>
    simp only [List.mem_cons, List.not_mem_nil, or_false] at h
    obtain rfl | rfl | rfl | h := h
    · exact digit_mem _
    · exact digit_mem _
    · exact digit_mem _
    · exact .inl h
  | case4 a b c t n ih =>
    simp only [List.mem_cons] at h
    obtain rfl | rfl | rfl | rfl | h := h
    · exact digit_mem _
    · exact digit_mem _
    · exact digit_mem _
    · exact digit_mem _
    · exact ih h

def value (c : Char) : Option Nat := if c ∈ alphabet then some (alphabet.idxOf c) else none

def bytesOf : List Nat → List UInt8
  | a :: b :: c :: d :: t =>
    UInt8.ofNat (a * 4 + b / 16) :: UInt8.ofNat (b % 16 * 16 + c / 4) :: UInt8.ofNat (c % 4 * 64 + d) ::
      bytesOf t
  | [a, b, c] => [UInt8.ofNat (a * 4 + b / 16), UInt8.ofNat (b % 16 * 16 + c / 4)]
  | [a, b] => [UInt8.ofNat (a * 4 + b / 16)]
  | _ => []

def decode (t : List Char) : List UInt8 := bytesOf (t.filterMap value)

theorem alphabet_eq : alphabet =
    ['A', 'B', 'C', 'D', 'E', 'F', 'G', 'H', 'I', 'J', 'K', 'L', 'M', 'N', 'O', 'P', 'Q', 'R', 'S', 'T',
      'U', 'V', 'W', 'X', 'Y', 'Z', 'a', 'b', 'c', 'd', 'e', 'f', 'g', 'h', 'i', 'j', 'k', 'l', 'm', 'n',
      'o', 'p', 'q', 'r', 's', 't', 'u', 'v', 'w', 'x', 'y', 'z', '0', '1', '2', '3', '4', '5', '6', '7',
      '8', '9', '+', '/'] := String.toList_ofList

theorem nodup_alphabet : alphabet.Nodup := by
  have hCodes : alphabet.map Char.toNat =
      List.range' 65 26 ++ List.range' 97 26 ++ List.range' 48 10 ++ [43, 47] := by
    rw [alphabet_eq]
    rfl
  apply List.Nodup.of_map Char.toNat
  rw [hCodes, List.nodup_append, List.nodup_append, List.nodup_append]
  simp only [List.mem_append, List.mem_range'_1, List.mem_cons, List.not_mem_nil, or_false]
  refine ⟨⟨⟨List.nodup_range' .., List.nodup_range' .., ?_⟩, List.nodup_range' .., ?_⟩, by simp,
    ?_⟩ <;> omega

theorem value_digit {n : Nat} (h : n < 64) : value (digit n) = some n := by
  have hn : n < alphabet.length := by
    rw [alphabet_eq]
    exact h
  have hDigit : digit n = alphabet[n] := by
    rw [digit, List.getD_eq_getElem?_getD, List.getElem?_eq_getElem hn, Option.getD_some]
  rw [hDigit, value, if_pos (List.getElem_mem hn), nodup_alphabet.idxOf_getElem]

theorem value_filler : value '=' = none := by
  rw [value, alphabet_eq]
  exact if_neg (by decide)

theorem ofNat_eq {a : UInt8} {n : Nat} (h : n = a.toNat) : UInt8.ofNat n = a := by
  rw [h, UInt8.ofNat_toNat]

theorem decode_encode (bs : List UInt8) : decode (encode bs) = bs := by
  fun_induction encode bs with
  | case1 => rfl
  | case2 a n =>
    have ha := a.toNat_lt
    rw [decode, List.filterMap_cons_some (value_digit (by omega)),
      List.filterMap_cons_some (value_digit (Nat.mod_lt _ (by decide))),
      List.filterMap_cons_none value_filler, List.filterMap_cons_none value_filler, List.filterMap_nil,
      bytesOf, ofNat_eq (a := a) (by omega)]
  | case3 a b n =>
    have ha := a.toNat_lt
    have hb := b.toNat_lt
    rw [decode, List.filterMap_cons_some (value_digit (by omega)),
      List.filterMap_cons_some (value_digit (Nat.mod_lt _ (by decide))),
      List.filterMap_cons_some (value_digit (Nat.mod_lt _ (by decide))),
      List.filterMap_cons_none value_filler, List.filterMap_nil, bytesOf, ofNat_eq (a := a) (by omega),
      ofNat_eq (a := b) (by omega)]
  | case4 a b c t n ih =>
    have ha := a.toNat_lt
    have hb := b.toNat_lt
    have hc := c.toNat_lt
    rw [decode, List.filterMap_cons_some (value_digit (by omega)),
      List.filterMap_cons_some (value_digit (Nat.mod_lt _ (by decide))),
      List.filterMap_cons_some (value_digit (Nat.mod_lt _ (by decide))),
      List.filterMap_cons_some (value_digit (Nat.mod_lt _ (by decide))), bytesOf,
      ofNat_eq (a := a) (by omega), ofNat_eq (a := b) (by omega), ofNat_eq (a := c) (by omega)]
    exact congrArg (fun rest => a :: b :: c :: rest) ih

end Base64
