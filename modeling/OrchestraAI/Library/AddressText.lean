import Mathlib.Data.Char
import Mathlib.Data.List.Basic
import Mathlib.Data.Nat.Bitwise

/-! # Addresses and their texts

Addresses of the fourth and the sixth version as they may be written, with the numbers that they
stand for, and the addresses that agree with another one in their first bits.
-/

namespace AddressText

variable {α : Type} {c : α} {gs : List (List α)}

theorem intercalate_cons (c : α) (g : List α) {gs : List (List α)} (h : gs ≠ []) :
    [c].intercalate (g :: gs) = g ++ c :: [c].intercalate gs := by
  obtain ⟨g', gs, rfl⟩ := List.exists_cons_of_ne_nil h
  simp

theorem intercalate_last (c : α) (gs : List (List α)) (last : List α) :
    [c].intercalate (gs ++ [last]) = [c].intercalate (gs ++ [[]]) ++ last := by
  induction gs with
  | nil => simp
  | cons g gs ih =>
    rw [List.cons_append, List.cons_append, intercalate_cons _ _ (by simp), ih,
      intercalate_cons _ _ (by simp), List.append_assoc, List.cons_append]

theorem intercalate_mark (c : α) (h : gs ≠ []) :
    [c].intercalate (gs ++ [[]]) = [c].intercalate gs ++ [c] := by
  induction gs with
  | nil => exact absurd rfl h
  | cons g gs ih =>
    obtain rfl | hgs := eq_or_ne gs []
    · simp
    · rw [List.cons_append, intercalate_cons _ _ (by simp), ih hgs, intercalate_cons _ _ hgs,
        List.append_assoc, List.cons_append]

theorem map_intercalate {β : Type} (f : α → β) (c : α) (gs : List (List α)) :
    ([c].intercalate gs).map f = [f c].intercalate (gs.map (List.map f)) := by
  induction gs with
  | nil => rfl
  | cons g gs ih =>
    obtain rfl | hgs := eq_or_ne gs []
    · simp
    · rw [List.map_cons, intercalate_cons _ _ hgs, intercalate_cons _ _ (by simpa using hgs),
        List.map_append, List.map_cons, ih]

theorem mem_intercalate {x : α} (h : x ∈ [c].intercalate gs) : x = c ∨ ∃ g ∈ gs, x ∈ g := by
  induction gs with
  | nil => simp at h
  | cons g gs ih =>
    obtain rfl | hgs := eq_or_ne gs []
    · exact .inr ⟨g, List.mem_cons_self, by simpa using h⟩
    · rw [intercalate_cons _ _ hgs, List.mem_append, List.mem_cons] at h
      obtain h | h | h := h
      · exact .inr ⟨g, List.mem_cons_self, h⟩
      · exact .inl h
      · obtain h | ⟨g', hg', h⟩ := ih h
        · exact .inl h
        · exact .inr ⟨g', List.mem_cons_of_mem _ hg', h⟩

def byteText (b : Fin 256) : List Char := (toString b.val).toList

theorem byteText_eq (b : Fin 256) : byteText b = Nat.toDigits 10 b.val := String.toList_ofList

structure Quad where
  first : Fin 256
  second : Fin 256
  third : Fin 256
  fourth : Fin 256

namespace Quad

def bytes (q : Quad) : List (Fin 256) := [q.first, q.second, q.third, q.fourth]

def text (q : Quad) : List Char := ['.'].intercalate (q.bytes.map byteText)

def value (q : Quad) : Nat := q.bytes.foldl (fun n b => n * 256 + b.val) 0

theorem value_lt (q : Quad) : q.value < 2 ^ 32 := by
  have h₁ := q.first.isLt
  have h₂ := q.second.isLt
  have h₃ := q.third.isLt
  have h₄ := q.fourth.isLt
  simp only [value, bytes, List.foldl_cons, List.foldl_nil]
  omega

end Quad

def isHexDigit (c : Char) : Bool := c.isDigit || ('a' ≤ c && c ≤ 'f') || ('A' ≤ c && c ≤ 'F')

def hexDigitValue (c : Char) : Nat :=
  if c.isDigit then c.toNat - '0'.toNat
  else if 'a' ≤ c then c.toNat - 'a'.toNat + 10
  else c.toNat - 'A'.toNat + 10

theorem hexDigitValue_ascii : ∀ n < 128, isHexDigit (Char.ofNat n) = true →
    hexDigitValue (Char.ofNat n) < 16 := by decide +kernel

theorem isHexDigit_ascii {c : Char} (h : isHexDigit c = true) : c.toNat < 128 := by
  simp only [isHexDigit, Bool.or_eq_true, Bool.and_eq_true, decide_eq_true_eq, Char.isDigit,
    Char.le_def, UInt32.le_iff_toNat_le] at h
  change c.val.toNat < 128
  obtain (⟨-, h⟩ | ⟨-, h⟩) | ⟨-, h⟩ := h
  · exact h.trans_lt (by decide)
  · exact h.trans_lt (by decide)
  · exact h.trans_lt (by decide)

theorem hexDigitValue_lt {c : Char} (h : isHexDigit c = true) : hexDigitValue c < 16 := by
  have hHere := hexDigitValue_ascii c.toNat (isHexDigit_ascii h)
  rw [Char.ofNat_toNat] at hHere
  exact hHere h

theorem foldl_lt {β : Type} {digit : β → Nat} {base : Nat} {l : List β} (h : ∀ x ∈ l, digit x < base)
    (n : Nat) : l.foldl (fun n x => n * base + digit x) n < (n + 1) * base ^ l.length := by
  induction l generalizing n with
  | nil => simp
  | cons x l ih =>
    obtain ⟨hx, hl⟩ := List.forall_mem_cons.mp h
    refine (ih hl _).trans_le ?_
    rw [List.length_cons, Nat.pow_succ', ← Nat.mul_assoc]
    refine Nat.mul_le_mul_right _ ?_
    rw [Nat.add_mul, Nat.one_mul]
    exact Nat.add_lt_add_left hx _

structure Group where
  digits : List Char
  nonempty : digits ≠ []
  short : digits.length ≤ 4
  hex : digits.all isHexDigit = true

def Group.value (g : Group) : Nat := g.digits.foldl (fun n c => n * 16 + hexDigitValue c) 0

theorem Group.value_lt (g : Group) : g.value < 2 ^ 16 := by
  have h := foldl_lt (fun c hc => hexDigitValue_lt (List.all_eq_true.mp g.hex c hc)) 0
  have hLarge : 16 ^ g.digits.length ≤ 16 ^ 4 := Nat.pow_le_pow_right (by decide) g.short
  rw [Nat.zero_add, Nat.one_mul] at h
  exact h.trans_le hLarge

/-- The groups before and behind the double colon, if there is one. -/
structure Groups where
  left : List Group
  right : Option (List Group)

def isZoneChar (c : Char) : Bool := c.isAlphanum || c = '-' || c = '.' || c = ':'

/-- The groups of an address have eight places with the quad at its end, and a double colon has at
least one of them. -/
def Groups.Fit (groups : Groups) (quad : Option Quad) : Prop :=
  let places := quad.elim 0 fun _ => 2
  groups.right.elim (groups.left.length + places = 8)
    fun right => groups.left.length + right.length + places ≤ 7

structure Spelling where
  groups : Groups
  quad : Option Quad
  zone : Option (List Char)
  fit : groups.Fit quad
  zoned : zone.all (fun z => z ≠ [] && z.all isZoneChar) = true

namespace Spelling

def pieces (groups : List Group) (quad : Option Quad) : List (List Char) :=
  groups.map Group.digits ++ (quad.map Quad.text).toList

def body (groups : Groups) (quad : Option Quad) : List Char :=
  match groups.right with
  | none => [':'].intercalate (pieces groups.left quad)
  | some right =>
    [':'].intercalate (groups.left.map Group.digits) ++ ':' :: ':' ::
      [':'].intercalate (pieces right quad)

def text (s : Spelling) : List Char := body s.groups s.quad ++ s.zone.elim [] ('%' :: ·)

def quadWords (quad : Option Quad) : List Nat :=
  quad.elim [] fun q => [q.value / 2 ^ 16, q.value % 2 ^ 16]

def words (groups : Groups) (quad : Option Quad) : List Nat :=
  match groups.right with
  | none => groups.left.map Group.value ++ quadWords quad
  | some right =>
    let present := groups.left.length + right.length + (quadWords quad).length
    groups.left.map Group.value ++ List.replicate (8 - present) 0 ++ right.map Group.value ++
      quadWords quad

def value (s : Spelling) : Nat := (words s.groups s.quad).foldl (fun n w => n * 2 ^ 16 + w) 0

theorem words_lt (groups : Groups) (quad : Option Quad) : ∀ w ∈ words groups quad, w < 2 ^ 16 := by
  have hGroups (gs : List Group) : ∀ w ∈ gs.map Group.value, w < 2 ^ 16 := by
    intro w hw
    obtain ⟨g, -, rfl⟩ := List.mem_map.mp hw
    exact g.value_lt
  have hQuad : ∀ w ∈ quadWords quad, w < 2 ^ 16 := by
    cases quad with
    | none => exact nofun
    | some q =>
      intro w hw
      have hValue := q.value_lt
      obtain rfl | rfl : w = q.value / 2 ^ 16 ∨ w = q.value % 2 ^ 16 := by simpa [quadWords] using hw
      · omega
      · exact Nat.mod_lt _ (by decide)
  intro w hw
  unfold words at hw
  split at hw
  · exact (List.mem_append.mp hw).elim (hGroups _ w) (hQuad w)
  · simp only [List.mem_append, List.mem_replicate] at hw
    obtain ((hw | ⟨-, rfl⟩) | hw) | hw := hw
    · exact hGroups _ w hw
    · decide
    · exact hGroups _ w hw
    · exact hQuad w hw

theorem length_words {groups : Groups} {quad : Option Quad} (h : groups.Fit quad) :
    (words groups quad).length = 8 := by
  have hQuad : (quadWords quad).length = quad.elim 0 fun _ => 2 := by cases quad <;> rfl
  obtain ⟨left, _ | right⟩ := groups
  · change left.length + quad.elim 0 (fun _ => 2) = 8 at h
    change (left.map Group.value ++ quadWords quad).length = 8
    rw [List.length_append, List.length_map, hQuad, h]
  · change left.length + right.length + quad.elim 0 (fun _ => 2) ≤ 7 at h
    simp only [words, List.length_append, List.length_map, List.length_replicate, hQuad]
    omega

theorem value_lt (s : Spelling) : s.value < 2 ^ 128 := by
  have h := foldl_lt (words_lt s.groups s.quad) 0
  rwa [length_words s.fit] at h

end Spelling

/-- Numbers below `2 ^ width` that have the same first bits. -/
def Agree (width bits a b : Nat) : Prop :=
  ∀ i < bits, a.testBit (width - 1 - i) = b.testBit (width - 1 - i)

theorem agree_iff {width bits a b : Nat} (ha : a < 2 ^ width) (hb : b < 2 ^ width)
    (hBits : bits ≤ width) : Agree width bits a b ↔ a >>> (width - bits) = b >>> (width - bits) := by
  constructor
  · intro h
    refine Nat.eq_of_testBit_eq fun i => ?_
    rw [Nat.testBit_shiftRight, Nat.testBit_shiftRight]
    by_cases hi : width - bits + i < width
    · have hBit := h (width - 1 - (width - bits + i)) (by omega)
      rwa [show width - 1 - (width - 1 - (width - bits + i)) = width - bits + i by omega] at hBit
    · have hHigh : 2 ^ width ≤ 2 ^ (width - bits + i) := Nat.pow_le_pow_right (by decide) (by omega)
      rw [Nat.testBit_lt_two_pow (ha.trans_le hHigh), Nat.testBit_lt_two_pow (hb.trans_le hHigh)]
  · intro h i hi
    have hBit := congrArg (Nat.testBit · (bits - 1 - i)) h
    simp only [Nat.testBit_shiftRight] at hBit
    rwa [show width - bits + (bits - 1 - i) = width - 1 - i by omega] at hBit

end AddressText
