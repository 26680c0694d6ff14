import Mathlib.Data.List.Basic

/-! # UTF-8 with replacement

Writing a text as bytes, and the decoder of the encoding standard, which writes
U+FFFD for what is no character and so never fails. A text survives being written
and read; bytes survive being read and written only where they were well formed.
-/

namespace Utf8

abbrev Bytes := List UInt8

def encodeChar (c : Char) : Bytes :=
  let n := c.toNat
  if n < 0x80 then [.ofNat n]
  else if n < 0x800 then [.ofNat (0xC0 + n / 64), .ofNat (0x80 + n % 64)]
  else if n < 0x10000 then
    [.ofNat (0xE0 + n / 4096), .ofNat (0x80 + n / 64 % 64), .ofNat (0x80 + n % 64)]
  else
    [.ofNat (0xF0 + n / 262144), .ofNat (0x80 + n / 4096 % 64), .ofNat (0x80 + n / 64 % 64),
      .ofNat (0x80 + n % 64)]

def encode (t : List Char) : Bytes := t.flatMap encodeChar

/-- A character begun: how many bytes are missing and the range of the next one. -/
structure Pending where
  missing : Nat
  codePoint : Nat
  lower : Nat
  upper : Nat

def replacement : Char := '\uFFFD'

def first (b : Nat) : List Char × Option Pending :=
  if b < 0x80 then ([.ofNat b], none)
  else if 0xC2 ≤ b ∧ b ≤ 0xDF then ([], some ⟨1, b - 0xC0, 0x80, 0xBF⟩)
  else if 0xE0 ≤ b ∧ b ≤ 0xEF then
    ([], some ⟨2, b - 0xE0, if b = 0xE0 then 0xA0 else 0x80, if b = 0xED then 0x9F else 0xBF⟩)
  else if 0xF0 ≤ b ∧ b ≤ 0xF4 then
    ([], some ⟨3, b - 0xF0, if b = 0xF0 then 0x90 else 0x80, if b = 0xF4 then 0x8F else 0xBF⟩)
  else ([replacement], none)

def continue_ (p : Pending) (b : Nat) : List Char × Option Pending :=
  if p.lower ≤ b ∧ b ≤ p.upper then
    let codePoint := p.codePoint * 64 + (b - 0x80)
    if p.missing = 1 then ([.ofNat codePoint], none)
    else ([], some ⟨p.missing - 1, codePoint, 0x80, 0xBF⟩)
  else (replacement :: (first b).1, (first b).2)

def read : Option Pending → Nat → List Char × Option Pending
  | none => first
  | some p => continue_ p

def decodeFrom : Option Pending → Bytes → List Char
  | none, [] => []
  | some _, [] => [replacement]
  | p, b :: bs => (read p b.toNat).1 ++ decodeFrom (read p b.toNat).2 bs

def decode (bs : Bytes) : List Char := decodeFrom none bs

def WellFormed (bs : Bytes) : Prop := encode (decode bs) = bs

instance (bs : Bytes) : Decidable (WellFormed bs) := inferInstanceAs (Decidable (_ = _))

def decodePiece : Option Pending → Bytes → List Char × Option Pending
  | p, [] => ([], p)
  | p, b :: bs =>
    let r := read p b.toNat
    let q := decodePiece r.2 bs
    (r.1 ++ q.1, q.2)

theorem decodePiece_append (p : Option Pending) (bs cs : Bytes) :
    decodePiece p (bs ++ cs) = ((decodePiece p bs).1 ++ (decodePiece (decodePiece p bs).2 cs).1,
      (decodePiece (decodePiece p bs).2 cs).2) := by
  induction bs generalizing p with
  | nil => rfl
  | cons b bs ih => simp only [List.cons_append, decodePiece, ih, List.append_assoc]

theorem decodeFrom_append (p : Option Pending) (bs cs : Bytes) :
    decodeFrom p (bs ++ cs) = (decodePiece p bs).1 ++ decodeFrom (decodePiece p bs).2 cs := by
  induction bs generalizing p with
  | nil => rfl
  | cons b bs ih => simp only [List.cons_append, decodeFrom, decodePiece, ih, List.append_assoc]

theorem decodePiece_cons (p : Option Pending) {n : Nat} (hn : n < 256) (bs : Bytes) :
    decodePiece p (.ofNat n :: bs) =
      ((read p n).1 ++ (decodePiece (read p n).2 bs).1, (decodePiece (read p n).2 bs).2) := by
  have hByte : (UInt8.ofNat n).toNat = n := UInt8.toNat_ofNat_of_lt' hn
  rw [decodePiece, hByte]

theorem read_tail {missing codePoint lower upper b : Nat} (hLower : lower ≤ b)
    (hUpper : b ≤ upper) (hMore : missing ≠ 1) :
    read (some ⟨missing, codePoint, lower, upper⟩) b =
      ([], some ⟨missing - 1, codePoint * 64 + (b - 0x80), 0x80, 0xBF⟩) := by
  simp only [read, continue_]
  rw [if_pos ⟨hLower, hUpper⟩, if_neg hMore]

theorem read_last {codePoint lower upper b : Nat} (hLower : lower ≤ b) (hUpper : b ≤ upper) :
    read (some ⟨1, codePoint, lower, upper⟩) b =
      ([.ofNat (codePoint * 64 + (b - 0x80))], none) := by
  simp only [read, continue_]
  rw [if_pos ⟨hLower, hUpper⟩, if_pos trivial]

theorem decodePiece_encodeChar (c : Char) : decodePiece none (encodeChar c) = ([c], none) := by
  have hSelf : Char.ofNat c.toNat = c := Char.ofNat_toNat c
  have hValid : c.toNat < 0xD800 ∨ 0xDFFF < c.toNat ∧ c.toNat < 0x110000 := c.valid
  unfold encodeChar
  generalize c.toNat = n at hSelf hValid
  simp only
  split
  · rw [decodePiece_cons none (by omega)]
    simp only [read, first]
    rw [if_pos (by omega)]
    simp only [hSelf, decodePiece, List.append_nil]
  split
  · rw [decodePiece_cons none (by omega), decodePiece_cons _ (by omega)]
    have hFirst : read none (0xC0 + n / 64) = ([], some ⟨1, n / 64, 0x80, 0xBF⟩) := by
      simp only [read, first]
      rw [if_neg (by omega), if_pos (by omega), Nat.add_sub_cancel_left]
    rw [hFirst, read_last (by omega) (by omega)]
    have hPoint : n / 64 * 64 + (0x80 + n % 64 - 0x80) = n := by omega
    simp only [hPoint, hSelf, decodePiece, List.nil_append, List.append_nil]
  split
  · rw [decodePiece_cons none (by omega), decodePiece_cons _ (by omega),
      decodePiece_cons _ (by omega)]
    have hFirst : read none (0xE0 + n / 4096) = ([], some ⟨2, n / 4096,
        if n / 4096 = 0 then 0xA0 else 0x80, if n / 4096 = 13 then 0x9F else 0xBF⟩) := by
      have hLow : 0xE0 + n / 4096 = 0xE0 ↔ n / 4096 = 0 := by omega
      have hHigh : 0xE0 + n / 4096 = 0xED ↔ n / 4096 = 13 := by omega
      simp only [read, first, hLow, hHigh]
      rw [if_neg (by omega), if_neg (by omega), if_pos (by omega), Nat.add_sub_cancel_left]
    rw [hFirst, read_tail (by split <;> omega) (by split <;> omega) (by omega),
      read_last (by omega) (by omega)]
    have hPoint : (n / 4096 * 64 + (0x80 + n / 64 % 64 - 0x80)) * 64 + (0x80 + n % 64 - 0x80) =
        n := by omega
    simp only [hPoint, hSelf, decodePiece, List.nil_append, List.append_nil]
  · rw [decodePiece_cons none (by omega), decodePiece_cons _ (by omega),
      decodePiece_cons _ (by omega), decodePiece_cons _ (by omega)]
    have hFirst : read none (0xF0 + n / 262144) = ([], some ⟨3, n / 262144,
        if n / 262144 = 0 then 0x90 else 0x80, if n / 262144 = 4 then 0x8F else 0xBF⟩) := by
      have hLow : 0xF0 + n / 262144 = 0xF0 ↔ n / 262144 = 0 := by omega
      have hHigh : 0xF0 + n / 262144 = 0xF4 ↔ n / 262144 = 4 := by omega
      simp only [read, first, hLow, hHigh]
      rw [if_neg (by omega), if_neg (by omega), if_neg (by omega), if_pos (by omega),
        Nat.add_sub_cancel_left]
    rw [hFirst, read_tail (by split <;> omega) (by split <;> omega) (by omega),
      read_tail (by omega) (by omega) (by omega), read_last (by omega) (by omega)]
    have hPoint : ((n / 262144 * 64 + (0x80 + n / 4096 % 64 - 0x80)) * 64 +
        (0x80 + n / 64 % 64 - 0x80)) * 64 + (0x80 + n % 64 - 0x80) = n := by omega
    simp only [hPoint, hSelf, decodePiece, List.nil_append, List.append_nil]

theorem decodePiece_encode (t : List Char) : decodePiece none (encode t) = (t, none) := by
  induction t with
  | nil => rfl
  | cons c t ih =>
    rw [encode, List.flatMap_cons, decodePiece_append, decodePiece_encodeChar]
    exact congrArg (fun r : List Char × Option Pending => (c :: r.1, r.2)) ih

@[simp] theorem decode_encode (t : List Char) : decode (encode t) = t := by
  rw [decode, ← List.append_nil (encode t), decodeFrom_append, decodePiece_encode]
  exact List.append_nil t

theorem wellFormed_encode (t : List Char) : WellFormed (encode t) := by
  rw [WellFormed, decode_encode]

/-- A decoder that is given a text piece by piece; a byte order mark at the beginning is not part of
the text. -/
structure Decoder where
  pending : Option Pending
  started : Bool

namespace Decoder

def fresh : Decoder := ⟨none, false⟩

def byteOrderMark : Char := '\uFEFF'

def withoutMark (t : List Char) : List Char :=
  if t.head? = some byteOrderMark then t.tail else t

def decode (d : Decoder) (bs : Bytes) : List Char × Decoder :=
  let r := decodePiece d.pending bs
  if d.started then (r.1, ⟨r.2, true⟩)
  else (withoutMark r.1, ⟨r.2, r.1 ≠ []⟩)

def decodeAll (d : Decoder) : List Bytes → List (List Char)
  | [] => []
  | bs :: pieces => (d.decode bs).1 :: decodeAll (d.decode bs).2 pieces

theorem decodeAll_started (p : Option Pending) (pieces : List Bytes) :
    (decodeAll ⟨p, true⟩ pieces).flatten = (decodePiece p pieces.flatten).1 := by
  induction pieces generalizing p with
  | nil => rfl
  | cons bs pieces ih =>
    rw [List.flatten_cons, decodePiece_append]
    exact congrArg ((decodePiece p bs).1 ++ ·) (ih _)

theorem decodeAll_flatten (p : Option Pending) (pieces : List Bytes) :
    (decodeAll ⟨p, false⟩ pieces).flatten = withoutMark (decodePiece p pieces.flatten).1 := by
  induction pieces generalizing p with
  | nil => rfl
  | cons bs pieces ih =>
    rw [List.flatten_cons, decodePiece_append, decodeAll, List.flatten_cons, decode]
    dsimp only
    rw [if_neg Bool.false_ne_true]
    cases hText : (decodePiece p bs).1 with
    | nil => exact ih _
    | cons c t =>
      change withoutMark (c :: t) ++ (decodeAll ⟨_, true⟩ pieces).flatten = _
      rw [decodeAll_started, withoutMark, withoutMark, List.head?_cons, List.cons_append,
        List.head?_cons]
      split <;> rfl

theorem decodeAll_encode {pieces : List Bytes} {t : List Char} (h : pieces.flatten = encode t) :
    (decodeAll fresh pieces).flatten = withoutMark t := by
  rw [fresh, decodeAll_flatten, h, decodePiece_encode]

end Decoder

end Utf8
