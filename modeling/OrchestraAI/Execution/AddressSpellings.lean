import Mathlib.Data.List.Infix
import OrchestraAI.Execution.IpRanges
import OrchestraAI.Library.AddressText

/-! # Addresses as they are spelled

The parsers of addresses read every valid spelling as the number that it stands for.

What `blockedIpReason` says of a valid address is said of the number that it stands for: it is
blocked just if it is in one of the listed ranges or carries a blocked address of the fourth version.
-/

namespace OrchestraAI.Execution

open AddressText

theorem digits_byteText (b : Fin 256) :
    byteText b ≠ [] ∧ (byteText b).all Char.isDigit = true := by
  rw [byteText_eq]
  exact ⟨Nat.toDigits_ne_nil, List.all_eq_true.mpr fun c hc =>
    Nat.isDigit_of_mem_toDigits (by decide) (by decide) hc⟩

theorem decimal_byteText (b : Fin 256) : decimal 3 (byteText b) = some b.val := by
  have hLength : (byteText b).length ≤ 3 := by
    rw [byteText_eq, Nat.length_toDigits_le_iff (by decide) (by decide)]
    omega
  have hStep : (fun (n : Nat) (c : Char) => n * 10 + (c.toNat - '0'.toNat)) =
      fun n c => 10 * n + (c.toNat - '0'.toNat) := by
    funext n c
    rw [Nat.mul_comm]
  rw [decimal, if_pos ⟨(digits_byteText b).1, hLength, (digits_byteText b).2⟩, hStep, byteText_eq]
  exact congrArg some (Nat.ofDigitChars_eq_foldl.symm.trans Nat.ofDigitChars_ten_toDigits)

theorem not_mem_byteText {c : Char} (hc : c.isDigit = false) (b : Fin 256) : c ∉ byteText b := by
  intro h
  rw [List.all_eq_true.mp (digits_byteText b).2 c h] at hc
  cases hc

theorem octets_map (bs : List (Fin 256)) (n : Nat) :
    octets (bs.map byteText) n = some (bs.foldl (fun n b => n * 256 + b.val) n) := by
  induction bs generalizing n with
  | nil => rfl
  | cons b bs ih =>
    rw [List.map_cons, octets, decimal_byteText, Option.bind_some, if_neg (by omega), ih,
      List.foldl_cons]

theorem splitOn_quad (q : Quad) : q.text.splitOn '.' = q.bytes.map byteText := by
  refine List.splitOn_intercalate '.' ?_ (List.cons_ne_nil _ _)
  intro p hp
  obtain ⟨b, -, rfl⟩ := List.mem_map.mp hp
  exact not_mem_byteText rfl b

theorem ipv4ToInt_text (q : Quad) : ipv4ToInt q.text = some q.value := by
  unfold ipv4ToInt
  rw [splitOn_quad]
  exact octets_map q.bytes 0

/-- A range of the fourth version has the addresses that agree with its base in the first bits. -/
theorem ipv4InCidr_iff (q base : Quad) {bits : Nat} (hBits : bits ≤ 32) :
    ipv4InCidr q.text base.text bits = true ↔ Agree 32 bits q.value base.value := by
  rw [agree_iff q.value_lt base.value_lt hBits, ← masked_eq_iff q.value_lt base.value_lt]
  simp only [ipv4InCidr, ipv4ToInt_text, Bool.or_eq_true, decide_eq_true_eq]
  constructor
  · rintro (rfl | h)
    · simp [mask]
    · exact h
  · exact .inr

theorem embeddedV4_none {s : Text} (h : '.' ∉ s) : embeddedV4 s = none := by
  refine List.find?_eq_none.mpr fun t ht => ?_
  have hDot : '.' ∉ t := fun hMem => h ((List.mem_tails t s |>.mp ht).subset hMem)
  rw [List.splitOn_eq_singleton hDot]
  simp

theorem parts_of_colon {t : Text} (h : ':' ∈ t) :
    ((t.splitOn '.').all fun p => p ≠ [] && p.all Char.isDigit) = false := by
  have hJoined : ['.'].intercalate (t.splitOn '.') = t := List.intercalate_splitOn '.'
  rw [← hJoined] at h
  obtain hDot | ⟨p, hp, hMem⟩ := mem_intercalate h
  · cases hDot
  · rw [Bool.eq_false_iff]
    intro hAll
    have hDigits := List.all_eq_true.mp hAll p hp
    rw [Bool.and_eq_true] at hDigits
    exact absurd (List.all_eq_true.mp hDigits.2 ':' hMem) (by decide)

theorem embeddedV4_quad (pre : Text) (q : Quad) : embeddedV4 (pre ++ ':' :: q.text) = some q.text := by
  have hSkip (t : Text) (h : ':' ∈ t) (s : List Text) :
      (t :: s).find? (fun t => let parts := t.splitOn '.'
        parts.length = 4 && parts.all fun p => p ≠ [] && p.all Char.isDigit) =
      s.find? fun t => let parts := t.splitOn '.'
        parts.length = 4 && parts.all fun p => p ≠ [] && p.all Char.isDigit := by
    rw [List.find?_cons_of_neg]
    dsimp only
    rw [parts_of_colon h, Bool.and_false]
    nofun
  have hQuad : embeddedV4 q.text = some q.text := by
    obtain ⟨others, hTails⟩ : ∃ others, q.text.tails = q.text :: others := by
      cases q.text with
      | nil => exact ⟨[], rfl⟩
      | cons c s => exact ⟨s.tails, List.tails_cons c s⟩
    rw [embeddedV4, hTails, List.find?_cons_of_pos]
    dsimp only
    rw [splitOn_quad, Bool.and_eq_true]
    refine ⟨rfl, List.all_eq_true.mpr fun p hp => ?_⟩
    obtain ⟨b, -, rfl⟩ := List.mem_map.mp hp
    simpa using digits_byteText b
  induction pre with
  | nil =>
    rw [embeddedV4, List.nil_append, List.tails_cons, hSkip _ List.mem_cons_self]
    exact hQuad
  | cons c pre ih =>
    rw [embeddedV4, List.cons_append, List.tails_cons, hSkip _ (by simp)]
    exact ih

def before (g : Text) : List Text → List Text
  | [] => [g]
  | first :: others => (g ++ first) :: others

theorem before_before (g h : Text) (l : List Text) : before g (before h l) = before (g ++ h) l := by
  cases l <;> simp [before]

theorem splitDoubleColon_cons {c : Char} {s : Text} (h : c = ':' → s.head? ≠ some ':') :
    splitDoubleColon (c :: s) = before [c] (splitDoubleColon s) := by
  rw [splitDoubleColon]
  · cases splitDoubleColon s <;> rfl
  · rintro rest hc rfl
    exact h hc rfl

theorem before_nil (s : Text) : before [] (splitDoubleColon s) = splitDoubleColon s := by
  cases hSplit : splitDoubleColon s with
  | cons first others => rfl
  | nil =>
    exfalso
    unfold splitDoubleColon at hSplit
    split at hSplit
    · cases hSplit
    · split at hSplit <;> cases hSplit
    · cases hSplit

theorem splitDoubleColon_append {g : Text} (h : ':' ∉ g) (rest : Text) :
    splitDoubleColon (g ++ rest) = before g (splitDoubleColon rest) := by
  induction g with
  | nil => exact (before_nil rest).symm
  | cons c g ih =>
    rw [List.mem_cons, not_or] at h
    rw [List.cons_append, splitDoubleColon_cons fun hc => absurd hc.symm h.1, ih h.2, before_before]
    rfl

def Piece (g : Text) : Prop := g ≠ [] ∧ ':' ∉ g

theorem head?_of_not_mem {g : Text} (h : ':' ∉ g) {rest : Text} (hRest : g ≠ [] ∨ rest.head? ≠ some ':') :
    (g ++ rest).head? ≠ some ':' := by
  cases g with
  | nil => exact hRest.resolve_left fun h => h rfl
  | cons c g =>
    rw [List.cons_append, List.head?_cons]
    rintro ⟨⟩
    exact h List.mem_cons_self

theorem splitDoubleColon_pieces {gs : List Text} (hgs : ∀ g ∈ gs, Piece g) {last : Text}
    (hLast : ':' ∉ last) (rest : Text) (hRest : last ≠ [] ∨ rest.head? ≠ some ':') :
    splitDoubleColon ([':'].intercalate (gs ++ [last]) ++ rest) =
      before ([':'].intercalate (gs ++ [last])) (splitDoubleColon rest) := by
  induction gs with
  | nil =>
    rw [List.nil_append, List.intercalate_singleton]
    exact splitDoubleColon_append hLast rest
  | cons g gs ih =>
    obtain ⟨hg, hgs⟩ := List.forall_mem_cons.mp hgs
    have hHead : ([':'].intercalate (gs ++ [last]) ++ rest).head? ≠ some ':' := by
      cases gs with
      | nil =>
        rw [List.nil_append, List.intercalate_singleton]
        exact head?_of_not_mem hLast hRest
      | cons g' gs =>
        have hg' := hgs g' List.mem_cons_self
        rw [List.cons_append, intercalate_cons _ _ (by simp), List.append_assoc]
        exact head?_of_not_mem hg'.2 (.inl hg'.1)
    rw [List.cons_append, intercalate_cons _ _ (by simp), List.append_assoc, splitDoubleColon_append hg.2,
      List.cons_append, splitDoubleColon_cons fun _ => hHead, ih hgs, before_before, before_before,
      List.append_assoc, List.singleton_append]

theorem splitDoubleColon_single {gs : List Text} (hgs : ∀ g ∈ gs, Piece g) {last : Text}
    (hLast : ':' ∉ last) :
    splitDoubleColon ([':'].intercalate (gs ++ [last])) = [[':'].intercalate (gs ++ [last])] := by
  have h := splitDoubleColon_pieces hgs hLast [] (.inr nofun)
  rw [List.append_nil] at h
  rw [h, splitDoubleColon, before, List.append_nil]

theorem splitDoubleColon_double {gs : List Text} (hgs : ∀ g ∈ gs, Piece g) (rest : Text) :
    splitDoubleColon ([':'].intercalate gs ++ ':' :: ':' :: rest) =
      [':'].intercalate gs :: splitDoubleColon rest := by
  obtain rfl | ⟨gs, last, rfl⟩ := gs.eq_nil_or_concat'
  · rw [List.intercalate_nil, List.nil_append, splitDoubleColon]
  · have hLast := hgs last (by simp)
    rw [splitDoubleColon_pieces (fun g hg => hgs g (List.mem_append_left _ hg)) hLast.2 _ (.inl hLast.1),
      splitDoubleColon, before, List.append_nil]

theorem parseGroup_pieces {gs : List Text} (hgs : ∀ g ∈ gs, Piece g) :
    parseGroup ([':'].intercalate gs) = gs ∧ parseGroup ([':'].intercalate (gs ++ [[]])) = gs := by
  have hKeep : gs.filter (· ≠ []) = gs :=
    List.filter_eq_self.mpr fun g hg => decide_eq_true (hgs g hg).1
  constructor
  · obtain rfl | hNe := eq_or_ne gs []
    · rfl
    · rw [parseGroup, List.splitOn_intercalate ':' (fun g hg => (hgs g hg).2) hNe]
      exact hKeep
  · rw [parseGroup, List.splitOn_intercalate ':' _ (by simp), List.filter_append]
    · rw [hKeep]
      exact List.append_nil gs
    · intro g hg
      obtain hg | hg := List.mem_append.mp hg
      · exact (hgs g hg).2
      · rw [List.mem_singleton.mp hg]
        exact List.not_mem_nil

def lowered (g : Group) : Text := g.digits.map Char.toLower

theorem hexDigit_ascii : ∀ n < 128, isHexDigit (Char.ofNat n) = true →
    hexDigit (Char.ofNat n).toLower = some (hexDigitValue (Char.ofNat n)) := by decide +kernel

theorem hexDigit_toLower {c : Char} (h : isHexDigit c = true) :
    hexDigit c.toLower = some (hexDigitValue c) := by
  have hHere := hexDigit_ascii c.toNat (isHexDigit_ascii h)
  rw [Char.ofNat_toNat] at hHere
  exact hHere h

theorem hexDigit_lowered {g : Group} {c : Char} (h : c ∈ lowered g) : (hexDigit c).isSome := by
  obtain ⟨c, hc, rfl⟩ := List.mem_map.mp h
  rw [hexDigit_toLower (List.all_eq_true.mp g.hex c hc)]
  rfl

theorem hexGroup_lowered (g : Group) : hexGroup (lowered g) = some g.value := by
  have hFold (digits : List Char) (h : ∀ c ∈ digits, isHexDigit c = true) (n : Nat) :
      (digits.map Char.toLower).foldlM (fun n c => (hexDigit c).map fun d => n * 16 + d) n =
        some (digits.foldl (fun n c => n * 16 + hexDigitValue c) n) := by
    induction digits generalizing n with
    | nil => rfl
    | cons c digits ih =>
      obtain ⟨hc, hRest⟩ := List.forall_mem_cons.mp h
      rw [List.map_cons, List.foldlM_cons, hexDigit_toLower hc, List.foldl_cons]
      exact ih hRest _
  unfold hexGroup lowered
  rw [if_neg]
  · exact hFold g.digits (List.all_eq_true.mp g.hex) 0
  · rw [List.map_eq_nil_iff, List.length_map, not_or]
    exact ⟨g.nonempty, Nat.not_lt.mpr g.short⟩

theorem piece_lowered (g : Group) : Piece (lowered g) := by
  constructor
  · exact fun h => g.nonempty (List.map_eq_nil_iff.mp h)
  · exact fun h => absurd (hexDigit_lowered h) (by decide)

theorem pieces_lowered (gs : List Group) : ∀ g ∈ gs.map lowered, Piece g := by
  intro g hg
  obtain ⟨g, -, rfl⟩ := List.mem_map.mp hg
  exact piece_lowered g

theorem mapM_hexGroup (left right : List Group) (missing : Nat) :
    (left.map lowered ++ List.replicate missing ['0'] ++ right.map lowered).mapM hexGroup =
      some (left.map Group.value ++ List.replicate missing 0 ++ right.map Group.value) := by
  have hGroups (gs : List Group) : (gs.map lowered).mapM hexGroup = some (gs.map Group.value) := by
    induction gs with
    | nil => rfl
    | cons g gs ih =>
      rw [List.map_cons, List.mapM_cons, hexGroup_lowered, ih]
      rfl
  have hZeros : (List.replicate missing ['0']).mapM hexGroup = some (List.replicate missing 0) := by
    induction missing with
    | zero => rfl
    | succ missing ih =>
      rw [List.replicate_succ, List.mapM_cons, ih]
      rfl
  rw [List.mapM_append, List.mapM_append, hGroups, hGroups, hZeros]
  rfl

def lowPieces (gs : List Group) (quad : Option Quad) : List Text :=
  gs.map lowered ++ (quad.map Quad.text).toList

def lowBody (groups : Groups) (quad : Option Quad) : Text :=
  match groups.right with
  | none => [':'].intercalate (lowPieces groups.left quad)
  | some right =>
    [':'].intercalate (groups.left.map lowered) ++ ':' :: ':' :: [':'].intercalate (lowPieces right quad)

theorem mem_quad {q : Quad} {c : Char} (h : c ∈ q.text) : c = '.' ∨ c.isDigit = true := by
  obtain hDot | ⟨p, hp, hMem⟩ := mem_intercalate h
  · exact .inl hDot
  · obtain ⟨b, -, rfl⟩ := List.mem_map.mp hp
    exact .inr (List.all_eq_true.mp (digits_byteText b).2 c hMem)

theorem toLower_digit {c : Char} (h : c.isDigit = true) : c.toLower = c := by
  rw [Char.isDigit, Bool.and_eq_true, decide_eq_true_iff, decide_eq_true_iff] at h
  refine dif_neg ?_
  rintro ⟨hLow, -⟩
  exact absurd (UInt32.le_trans hLow h.2) (by decide)

theorem lower_byteText (b : Fin 256) : (byteText b).map Char.toLower = byteText b := by
  have hSame : ∀ c ∈ byteText b, c.toLower = id c := fun c hc =>
    toLower_digit (List.all_eq_true.mp (digits_byteText b).2 c hc)
  rw [List.map_congr_left hSame, List.map_id]

theorem map_quad (q : Quad) : q.text.map Char.toLower = q.text := by
  have hDot : '.'.toLower = '.' := by decide
  rw [Quad.text, map_intercalate, hDot, List.map_map]
  exact congrArg _ (List.map_congr_left fun b _ => lower_byteText b)

theorem map_body (groups : Groups) (quad : Option Quad) :
    (Spelling.body groups quad).map Char.toLower = lowBody groups quad := by
  have hPieces (gs : List Group) :
      (Spelling.pieces gs quad).map (List.map Char.toLower) = lowPieces gs quad := by
    unfold Spelling.pieces lowPieces
    rw [List.map_append, List.map_map]
    congr 1
    cases quad with
    | none => rfl
    | some q => exact congrArg (fun t => [t]) (map_quad q)
  have hColon : ':'.toLower = ':' := by decide
  unfold Spelling.body lowBody
  cases groups.right with
  | none => rw [map_intercalate, hPieces, hColon]
  | some right =>
    simp only [List.map_append, List.map_cons, map_intercalate, hPieces, hColon, List.map_map]
    rfl

theorem mem_lowBody {groups : Groups} {quad : Option Quad} {c : Char} (h : c ∈ lowBody groups quad) :
    c = ':' ∨ (hexDigit c).isSome ∨ quad.isSome ∧ c = '.' := by
  have hGroups (gs : List Group) (h : c ∈ [':'].intercalate (gs.map lowered)) :
      c = ':' ∨ (hexDigit c).isSome := by
    obtain hColon | ⟨p, hp, hMem⟩ := mem_intercalate h
    · exact .inl hColon
    · obtain ⟨g, -, rfl⟩ := List.mem_map.mp hp
      exact .inr (hexDigit_lowered hMem)
  have hPieces (gs : List Group) (h : c ∈ [':'].intercalate (lowPieces gs quad)) :
      c = ':' ∨ (hexDigit c).isSome ∨ quad.isSome ∧ c = '.' := by
    obtain hColon | ⟨p, hp, hMem⟩ := mem_intercalate h
    · exact .inl hColon
    · obtain hp | hp := List.mem_append.mp hp
      · obtain ⟨g, -, rfl⟩ := List.mem_map.mp hp
        exact .inr (.inl (hexDigit_lowered hMem))
      · rw [Option.mem_toList, Option.map_eq_some_iff] at hp
        obtain ⟨q, rfl, rfl⟩ := hp
        obtain hDot | hDigit := mem_quad hMem
        · exact .inr (.inr ⟨rfl, hDot⟩)
        · exact .inr (.inl (by rw [hexDigit, if_pos hDigit]; rfl))
  unfold lowBody at h
  cases hRight : groups.right with
  | none =>
    rw [hRight] at h
    exact hPieces _ h
  | some right =>
    rw [hRight] at h
    obtain h | h := List.mem_append.mp h
    · exact (hGroups _ h).imp_right .inl
    · obtain h | h := List.mem_cons.mp h
      · exact .inl h
      · obtain h | h := List.mem_cons.mp h
        · exact .inl h
        · exact hPieces _ h

theorem takeWhile_text (s : Spelling) :
    (s.text.map Char.toLower).takeWhile (· ≠ '%') = lowBody s.groups s.quad := by
  rw [Spelling.text, List.map_append, map_body, List.takeWhile_append_of_pos]
  · cases s.zone with
    | none => exact List.append_nil _
    | some zone => exact List.append_nil _
  · intro c hc
    have hKind := mem_lowBody hc
    rw [decide_eq_true_eq]
    rintro rfl
    obtain h | h | ⟨-, h⟩ := hKind <;> exact absurd h (by decide)

theorem not_bracketed (groups : Groups) (quad : Option Quad) :
    ['['].isPrefixOf (lowBody groups quad) = false := by
  rw [Bool.eq_false_iff]
  intro h
  have hKind := mem_lowBody ((List.isPrefixOf_iff_prefix.mp h).subset List.mem_cons_self)
  obtain h | h | ⟨-, h⟩ := hKind <;> exact absurd h (by decide)

theorem quad_words (v : Nat) : [v >>> 16, v &&& 0xffff] = [v / 2 ^ 16, v % 2 ^ 16] := by
  rw [Nat.shiftRight_eq_div_pow, show 0xffff = 2 ^ 16 - 1 from rfl, Nat.and_two_pow_sub_one_eq_mod]

theorem ipv6Groups_all (quad : Option Quad) {left : List Group} {all : Text}
    (hAll : parseGroup all = left.map lowered) (hFit : (Groups.mk left none).Fit quad) :
    ipv6Groups [all] (quad.map Quad.value) = some (Spelling.words ⟨left, none⟩ quad) := by
  have hRead := mapM_hexGroup left [] 0
  simp only [List.replicate_zero, List.map_nil, List.append_nil] at hRead
  unfold ipv6Groups
  simp only [hAll, Option.bind_some]
  cases quad with
  | none =>
    have hEight : left.length = 8 := hFit
    simp only [Option.map_none, List.length_map, hEight, ne_eq, not_true_eq_false, if_false, hRead]
    exact congrArg some (List.append_nil _).symm
  | some q =>
    have hSix : left.length = 6 := Nat.add_right_cancel (m := 2) hFit
    simp only [Option.map_some, List.length_map, hSix, ne_eq, not_true_eq_false, if_false, hRead,
      quad_words]
    rfl

theorem ipv6Groups_pair (quad : Option Quad) {left right : List Group} {front back : Text}
    (hFront : parseGroup front = left.map lowered) (hBack : parseGroup back = right.map lowered)
    (hFit : (Groups.mk left (some right)).Fit quad) :
    ipv6Groups [front, back] (quad.map Quad.value) =
      some (Spelling.words ⟨left, some right⟩ quad) := by
  unfold ipv6Groups
  simp only [hFront, hBack, List.length_map]
  cases quad with
  | none =>
    have hSeven : left.length + right.length + 0 ≤ 7 := hFit
    change (if 8 < left.length + right.length + 0 then none else some (left.map lowered ++
      List.replicate (8 - (left.length + right.length + 0)) ['0'] ++ right.map lowered)).bind
        (fun groups => if groups.length ≠ 8 then none else groups.mapM hexGroup) = _
    rw [if_neg (by omega), Option.bind_some, if_neg, mapM_hexGroup]
    · exact congrArg some (List.append_nil _).symm
    · simp only [List.length_append, List.length_map, List.length_replicate]
      omega
  | some q =>
    have hFive : left.length + right.length + 2 ≤ 7 := hFit
    change (if 8 < left.length + right.length + 2 then none else some (left.map lowered ++
      List.replicate (8 - (left.length + right.length + 2)) ['0'] ++ right.map lowered)).bind
        (fun groups => if groups.length ≠ 6 then none
          else (groups.mapM hexGroup).map (· ++ [q.value >>> 16, q.value &&& 0xffff])) = _
    rw [if_neg (by omega), Option.bind_some, if_neg, mapM_hexGroup, quad_words]
    · rfl
    · simp only [List.length_append, List.length_map, List.length_replicate]
      omega

theorem splitDoubleColon_joined {gs : List Text} (hgs : ∀ g ∈ gs, Piece g) :
    splitDoubleColon ([':'].intercalate gs) = [[':'].intercalate gs] := by
  obtain rfl | ⟨gs, last, rfl⟩ := gs.eq_nil_or_concat'
  · rw [List.intercalate_nil, splitDoubleColon]
  · exact splitDoubleColon_single (fun g hg => hgs g (List.mem_append_left _ hg))
      (hgs last (by simp)).2

theorem ipv6Groups_none (groups : Groups) (h : groups.Fit none) :
    ipv6Groups (splitDoubleColon (lowBody groups none)) none = some (Spelling.words groups none) := by
  have hPieces (gs : List Group) : lowPieces gs none = gs.map lowered := List.append_nil _
  obtain ⟨left, _ | right⟩ := groups
  · have hBody : lowBody ⟨left, none⟩ none = [':'].intercalate (left.map lowered) := by
      change [':'].intercalate (lowPieces left none) = _
      rw [hPieces]
    rw [hBody, splitDoubleColon_joined (pieces_lowered left)]
    exact ipv6Groups_all none (parseGroup_pieces (pieces_lowered left)).1 h
  · have hBody : lowBody ⟨left, some right⟩ none = [':'].intercalate (left.map lowered) ++ ':' :: ':' ::
        [':'].intercalate (right.map lowered) := by
      change _ ++ ':' :: ':' :: [':'].intercalate (lowPieces right none) = _
      rw [hPieces]
    rw [hBody, splitDoubleColon_double (pieces_lowered left), splitDoubleColon_joined (pieces_lowered right)]
    exact ipv6Groups_pair none (parseGroup_pieces (pieces_lowered left)).1
      (parseGroup_pieces (pieces_lowered right)).1 h

/-- What stands in front of the quad, and the words that it is read as with the quad. -/
theorem ipv6Groups_some (groups : Groups) (q : Quad) (h : groups.Fit (some q)) :
    ∃ pre, lowBody groups (some q) = pre ++ ':' :: q.text ∧
      ipv6Groups (splitDoubleColon (pre ++ [':'])) (some q.value) =
        some (Spelling.words groups (some q)) := by
  obtain ⟨left, _ | right⟩ := groups
  · have hSix : left.length = 6 := Nat.add_right_cancel (m := 2) h
    have hNe : left.map lowered ≠ [] := by
      intro hNil
      rw [List.map_eq_nil_iff] at hNil
      rw [hNil] at hSix
      cases hSix
    refine ⟨[':'].intercalate (left.map lowered), ?_, ?_⟩
    · change [':'].intercalate (left.map lowered ++ [q.text]) = _
      rw [intercalate_last, intercalate_mark _ hNe, List.append_assoc, List.singleton_append]
    · rw [← intercalate_mark _ hNe, splitDoubleColon_single (pieces_lowered left) List.not_mem_nil]
      exact ipv6Groups_all (some q) (parseGroup_pieces (pieces_lowered left)).2 h
  · obtain ⟨pre, hPre⟩ : ∃ pre, [':'].intercalate (left.map lowered) ++ ':' :: ':' ::
        [':'].intercalate (right.map lowered ++ [[]]) = pre ++ [':'] := by
      obtain hNil | hNe := eq_or_ne (right.map lowered) []
      · exact ⟨[':'].intercalate (left.map lowered) ++ [':'], by rw [hNil]; simp⟩
      · exact ⟨[':'].intercalate (left.map lowered) ++ ':' :: ':' :: [':'].intercalate (right.map lowered),
          by rw [intercalate_mark _ hNe]; simp⟩
    refine ⟨pre, ?_, ?_⟩
    · change [':'].intercalate (left.map lowered) ++ ':' :: ':' ::
        [':'].intercalate (right.map lowered ++ [q.text]) = _
      have hBoth := congrArg (· ++ q.text) hPre
      rw [intercalate_last]
      simpa using hBoth
    · rw [← hPre, splitDoubleColon_double (pieces_lowered left),
        splitDoubleColon_single (pieces_lowered right) List.not_mem_nil]
      exact ipv6Groups_pair (some q) (parseGroup_pieces (pieces_lowered left)).1
        (parseGroup_pieces (pieces_lowered right)).2 h

theorem ipv6ToBigInt_text (s : Spelling) : ipv6ToBigInt s.text = some s.value := by
  have hFold (ws : List Nat) : ws.foldl (fun out g => (out <<< 16) + g) 0 =
      ws.foldl (fun n w => n * 2 ^ 16 + w) 0 := by
    simp only [Nat.shiftLeft_eq]
  unfold ipv6ToBigInt
  dsimp only
  rw [takeWhile_text, not_bracketed, Bool.false_and, if_neg nofun]
  obtain ⟨groups, quad, zone, fit, zoned⟩ := s
  cases quad with
  | none =>
    have hDot : '.' ∉ lowBody groups none := by
      intro h
      obtain h | h | ⟨h, -⟩ := mem_lowBody h <;> exact absurd h (by decide)
    rw [embeddedV4_none hDot]
    dsimp only
    rw [ipv6Groups_none groups fit, Option.map_some, hFold]
    rfl
  | some q =>
    obtain ⟨pre, hBody, hGroups⟩ := ipv6Groups_some groups q fit
    dsimp only
    rw [hBody, embeddedV4_quad]
    dsimp only
    have hTake : (pre ++ ':' :: q.text).take ((pre ++ ':' :: q.text).length - q.text.length) =
        pre ++ [':'] := by
      rw [← List.singleton_append, ← List.append_assoc, List.length_append, Nat.add_sub_cancel,
        List.take_left]
    rw [ipv4ToInt_text, Option.bind_some, hTake, hGroups, Option.map_some, hFold]
    rfl

open AddressText

/-- A range of the sixth version has the addresses that agree with its base in the first bits. -/
theorem ipv6InCidr_iff {n : Nat} (hn : n < 2 ^ 128) (base : Spelling) {bits : Nat} (hBits : bits ≤ 128) :
    ipv6InCidr n base.text bits = true ↔ Agree 128 bits n base.value := by
  rw [agree_iff hn base.value_lt hBits]
  simp only [ipv6InCidr, ipv6ToBigInt_text, Bool.or_eq_true, decide_eq_true_eq]
  constructor
  · rintro (rfl | h)
    · rw [Nat.shiftRight_eq_div_pow, Nat.shiftRight_eq_div_pow, Nat.sub_zero, Nat.div_eq_of_lt hn,
        Nat.div_eq_of_lt base.value_lt]
    · exact h
  · exact .inr

def ListedV4 (a : Nat) : Prop :=
  ∃ range ∈ blockedV4, ∃ base : Quad, base.text = range.1.toList ∧ Agree 32 range.2.1 a base.value

def ListedV6 (n : Nat) : Prop :=
  ∃ range ∈ blockedV6, ∃ base : Spelling, base.text = range.1.toList ∧ Agree 128 range.2.1 n base.value

/-- An address with a blocked address of the fourth version in it: mapped, compatible, 6to4 or NAT64. -/
def CarriesBlocked (n : Nat) : Prop :=
  ∃ a < 2 ^ 32, ListedV4 a ∧
    (n = 0xffff * 2 ^ 32 + a ∨ n = a ∨ n / 2 ^ 80 = 0x2002 * 2 ^ 32 + a ∨ n = 0x64ff9b * 2 ^ 96 + a)

theorem blockedV4_spelled : ∀ range ∈ blockedV4,
    range.2.1 ≤ 32 ∧ ∃ base : Quad, base.text = range.1.toList := by
  have h (q : Quad) {bits : Nat} {text : String} (hBits : bits ≤ 32) (hText : q.text = text.toList) :
      bits ≤ 32 ∧ ∃ base : Quad, base.text = text.toList := ⟨hBits, q, hText⟩
  simp only [blockedV4, List.forall_mem_cons]
  exact ⟨h ⟨127, 0, 0, 0⟩ (by decide) (by decide +kernel), h ⟨10, 0, 0, 0⟩ (by decide) (by decide +kernel),
    h ⟨172, 16, 0, 0⟩ (by decide) (by decide +kernel), h ⟨192, 168, 0, 0⟩ (by decide) (by decide +kernel),
    h ⟨169, 254, 0, 0⟩ (by decide) (by decide +kernel), h ⟨224, 0, 0, 0⟩ (by decide) (by decide +kernel),
    h ⟨0, 0, 0, 0⟩ (by decide) (by decide +kernel), h ⟨255, 255, 255, 255⟩ (by decide) (by decide +kernel),
    h ⟨240, 0, 0, 0⟩ (by decide) (by decide +kernel), h ⟨100, 64, 0, 0⟩ (by decide) (by decide +kernel),
    h ⟨192, 0, 2, 0⟩ (by decide) (by decide +kernel), h ⟨198, 51, 100, 0⟩ (by decide) (by decide +kernel),
    h ⟨203, 0, 113, 0⟩ (by decide) (by decide +kernel), h ⟨192, 88, 99, 0⟩ (by decide) (by decide +kernel),
    nofun⟩

def groupOf (t : String) (h : t.toList ≠ [] ∧ t.toList.length ≤ 4 ∧ t.toList.all isHexDigit = true) :
    Group := ⟨t.toList, h.1, h.2.1, h.2.2⟩

theorem blockedV6_spelled : ∀ range ∈ blockedV6,
    range.2.1 ≤ 128 ∧ ∃ base : Spelling, base.text = range.1.toList := by
  have h (left right : List Group) (hFit : left.length + right.length + 0 ≤ 7) {bits : Nat} {text : String}
      (hBits : bits ≤ 128)
      (hText : Spelling.text ⟨⟨left, some right⟩, none, none, hFit, rfl⟩ = text.toList) :
      bits ≤ 128 ∧ ∃ base : Spelling, base.text = text.toList := ⟨hBits, _, hText⟩
  simp only [blockedV6, List.forall_mem_cons]
  exact ⟨h [] [groupOf "1" (by decide)] (by decide) (by decide) (by decide +kernel),
    h [] [] (by decide) (by decide) (by decide +kernel),
    h [groupOf "fe80" (by decide)] [] (by decide) (by decide) (by decide +kernel),
    h [groupOf "fc00" (by decide)] [] (by decide) (by decide) (by decide +kernel),
    h [groupOf "ff00" (by decide)] [] (by decide) (by decide) (by decide +kernel),
    h [groupOf "2001" (by decide), groupOf "db8" (by decide)] [] (by decide) (by decide) (by decide +kernel),
    h [] [groupOf "ffff" (by decide), groupOf "0" (by decide), groupOf "0" (by decide)] (by decide)
      (by decide) (by decide +kernel),
    h [groupOf "2002" (by decide)] [] (by decide) (by decide) (by decide +kernel),
    h [groupOf "2001" (by decide)] [] (by decide) (by decide) (by decide +kernel),
    h [groupOf "64" (by decide), groupOf "ff9b" (by decide)] [] (by decide) (by decide) (by decide +kernel),
    h [groupOf "100" (by decide)] [] (by decide) (by decide) (by decide +kernel),
    h [] [] (by decide) (by decide) (by decide +kernel), nofun⟩

theorem blockedV4Reason_text_iff (q : Quad) :
    (blockedV4Reason q.text).isSome = true ↔ ListedV4 q.value := by
  rw [blockedV4Reason, Option.isSome_map, List.find?_isSome]
  constructor
  · rintro ⟨range, hRange, hIn⟩
    obtain ⟨hBits, base, hText⟩ := blockedV4_spelled range hRange
    rw [← hText, ipv4InCidr_iff q base hBits] at hIn
    exact ⟨range, hRange, base, hText, hIn⟩
  · rintro ⟨range, hRange, base, hText, hAgree⟩
    obtain ⟨hBits, -⟩ := blockedV4_spelled range hRange
    refine ⟨range, hRange, ?_⟩
    rwa [← hText, ipv4InCidr_iff q base hBits]

theorem blockedV6Reason_iff {n : Nat} (hn : n < 2 ^ 128) :
    (blockedV6Reason n).isSome = true ↔ ListedV6 n := by
  rw [blockedV6Reason, Option.isSome_map, List.find?_isSome]
  constructor
  · rintro ⟨range, hRange, hIn⟩
    obtain ⟨hBits, base, hText⟩ := blockedV6_spelled range hRange
    rw [← hText, ipv6InCidr_iff hn base hBits] at hIn
    exact ⟨range, hRange, base, hText, hIn⟩
  · rintro ⟨range, hRange, base, hText, hAgree⟩
    obtain ⟨hBits, -⟩ := blockedV6_spelled range hRange
    refine ⟨range, hRange, ?_⟩
    rwa [← hText, ipv6InCidr_iff hn base hBits]

theorem listedV6_of_shift {n : Nat} (hn : n < 2 ^ 128) (text : String) (bits : Nat) (reason : String)
    (b : Nat) (hRange : (text, bits, reason) ∈ blockedV6) (hBase : ipv6ToBigInt text.toList = some b)
    (hShift : n >>> (128 - bits) = b >>> (128 - bits)) : ListedV6 n := by
  obtain ⟨hBits, base, hText⟩ := blockedV6_spelled _ hRange
  rw [← hText, ipv6ToBigInt_text] at hBase
  cases hBase
  exact ⟨_, hRange, base, hText, (agree_iff hn base.value_lt hBits).mpr hShift⟩

theorem listed_of_carries {n : Nat} (hn : n < 2 ^ 128) (h : CarriesBlocked n) : ListedV6 n := by
  obtain ⟨a, ha, -, hForm⟩ := h
  obtain rfl | rfl | h6to4 | rfl := hForm
  · refine listedV6_of_shift hn "::ffff:0:0" 96 "ipv4-mapped" (0xffff * 2 ^ 32) (by decide)
      (by decide +kernel) ?_
    rw [Nat.shiftRight_eq_div_pow, Nat.shiftRight_eq_div_pow]
    omega
  · refine listedV6_of_shift hn "::" 96 "ipv4-compatible" 0 (by decide) (by decide +kernel) ?_
    rw [Nat.shiftRight_eq_div_pow, Nat.shiftRight_eq_div_pow]
    omega
  · refine listedV6_of_shift hn "2002::" 16 "6to4-transition" (0x2002 * 2 ^ 112) (by decide)
      (by decide +kernel) ?_
    rw [Nat.shiftRight_eq_div_pow, Nat.shiftRight_eq_div_pow, Nat.mul_div_cancel _ (by decide),
      show 2 ^ (128 - 16) = 2 ^ 80 * 2 ^ 32 from rfl, ← Nat.div_div_eq_div_mul, h6to4]
    omega
  · refine listedV6_of_shift hn "64:ff9b::" 96 "translation" (0x64ff9b * 2 ^ 96) (by decide)
      (by decide +kernel) ?_
    rw [Nat.shiftRight_eq_div_pow, Nat.shiftRight_eq_div_pow]
    omega

/-- What `isIP` says of valid addresses. -/
structure IsIP (isIP : Text → Nat) : Prop where
  four : ∀ q : Quad, isIP q.text = 4
  six : ∀ s : Spelling, isIP s.text = 6

/-- Every spelling of an address is read as the number that it stands for; a range has the addresses
that agree with its base in the first bits; and an address gets one verdict in all its spellings, which
blocks it just if it is in a listed range or carries a blocked address of the fourth version. -/
theorem verdict_of_address {isIP : Text → Nat} (hIP : IsIP isIP) :
    (∀ s : Spelling, ipv6ToBigInt s.text = some s.value) ∧
    (∀ n < 2 ^ 128, ∀ (base : Spelling), ∀ bits ≤ 128,
      (ipv6InCidr n base.text bits = true ↔ Agree 128 bits n base.value)) ∧
    (∀ (q base : Quad), ∀ bits ≤ 32,
      (ipv4InCidr q.text base.text bits = true ↔ Agree 32 bits q.value base.value)) ∧
    (∀ s s' : Spelling, s.value = s'.value → blockedIpReason isIP s.text = blockedIpReason isIP s'.text) ∧
    (∀ s : Spelling, (blockedIpReason isIP s.text).isSome = true ↔
      ListedV6 s.value ∨ CarriesBlocked s.value) ∧
    ∀ q : Quad, (blockedIpReason isIP q.text).isSome = true ↔ ListedV4 q.value := by
  have hVerdict (s : Spelling) : blockedIpReason isIP s.text = blockedV6Reason s.value := by
    simp only [blockedIpReason, hIP.six, ipv6ToBigInt_text]
  refine ⟨ipv6ToBigInt_text, fun n hn base bits => ipv6InCidr_iff hn base,
    fun q base bits => ipv4InCidr_iff q base, fun s s' hSame => ?_, fun s => ?_, fun q => ?_⟩
  · rw [hVerdict, hVerdict, hSame]
  · rw [hVerdict, blockedV6Reason_iff s.value_lt]
    exact ⟨.inl, fun h => h.elim id (listed_of_carries s.value_lt)⟩
  · simp only [blockedIpReason, hIP.four]
    exact blockedV4Reason_text_iff q

def isIPByColon (t : Text) : Nat := if ':' ∈ t then 6 else 4

theorem isIP_byColon : IsIP isIPByColon := by
  constructor
  · intro q
    refine if_neg fun h => ?_
    obtain h | h := mem_quad h <;> exact absurd h (by decide)
  · intro s
    refine if_pos (List.mem_append_left _ ?_)
    obtain ⟨⟨left, _ | right⟩, quad, zone, fit, zoned⟩ := s
    · change ':' ∈ [':'].intercalate (left.map Group.digits ++ (quad.map Quad.text).toList)
      cases left with
      | nil =>
        change 0 + quad.elim 0 (fun _ => 2) = 8 at fit
        cases quad with
        | none => cases fit
        | some q => cases fit
      | cons g left =>
        rw [List.map_cons, List.cons_append, intercalate_cons]
        · exact List.mem_append_right _ List.mem_cons_self
        · intro hNil
          obtain ⟨hLeft, hQuad⟩ := List.append_eq_nil_iff.mp hNil
          rw [List.map_eq_nil_iff] at hLeft
          subst hLeft
          cases quad with
          | none => cases fit
          | some q => cases hQuad
    · exact List.mem_append_right _ List.mem_cons_self

theorem verdict_of_loopback : ∃ s s' : Spelling, s.text = "::FFFF:127.0.0.1%eth0".toList ∧
    s'.text = "::ffff:7f00:01".toList ∧
    blockedIpReason isIPByColon s.text = blockedIpReason isIPByColon s'.text ∧
    ((blockedIpReason isIPByColon s.text).isSome = true ↔ ListedV6 s.value ∨ CarriesBlocked s.value) := by
  obtain ⟨-, -, -, hSame, hBlocked, -⟩ := verdict_of_address isIP_byColon
  exact ⟨⟨⟨[], some [groupOf "FFFF" (by decide)]⟩, some ⟨127, 0, 0, 1⟩, some "eth0".toList,
      (show 0 + 1 + 2 ≤ 7 by decide), by decide⟩,
    ⟨⟨[], some [groupOf "ffff" (by decide), groupOf "7f00" (by decide), groupOf "01" (by decide)]⟩, none,
      none, (show 0 + 3 + 0 ≤ 7 by decide), rfl⟩,
    by decide +kernel, by decide +kernel, hSame _ _ (by decide +kernel), hBlocked _⟩

end OrchestraAI.Execution
