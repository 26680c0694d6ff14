import Mathlib.Data.List.Infix
import Mathlib.Tactic.Common

/-! # Patterns

Patterns with the order in which a backtracking matcher tries them, and what is found, replaced and
split with them. What a pattern takes at a place is a part of the text there, and the pieces into which
the matches cut a text make up the text.
-/

universe u

inductive Regex (α : Type u)
  | empty
  | one (p : α → Bool)
  | seq (r s : Regex α)
  | alt (r s : Regex α)
  /-- A run of one class, the longest first or the shortest. -/
  | many (lazy : Bool) (p : α → Bool) (least : Nat) (most : Option Nat)
  /-- The first group. -/
  | group (r : Regex α)
  /-- Between an element of the class and one that is not. -/
  | boundary (p : α → Bool)
  /-- Behind an element of the class. -/
  | behind (p : α → Bool)

namespace Regex

variable {α : Type u}

/-- What is matched at a place, what the group takes of it, and what is behind it. -/
structure Match (α : Type u) where
  taken : List α
  group : Option (List α)
  rest : List α

def Match.append (m n : Match α) : Match α := ⟨m.taken ++ n.taken, n.group.or m.group, n.rest⟩

def counts (lazy : Bool) (least : Nat) (most : Option Nat) (length : Nat) : List Nat :=
  let n := most.elim length (min length)
  let ascending := (List.range (n + 1)).filter (least ≤ ·)
  if lazy then ascending else ascending.reverse

def ways : Regex α → Option α → List α → List (Match α)
  | empty, _, t => [⟨[], none, t⟩]
  | one _, _, [] => []
  | one p, _, a :: t => if p a then [⟨[a], none, t⟩] else []
  | seq r s, prev, t =>
    (r.ways prev t).flatMap fun m => (s.ways (m.taken.getLast?.or prev) m.rest).map m.append
  | alt r s, prev, t => r.ways prev t ++ s.ways prev t
  | many lazy p least most, _, t =>
    (counts lazy least most (t.takeWhile p).length).map fun n => ⟨t.take n, none, t.drop n⟩
  | group r, prev, t => (r.ways prev t).map fun m => { m with group := some m.taken }
  | boundary p, prev, t => if prev.any p ≠ t.head?.any p then [⟨[], none, t⟩] else []
  | behind p, prev, t => if prev.any p then [⟨[], none, t⟩] else []

def matchAt (r : Regex α) (prev : Option α) (t : List α) : Option (Match α) := (r.ways prev t).head?

def opt (r : Regex α) : Regex α := alt r empty

/-- `+` behind a class. -/
def plus (p : α → Bool) : Regex α := many false p 1 none

/-- `*` behind a class. -/
def star (p : α → Bool) : Regex α := many false p 0 none

def word (ps : List (α → Bool)) : Regex α := ps.foldr (fun p r => seq (one p) r) empty

def oneOf (rs : List (Regex α)) : Regex α :=
  match rs with
  | [] => one fun _ => false
  | r :: rs => rs.foldl alt r

def inOrder (rs : List (Regex α)) : Regex α :=
  match rs with
  | [] => empty
  | r :: rs => rs.foldl seq r

inductive Piece (α : Type u)
  | passed (a : α)
  | found (m : Match α)

namespace Piece

def text : Piece α → List α
  | passed a => [a]
  | found m => m.taken

def match? : Piece α → Option (Match α)
  | passed _ => none
  | found m => some m

def replaced (f : Match α → List α) : Piece α → List α
  | passed a => [a]
  | found m => f m

end Piece

/-- The pieces of a text behind an element; the first elements of it are taken already. -/
def pieces (r : Regex α) : Option α → Nat → List α → List (Piece α)
  | _, _ + 1, [] => []
  | _, skip + 1, a :: t => pieces r a skip t
  | prev, 0, [] => ((r.matchAt prev []).map .found).toList
  | prev, 0, a :: t =>
    match r.matchAt prev (a :: t) with
    | none => .passed a :: pieces r a 0 t
    | some m =>
      match m.taken.length with
      | 0 => .found m :: .passed a :: pieces r a 0 t
      | n + 1 => .found m :: pieces r a n t

def cut (r : Regex α) (t : List α) : List (Piece α) := r.pieces none 0 t

def found (r : Regex α) (t : List α) : List (Match α) := (r.cut t).filterMap Piece.match?

def test (r : Regex α) (t : List α) : Bool := !(r.found t).isEmpty

def replace (r : Regex α) (f : Match α → List α) (t : List α) : List α :=
  (r.cut t).flatMap (Piece.replaced f)

def between : List (Piece α) → List (List α)
  | [] => [[]]
  | .found _ :: ps => [] :: between ps
  | .passed a :: ps =>
    match between ps with
    | [] => [[a]]
    | t :: ts => (a :: t) :: ts

def split (r : Regex α) (t : List α) : List (List α) := between (r.cut t)

theorem taken_append_rest {r : Regex α} {prev : Option α} {t : List α} {m : Match α}
    (h : m ∈ r.ways prev t) : m.taken ++ m.rest = t := by
  induction r generalizing prev t m with
  | empty => rw [List.mem_singleton.mp h]; rfl
  | one p =>
    cases t with
    | nil => cases h
    | cons a t =>
      rw [ways] at h
      split at h
      · rw [List.mem_singleton.mp h]; rfl
      · cases h
  | seq r s ihr ihs =>
    obtain ⟨m₁, h₁, hRest⟩ := List.mem_flatMap.mp h
    obtain ⟨m₂, h₂, rfl⟩ := List.mem_map.mp hRest
    rw [Match.append, List.append_assoc, ihs h₂, ihr h₁]
  | alt r s ihr ihs =>
    obtain h | h := List.mem_append.mp h
    · exact ihr h
    · exact ihs h
  | many lazy p least most =>
    obtain ⟨n, -, rfl⟩ := List.mem_map.mp h
    exact List.take_append_drop n t
  | group r ih =>
    obtain ⟨m, hm, rfl⟩ := List.mem_map.mp h
    have hText : m.taken ++ m.rest = t := ih hm
    exact hText
  | boundary p =>
    rw [ways] at h
    split at h
    · rw [List.mem_singleton.mp h]; rfl
    · cases h
  | behind p =>
    rw [ways] at h
    split at h
    · rw [List.mem_singleton.mp h]; rfl
    · cases h

theorem matchAt_append {r : Regex α} {prev : Option α} {t : List α} {m : Match α}
    (h : r.matchAt prev t = some m) : m.taken ++ m.rest = t :=
  taken_append_rest (List.mem_of_head? h)

theorem text_pieces (r : Regex α) (prev : Option α) (skip : Nat) (t : List α) :
    (r.pieces prev skip t).flatMap Piece.text = t.drop skip := by
  induction t generalizing prev skip with
  | nil =>
    cases skip with
    | zero =>
      rw [pieces]
      cases hMatch : r.matchAt prev [] with
      | none => rfl
      | some m =>
        obtain ⟨hTaken, -⟩ := List.append_eq_nil_iff.mp (matchAt_append hMatch)
        simp [Piece.text, hTaken]
    | succ skip => rfl
  | cons a t ih =>
    cases skip with
    | succ skip => rw [pieces, ih, List.drop_succ_cons]
    | zero =>
      rw [pieces]
      cases hMatch : r.matchAt prev (a :: t) with
      | none => simp [Piece.text, ih]
      | some m =>
        have hAppend := matchAt_append hMatch
        cases hTaken : m.taken with
        | nil => simp [Piece.text, hTaken, ih]
        | cons b taken =>
          -- the match begins with the first element
          rw [hTaken, List.cons_append] at hAppend
          obtain ⟨rfl, rfl⟩ := List.cons.inj hAppend
          simp [Piece.text, hTaken, ih]

theorem text_cut (r : Regex α) (t : List α) : (r.cut t).flatMap Piece.text = t :=
  text_pieces r none 0 t

theorem isInfix_found {r : Regex α} {t : List α} {m : Match α} (h : m ∈ r.found t) :
    m.taken <:+: t := by
  obtain ⟨piece, hPiece, hMatch⟩ := List.mem_filterMap.mp h
  cases piece with
  | passed a => cases hMatch
  | found n =>
    obtain rfl := Option.some.inj hMatch
    obtain ⟨before, behind, hCut⟩ := List.append_of_mem hPiece
    refine ⟨before.flatMap Piece.text, behind.flatMap Piece.text, ?_⟩
    have hText := text_cut r t
    rw [hCut, List.flatMap_append, List.flatMap_cons, ← List.append_assoc] at hText
    exact hText

end Regex
