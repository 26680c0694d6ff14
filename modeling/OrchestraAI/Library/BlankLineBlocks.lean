import Mathlib.Data.List.Chain

/-! # Blocks of lines

A text of lines in blocks that blank lines end, where a line may contribute an item to its block.
Read one character at a time, the blocks do not depend on where the text is cut; and cut at pairs of
line ends, they are those that the reading gives. An additional line end after a line harms only a
block that has items on both sides of it.
-/

namespace BlankLineBlocks

variable {α β : Type} [DecidableEq α] (nl : α) (item : List α → Option β)

/-- The line that has begun and the items of the block that has. -/
structure Scan (α β : Type) where
  line : List α
  block : List β

def fresh : Scan α β := ⟨[], []⟩

def ended (block : List β) : List (List β) := if block = [] then [] else [block]

def step (s : Scan α β) (a : α) : Scan α β × List (List β) :=
  if a = nl then
    if s.line = [] then (fresh, ended s.block)
    else (⟨[], s.block ++ (item s.line).toList⟩, [])
  else (⟨s.line ++ [a], s.block⟩, [])

def scan (s : Scan α β) : List α → Scan α β × List (List β)
  | [] => (s, [])
  | a :: t =>
    let r := step nl item s a
    let q := scan r.1 t
    (q.1, r.2 ++ q.2)

def cut (part : List α) : List α → List (List α) × List α
  | [] => ([], part)
  | [a] => ([], part ++ [a])
  | a :: b :: t =>
    if a = nl ∧ b = nl then
      let r := cut [] t
      (part :: r.1, r.2)
    else cut (part ++ [a]) (b :: t)

def cutAll (part : List α) : List (List α) → List (List α) × List α
  | [] => ([], part)
  | t :: ts =>
    let r := cut nl [] (part ++ t)
    let q := cutAll r.2 ts
    (r.1 ++ q.1, q.2)

def items (part : List α) : List β := (part.splitOn nl).filterMap item

/-- Before the next blank line no line has an item; the first line has begun with `line`. -/
def quiet (line : List α) : List α → Bool
  | [] => (item line).isNone
  | a :: t =>
    if a = nl then line = [] || (item line).isNone && quiet [] t
    else quiet (line ++ [a]) t

abbrev Pieces (α : Type) := List (Bool × List α)

def bare (ps : Pieces α) : List α := ps.flatMap Prod.snd

def extended (ps : Pieces α) : List α := ps.flatMap fun p => if p.1 then nl :: p.2 else p.2

/-- An additional line end comes after a line, and where the block has no items yet or gets no more. -/
def Harmless (s : Scan α β) : Pieces α → Prop
  | [] => True
  | p :: ps =>
    (p.1 = true → s.line = [] ∧ (s.block = [] ∨ quiet nl item [] (p.2 ++ bare ps) = true)) ∧
      Harmless (scan nl item s p.2).1 ps

attribute [grind =] scan cut cutAll quiet Harmless

variable {nl item}

theorem scan_append (s : Scan α β) (t u : List α) : scan nl item s (t ++ u) =
    ((scan nl item (scan nl item s t).1 u).1,
      (scan nl item s t).2 ++ (scan nl item (scan nl item s t).1 u).2) := by
  induction t generalizing s with
  | nil => rfl
  | cons a t ih =>
    simp only [List.cons_append, scan, ih, List.append_assoc]

theorem scan_singleton (s : Scan α β) (a : α) : scan nl item s [a] = step nl item s a := by
  simp only [scan, List.append_nil]

abbrev Unpaired (nl : α) (l : List α) : Prop := l.IsChain fun a b => ¬ (a = nl ∧ b = nl)

theorem cut_of_unpaired {p t : List α} (part : List α) (h : Unpaired nl (p ++ t.head?.toList)) :
    cut nl part (p ++ t) = cut nl (part ++ p) t := by
  induction p generalizing part with
  | nil => rw [List.nil_append, List.append_nil]
  | cons a p ih =>
    have hTail : Unpaired nl (p ++ t.head?.toList) := List.IsChain.tail h
    have hSkip : cut nl part (a :: (p ++ t)) = cut nl (part ++ [a]) (p ++ t) := by
      cases hRest : p ++ t with
      | nil => rfl
      | cons b rest =>
        have hHead : (p ++ t.head?.toList).head? = some b := by
          cases p with
          | nil =>
            obtain rfl : t = b :: rest := hRest
            rfl
          | cons c p => exact congrArg List.head? (congrArg (List.take 1) hRest)
        have hPair : ¬ (a = nl ∧ b = nl) := (List.isChain_cons.mp h).1 b hHead
        rw [cut, if_neg hPair]
    rw [List.cons_append, hSkip, ih _ hTail, List.append_assoc, List.singleton_append]

omit [DecidableEq α] in
theorem unpaired_head (t : List α) : Unpaired nl ([] ++ t.head?.toList) := by
  cases t with
  | nil => exact .nil
  | cons a t => exact .singleton a

theorem cut_append {part s : List α} (t : List α) (h : Unpaired nl (part ++ s.head?.toList))
    (hPart : s = [] → part = []) :
    cut nl part (s ++ t) = ((cut nl part s).1 ++ (cut nl [] ((cut nl part s).2 ++ t)).1,
      (cut nl [] ((cut nl part s).2 ++ t)).2) := by
  induction part, s using cut.induct nl with
  | case1 part =>
    rw [hPart rfl]
    rfl
  | case2 part a =>
    have hAll : cut nl [] (part ++ ([a] ++ t)) = cut nl part ([a] ++ t) := cut_of_unpaired [] h
    rw [← hAll, ← List.append_assoc]
    rfl
  | case3 part a b s hPair ih =>
    rw [List.cons_append, List.cons_append, cut, if_pos hPair, cut, if_pos hPair]
    dsimp only
    rw [ih (unpaired_head s) fun _ => rfl]
    rfl
  | case4 part a b s hPair ih =>
    rw [List.cons_append, List.cons_append, cut, if_neg hPair, cut, if_neg hPair]
    refine ih ?_ nofun
    rw [List.append_assoc]
    exact List.isChain_split.mpr ⟨h, List.isChain_pair.mpr hPair⟩

theorem unpaired_cut {part t : List α} (h : Unpaired nl (part ++ t.head?.toList)) :
    Unpaired nl (cut nl part t).2 := by
  induction part, t using cut.induct nl with
  | case1 part => rwa [List.head?_nil, Option.toList_none, List.append_nil] at h
  | case2 part a => exact h
  | case3 part a b t hPair ih =>
    rw [cut, if_pos hPair]
    exact ih (unpaired_head t)
  | case4 part a b t hPair ih =>
    rw [cut, if_neg hPair]
    apply ih
    rw [List.append_assoc]
    exact List.isChain_split.mpr ⟨h, List.isChain_pair.mpr hPair⟩

theorem cutAll_eq (s : List α) (ts : List (List α)) :
    cut nl [] (s ++ ts.flatten) = ((cut nl [] s).1 ++ (cutAll nl (cut nl [] s).2 ts).1,
      (cutAll nl (cut nl [] s).2 ts).2) := by
  induction ts generalizing s with
  | nil => simp only [List.flatten_nil, List.append_nil, cutAll]
  | cons t ts ih =>
    rw [List.flatten_cons, ← List.append_assoc, ih, cut_append t (unpaired_head s) fun _ => rfl,
      List.append_assoc]
    rfl

theorem items_line {line : List α} (h : nl ∉ line) : items nl item line = (item line).toList := by
  rw [items, List.splitOn_eq_singleton h, List.filterMap_cons, List.filterMap_nil]
  cases item line <;> rfl

theorem items_append {line : List α} (h : nl ∉ line) (part : List α) :
    items nl item (part ++ nl :: line) = items nl item part ++ (item line).toList := by
  rw [← items_line h, items, items, items, List.splitOn_append_cons_self, List.filterMap_append]

structure Open (nl : α) (item : List α → Option β) (part : List α) (s : Scan α β) : Prop where
  read : scan nl item fresh part = (s, [])
  line : nl ∉ s.line
  lines : part = s.line ∧ s.block = [] ∨
    ∃ before, part = before ++ nl :: s.line ∧ items nl item before = s.block

variable {part t : List α} {s : Scan α β}

theorem open_nil : Open nl item [] fresh := ⟨rfl, List.not_mem_nil, .inl ⟨rfl, rfl⟩⟩

theorem Open.items_eq (h : Open nl item part s) :
    items nl item part = s.block ++ (item s.line).toList := by
  obtain ⟨hPart, hBlock⟩ | ⟨before, hPart, hBlock⟩ := h.lines
  · rw [hPart, hBlock, items_line h.line, List.nil_append]
  · rw [hPart, items_append h.line, hBlock]

theorem Open.concat {a : α} (h : Open nl item part s) (ha : a ≠ nl) :
    Open nl item (part ++ [a]) ⟨s.line ++ [a], s.block⟩ := by
  refine ⟨?_, ?_, ?_⟩
  · rw [scan_append, h.read, scan_singleton, step, if_neg ha]
    rfl
  · rw [List.mem_append, List.mem_singleton]
    rintro (hMem | rfl)
    · exact h.line hMem
    · exact ha rfl
  · obtain ⟨hPart, hBlock⟩ | ⟨before, hPart, hBlock⟩ := h.lines
    · exact .inl ⟨congrArg (· ++ [a]) hPart, hBlock⟩
    · refine .inr ⟨before, ?_, hBlock⟩
      rw [hPart, List.append_assoc, List.cons_append]

theorem Open.blank (h : Open nl item part s) (hLast : part.getLast? ≠ some nl) (hLine : s.line = []) :
    part = [] ∧ s.block = [] := by
  obtain ⟨hPart, hBlock⟩ | ⟨before, hPart, -⟩ := h.lines
  · exact ⟨hPart.trans hLine, hBlock⟩
  · rw [hPart, hLine, List.getLast?_concat] at hLast
    exact absurd rfl hLast

theorem Open.step_nl (h : Open nl item part s) (hBlank : item [] = none)
    (hLast : part.getLast? ≠ some nl) : step nl item s nl = (⟨[], items nl item part⟩, []) := by
  rw [step, if_pos rfl]
  split
  · rename_i hLine
    obtain ⟨rfl, hBlock⟩ := h.blank hLast hLine
    rw [hBlock, items_line List.not_mem_nil, hBlank]
    rfl
  · rw [h.items_eq]

theorem Open.concat_nl (h : Open nl item part s) (hBlank : item [] = none)
    (hLast : part.getLast? ≠ some nl) : Open nl item (part ++ [nl]) ⟨[], items nl item part⟩ := by
  refine ⟨?_, List.not_mem_nil, .inr ⟨part, rfl, rfl⟩⟩
  rw [scan_append, h.read, scan_singleton, h.step_nl hBlank hLast]
  rfl

/-- Reading the rest of a text gives the blocks of the parts it is cut into, and leaves what reading
the last part leaves. -/
theorem scan_cut (hBlank : item [] = none) (h : Open nl item part s)
    (hNext : part.getLast? = some nl → t.head? ≠ some nl) :
    (scan nl item s t).2 = (cut nl part t).1.flatMap (fun p => ended (items nl item p)) ∧
      Open nl item (cut nl part t).2 (scan nl item s t).1 := by
  induction part, t using cut.induct nl generalizing s with
  | case1 part => exact ⟨rfl, h⟩
  | case2 part a =>
    rw [scan_singleton]
    by_cases ha : a = nl
    · subst ha
      have hLast : part.getLast? ≠ some a := fun hSome => hNext hSome rfl
      rw [h.step_nl hBlank hLast]
      exact ⟨rfl, h.concat_nl hBlank hLast⟩
    · rw [step, if_neg ha]
      exact ⟨rfl, h.concat ha⟩
  | case3 part a b t hPair ih =>
    obtain ⟨rfl, rfl⟩ := hPair
    have hLast : part.getLast? ≠ some b := fun hSome => hNext hSome rfl
    obtain ⟨hBlocks, hOpen⟩ := ih open_nil nofun
    rw [cut, if_pos ⟨rfl, rfl⟩]
    simp only [scan, h.step_nl hBlank hLast]
    have hSecond : step b item ⟨[], items b item part⟩ b =
        (fresh, ended (items b item part)) := by
      rw [step, if_pos rfl, if_pos rfl]
    rw [hSecond, hBlocks, List.flatMap_cons]
    exact ⟨rfl, hOpen⟩
  | case4 part a b t hPair ih =>
    rw [cut, if_neg hPair]
    rw [scan]
    dsimp only
    by_cases ha : a = nl
    · subst ha
      have hLast : part.getLast? ≠ some a := fun hSome => hNext hSome rfl
      rw [h.step_nl hBlank hLast, List.nil_append]
      refine ih (h.concat_nl hBlank hLast) fun _ hHead => hPair ⟨rfl, Option.some.inj hHead⟩
    · rw [step, if_neg ha, List.nil_append]
      refine ih (h.concat ha) fun hSome => absurd ?_ ha
      rw [List.getLast?_concat] at hSome
      exact Option.some.inj hSome

theorem scan_nl {s : Scan α β} (h : s.line = []) : scan nl item s [nl] = (fresh, ended s.block) := by
  rw [scan_singleton, step, if_pos rfl, if_pos h]

theorem scan_blank (hBlank : item [] = none) (s : Scan α β) :
    scan nl item s [nl, nl] = (fresh, ended (s.block ++ (item s.line).toList)) := by
  rw [scan, step, if_pos rfl]
  split
  · rename_i hLine
    rw [scan_nl rfl, hLine, hBlank]
    exact congrArg (fresh, ·) ((List.append_nil _).trans (congrArg ended (List.append_nil s.block).symm))
  · rw [scan_nl rfl]
    rfl

theorem mem_cut {a : α} (h : a ∈ (cut nl part t).2) : a ∈ part ∨ a ∈ t := by
  induction part, t using cut.induct nl with
  | case1 part => exact .inl h
  | case2 part b => exact List.mem_append.mp h
  | case3 part b c t hPair ih =>
    rw [cut, if_pos hPair] at h
    obtain hNone | hMem := ih h
    · cases hNone
    · exact .inr (List.mem_cons_of_mem b (List.mem_cons_of_mem c hMem))
  | case4 part b c t hPair ih =>
    rw [cut, if_neg hPair] at h
    obtain hMem | hMem := ih h
    · obtain hMem | hMem := List.mem_append.mp hMem
      · exact .inl hMem
      · rw [List.mem_singleton.mp hMem]
        exact .inr List.mem_cons_self
    · exact .inr (List.mem_cons_of_mem b hMem)

theorem scan_quiet {line : List α} (block : List β) {u : List α}
    (h : quiet nl item line (t ++ u) = true) :
    (∃ r, scan nl item ⟨line, block⟩ t = (r.1, ended block ++ r.2) ∧
        scan nl item ⟨line, []⟩ t = r) ∨
      ∃ line', scan nl item ⟨line, block⟩ t = (⟨line', block⟩, []) ∧
        scan nl item ⟨line, []⟩ t = (⟨line', []⟩, []) ∧ quiet nl item line' u = true := by
  induction t generalizing line with
  | nil => exact .inr ⟨line, rfl, rfl, h⟩
  | cons a t ih =>
    simp only [scan, step]
    rw [List.cons_append, quiet] at h
    split
    · rename_i ha
      rw [if_pos ha] at h
      split
      · exact .inl ⟨scan nl item fresh t, rfl, rfl⟩
      · rename_i hLine
        obtain ⟨hNone, hQuiet⟩ : (item line).isNone = true ∧ quiet nl item [] (t ++ u) = true := by
          simpa [hLine] using h
        rw [Option.isNone_iff_eq_none.mp hNone]
        simp only [Option.toList_none, List.append_nil, List.nil_append]
        exact ih hQuiet
    · rename_i ha
      rw [if_neg ha] at h
      simp only [List.nil_append]
      exact ih h

theorem scan_quiet_end (hBlank : item [] = none) {line : List α} {block : List β}
    (h : quiet nl item line [] = true) : (scan nl item ⟨line, block⟩ [nl, nl]).2 =
      ended block ++ (scan nl item ⟨line, []⟩ [nl, nl]).2 := by
  have hNone : item line = none := Option.isNone_iff_eq_none.mp h
  rw [scan_blank hBlank, scan_blank hBlank, hNone]
  change ended (block ++ []) = ended block ++ []
  rw [List.append_nil, List.append_nil]

/-- Harmless additional line ends change no block of the text, which a blank line ends. -/
theorem scan_extended (hBlank : item [] = none) {ps : Pieces α} :
    (∀ s : Scan α β, Harmless nl item s ps →
      (scan nl item s (extended nl ps ++ [nl, nl])).2 =
        (scan nl item s (bare ps ++ [nl, nl])).2) ∧
      ∀ line (block : List β), quiet nl item line (bare ps) = true →
        Harmless nl item ⟨line, block⟩ ps →
        (scan nl item ⟨line, block⟩ (bare ps ++ [nl, nl])).2 =
          ended block ++ (scan nl item ⟨line, []⟩ (extended nl ps ++ [nl, nl])).2 := by
  induction ps with
  | nil => exact ⟨fun s _ => rfl, fun line block hQuiet _ => scan_quiet_end hBlank hQuiet⟩
  | cons p ps ih =>
    obtain ⟨ihSame, ihQuiet⟩ := ih
    obtain ⟨extra, t⟩ := p
    have hSecond (line : List α) (block : List β)
        (hQuiet : quiet nl item line (t ++ bare ps) = true)
        (hRest : Harmless nl item (scan nl item ⟨line, block⟩ t).1 ps) :
        (scan nl item ⟨line, block⟩ (t ++ bare ps ++ [nl, nl])).2 =
          ended block ++ (scan nl item ⟨line, []⟩ (t ++ extended nl ps ++ [nl, nl])).2 := by
      rw [List.append_assoc, List.append_assoc, scan_append, scan_append _ t]
      obtain ⟨r, hBlock, hNone⟩ | ⟨line', hBlock, hNone, hQuiet'⟩ :=
        scan_quiet block hQuiet
      · rw [hBlock] at hRest
        rw [hBlock, hNone, List.append_assoc]
        exact congrArg (fun x => ended block ++ (r.2 ++ x)) (ihSame r.1 hRest).symm
      · rw [hBlock] at hRest
        rw [hBlock, hNone, List.nil_append, List.nil_append]
        exact ihQuiet line' block hQuiet' hRest
    have hBare : bare ((extra, t) :: ps) = t ++ bare ps := rfl
    have hExtended : extended nl ((extra, t) :: ps) =
        (if extra = true then [nl] else []) ++ (t ++ extended nl ps) := by
      cases extra <;> rfl
    constructor
    · rintro s ⟨hExtra, hRest⟩
      have hPlain : (scan nl item s (t ++ extended nl ps ++ [nl, nl])).2 =
          (scan nl item s (t ++ bare ps ++ [nl, nl])).2 := by
        rw [List.append_assoc, List.append_assoc, scan_append, scan_append _ t]
        exact congrArg ((scan nl item s t).2 ++ ·) (ihSame _ hRest)
      rw [hBare, hExtended]
      split
      · rename_i hTrue
        obtain ⟨line, block⟩ := s
        obtain ⟨rfl, hBlock⟩ := hExtra hTrue
        rw [List.append_assoc, scan_append, scan_nl rfl]
        obtain hBlock | hQuiet := hBlock
        · obtain rfl : block = [] := hBlock
          exact hPlain
        · exact (hSecond [] block hQuiet hRest).symm
      · exact hPlain
    · rintro line block hQuiet ⟨hExtra, hRest⟩
      rw [hBare, hExtended, hSecond line block hQuiet hRest]
      split
      · rename_i hTrue
        obtain ⟨rfl, -⟩ := hExtra hTrue
        rw [List.append_assoc [nl], scan_append _ [nl], scan_nl rfl]
        rfl
      · rfl

end BlankLineBlocks
