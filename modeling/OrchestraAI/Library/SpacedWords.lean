import Mathlib.Data.List.Infix

/-! # Words joined with a mark

A line of words with one mark between two of them, what stands around a word of the line, and the
beginnings of the lines that a list of words has when empty words may stand anywhere in it.
-/

namespace SpacedWords

universe u

variable {α : Type u} {c : α} {w d : List α} {ws before after : List (List α)}

def led (c : α) (ws : List (List α)) : List α := ws.flatMap (c :: ·)

@[simp]
theorem led_nil : led c ([] : List (List α)) = [] := rfl

@[simp]
theorem led_cons : led c (w :: ws) = c :: (w ++ led c ws) := rfl

@[simp]
theorem led_append : led c (before ++ after) = led c before ++ led c after := List.flatMap_append

theorem cons_intercalate : c :: [c].intercalate (w :: ws) = led c (w :: ws) := by
  induction ws generalizing w with
  | nil => simp
  | cons v ws ih =>
    rw [List.intercalate_cons_cons, led_cons, ← ih]
    simp

/-- A word of a line stands behind a mark, and the rest of the line begins with one. -/
theorem cons_intercalate_append :
    c :: [c].intercalate (before ++ w :: after) = led c before ++ c :: (w ++ led c after) := by
  cases before with
  | nil => exact cons_intercalate
  | cons v before =>
    rw [List.cons_append, cons_intercalate, ← List.cons_append, led_append, led_cons, led_cons]

variable [DecidableEq α]

/-- The list, and what is left of it when some of the marks in front are taken away. -/
def unmarked (c : α) : List α → List (List α)
  | [] => [[]]
  | e :: d => if e = c then (e :: d) :: unmarked c d else [e :: d]

/-- The list is the beginning of a line of these words, when further marks may stand in front of
every word and at the end. -/
def begins (c : α) : List (List α) → List α → Bool
  | [], d => d.all (· = c)
  | w :: ws, d => (unmarked c d).any fun r =>
      r.isPrefixOf w ||
        w.isPrefixOf r && (r.drop w.length).head?.all (· = c) && begins c ws (r.drop w.length).tail

theorem mem_unmarked {r : List α} :
    r ∈ unmarked c d ↔ ∃ n, d = List.replicate n c ++ r := by
  induction d with
  | nil =>
    constructor
    · intro h
      exact ⟨0, (List.mem_singleton.mp h).symm⟩
    · rintro ⟨n, hn⟩
      exact List.mem_singleton.mpr (List.append_eq_nil_iff.mp hn.symm).2
  | cons e d ih =>
    by_cases he : e = c
    · subst he
      rw [unmarked, if_pos rfl, List.mem_cons, ih]
      constructor
      · rintro (rfl | ⟨n, rfl⟩)
        · exact ⟨0, rfl⟩
        · exact ⟨n + 1, rfl⟩
      · rintro ⟨_ | n, hn⟩
        · exact .inl hn.symm
        · exact .inr ⟨n, (List.cons.inj hn).2⟩
    · rw [unmarked, if_neg he, List.mem_singleton]
      constructor
      · rintro rfl
        exact ⟨0, rfl⟩
      · rintro ⟨_ | n, hn⟩
        · exact hn.symm
        · exact absurd (List.cons.inj hn).1 he

omit [DecidableEq α] in
theorem eq_replicate_nil {ws : List (List α)} (h : ws.filter (· ≠ []) = []) :
    ws = List.replicate ws.length [] := by
  rw [List.filter_eq_nil_iff] at h
  exact List.eq_replicate_of_mem fun w hw => by simpa using h w hw

omit [DecidableEq α] in
theorem led_replicate (n : Nat) : led c (List.replicate n ([] : List α)) = List.replicate n c := by
  induction n with
  | zero => rfl
  | succ n ih => rw [List.replicate_succ, led_cons, ih, List.replicate_succ, List.nil_append]

omit [DecidableEq α] in
theorem led_replicate_append (n : Nat) (w : List α) (ws : List (List α)) :
    led c (List.replicate n [] ++ w :: ws) = c :: (List.replicate n c ++ (w ++ led c ws)) := by
  calc led c (List.replicate n [] ++ w :: ws)
      = List.replicate n c ++ c :: (w ++ led c ws) := by rw [led_append, led_replicate, led_cons]
    _ = List.replicate (n + 1) c ++ (w ++ led c ws) := by
        rw [List.replicate_succ', List.append_assoc, List.singleton_append]
    _ = c :: (List.replicate n c ++ (w ++ led c ws)) := by
        rw [List.replicate_succ, List.cons_append]

omit [DecidableEq α] in
theorem filter_replicate_append (n : Nat) (hw : w ≠ []) (ws : List (List α)) :
    (List.replicate n [] ++ w :: ws).filter (· ≠ []) = w :: ws.filter (· ≠ []) := by
  rw [List.filter_append, List.filter_replicate_of_neg (by simp), List.nil_append,
    List.filter_cons_of_pos (by simpa using hw)]

omit [DecidableEq α] in
theorem prefix_append_cases {a b : List α} (h : d <+: a ++ b) :
    d <+: a ∨ ∃ r, d = a ++ r ∧ r <+: b := by
  obtain ⟨t, ht⟩ := h
  obtain ⟨r, rfl, -⟩ | ⟨r, rfl, rfl⟩ := List.append_eq_append_iff.mp ht
  · exact .inl (List.prefix_append d r)
  · exact .inr ⟨r, rfl, List.prefix_append r t⟩

theorem led_of_begins (hws : ∀ w ∈ ws, w ≠ []) (h : begins c ws d = true) :
    ∃ vs : List (List α), vs.filter (· ≠ []) = ws ∧ c :: d <+: led c vs := by
  induction ws generalizing d with
  | nil =>
    rw [begins, List.all_eq_true] at h
    have hd : d = List.replicate d.length c :=
      List.eq_replicate_of_mem fun e he => of_decide_eq_true (h e he)
    refine ⟨List.replicate (d.length + 1) [], by simp, ?_⟩
    rw [led_replicate, List.replicate_succ, ← hd]
  | cons w ws ih =>
    have hRest : ∀ v ∈ ws, v ≠ [] := fun v hv => hws v (List.mem_cons_of_mem w hv)
    have hw : w ≠ [] := hws w List.mem_cons_self
    rw [begins, List.any_eq_true] at h
    obtain ⟨r, hr, h⟩ := h
    obtain ⟨n, rfl⟩ := mem_unmarked.mp hr
    suffices hLine : ∃ vs : List (List α), vs.filter (· ≠ []) = ws ∧ r <+: w ++ led c vs by
      obtain ⟨vs, hFilter, hBegin⟩ := hLine
      refine ⟨List.replicate n [] ++ w :: vs, ?_, ?_⟩
      · rw [filter_replicate_append n hw, hFilter]
      · rw [led_replicate_append, List.prefix_cons_inj, List.prefix_append_right_inj]
        exact hBegin
    rw [Bool.or_eq_true, Bool.and_eq_true, Bool.and_eq_true] at h
    obtain hWithin | ⟨⟨hWord, hMark⟩, hBegins⟩ := h
    · refine ⟨ws, List.filter_eq_self.mpr fun v hv => by simpa using hRest v hv, ?_⟩
      exact (List.isPrefixOf_iff_prefix.mp hWithin).trans (List.prefix_append w _)
    · obtain ⟨t, rfl⟩ := List.isPrefixOf_iff_prefix.mp hWord
      rw [List.drop_left] at hMark hBegins
      obtain ⟨vs, hFilter, hVs⟩ := ih hRest hBegins
      refine ⟨vs, hFilter, (List.prefix_append_right_inj w).mpr ?_⟩
      cases t with
      | nil => exact List.nil_prefix
      | cons e t =>
        obtain rfl : e = c := of_decide_eq_true hMark
        exact hVs

theorem begins_of_led (vs : List (List α)) (hFilter : vs.filter (· ≠ []) = ws)
    (h : c :: d <+: led c vs) : begins c ws d = true := by
  induction ws generalizing d vs with
  | nil =>
    rw [eq_replicate_nil hFilter, led_replicate] at h
    rw [begins, List.all_eq_true]
    intro e he
    exact decide_eq_true (List.eq_of_mem_replicate (h.subset (List.mem_cons_of_mem c he)))
  | cons w ws ih =>
    obtain ⟨empties, rest, rfl, hEmpties, -, hRest⟩ := List.filter_eq_cons_iff.mp hFilter
    rw [eq_replicate_nil (List.filter_eq_nil_iff.mpr hEmpties), led_replicate_append,
      List.prefix_cons_inj] at h
    rw [begins, List.any_eq_true]
    obtain hMarks | ⟨r, rfl, hr⟩ := prefix_append_cases h
    · -- only marks
      refine ⟨[], mem_unmarked.mpr ⟨d.length, ?_⟩, rfl⟩
      rw [List.append_nil]
      exact List.eq_replicate_of_mem fun e he => List.eq_of_mem_replicate (hMarks.subset he)
    · refine ⟨r, mem_unmarked.mpr ⟨_, rfl⟩, ?_⟩
      rw [Bool.or_eq_true]
      obtain hWithin | ⟨t, rfl, ht⟩ := prefix_append_cases hr
      · exact .inl (List.isPrefixOf_iff_prefix.mpr hWithin)
      · right
        have hWord : w.isPrefixOf (w ++ t) = true :=
          List.isPrefixOf_iff_prefix.mpr (List.prefix_append w t)
        rw [List.drop_left, Bool.and_eq_true, Bool.and_eq_true]
        cases t with
        | nil => exact ⟨⟨hWord, rfl⟩, ih ([] :: rest) hRest (by simp)⟩
        | cons e t =>
          have he : e = c := by
            cases rest with
            | nil => cases List.eq_nil_of_prefix_nil ht
            | cons v rest => exact (List.cons_prefix_cons.mp ht).1
          subst he
          exact ⟨⟨hWord, decide_eq_true rfl⟩, ih rest hRest ht⟩

theorem begins_iff (hws : ∀ w ∈ ws, w ≠ []) : begins c ws d = true ↔
    ∃ vs : List (List α), vs.filter (· ≠ []) = ws ∧ d <+: [c].intercalate vs := by
  constructor
  · intro h
    obtain ⟨vs, hFilter, h⟩ := led_of_begins hws h
    cases vs with
    | nil => cases List.eq_nil_of_prefix_nil h
    | cons v vs =>
      rw [← cons_intercalate, List.prefix_cons_inj] at h
      exact ⟨v :: vs, hFilter, h⟩
  · rintro ⟨vs, hFilter, h⟩
    cases vs with
    | nil =>
      refine begins_of_led [[]] hFilter ?_
      rw [List.eq_nil_of_prefix_nil h]
      exact List.prefix_rfl
    | cons v vs =>
      refine begins_of_led (v :: vs) hFilter ?_
      rw [← cons_intercalate]
      exact (List.prefix_cons_inj c).mpr h

end SpacedWords
