import Mathlib.Data.List.Basic
import Mathlib.Data.List.Infix

/-! # Replacing the first occurrence

`includes` and `replace` of texts for a search text that is no regular expression.
The replacement is a template: `$$` stands for a dollar sign, `$&` for what was found,
`` $` `` and `$'` for what stands before and after it.

In texts put together: where an occurrence lies in a list that is put together around a mark: if the mark is not in it, on
one side, and if the mark is its first of this kind, at the mark or behind it.
-/

namespace TextReplace

def cut (found : List Char) : List Char → Option (List Char × List Char)
  | [] => if found = [] then some ([], []) else none
  | c :: s =>
    if found.isPrefixOf (c :: s) then some ([], (c :: s).drop found.length)
    else (cut found s).map fun p => (c :: p.1, p.2)

def includes (s found : List Char) : Bool := (cut found s).isSome

def expand (found before after : List Char) : List Char → List Char
  | '$' :: '$' :: r => '$' :: expand found before after r
  | '$' :: '&' :: r => found ++ expand found before after r
  | '$' :: '`' :: r => before ++ expand found before after r
  | '$' :: '\'' :: r => after ++ expand found before after r
  | c :: r => c :: expand found before after r
  | [] => []

def replace (s found template : List Char) : List Char :=
  match cut found s with
  | none => s
  | some (before, after) => before ++ expand found before after template ++ after

def replaceVerbatim (s found text : List Char) : Option (List Char) :=
  (cut found s).map fun p => p.1 ++ text ++ p.2

def SelfTemplate (s found template : List Char) : Prop :=
  ∀ before after, cut found s = some (before, after) → expand found before after template = template

theorem cut_empty (s : List Char) : cut [] s = some ([], s) := by
  cases s <;> rfl

theorem cut_eq {found s before after : List Char} (h : cut found s = some (before, after)) :
    s = before ++ (found ++ after) := by
  induction s generalizing before with
  | nil =>
    obtain ⟨rfl, hEq⟩ := Option.ite_some_none_eq_some.mp h
    cases hEq
    rfl
  | cons c s ih =>
    unfold cut at h
    split at h
    · rename_i hPrefix
      cases h
      obtain ⟨t, ht⟩ := List.isPrefixOf_iff_prefix.mp hPrefix
      rw [← ht, List.drop_left, List.nil_append]
    · obtain ⟨⟨b, a⟩, hCut, hEq⟩ := Option.map_eq_some_iff.mp h
      cases hEq
      rw [ih hCut, List.cons_append]

theorem includes_iff {s found : List Char} : includes s found = true ↔ found <:+: s := by
  constructor
  · intro h
    obtain ⟨⟨before, after⟩, hCut⟩ := Option.isSome_iff_exists.mp h
    exact ⟨before, after, by rw [cut_eq hCut, List.append_assoc]⟩
  · intro h
    induction s with
    | nil => simp [includes, cut, List.infix_nil.mp h]
    | cons c s ih =>
      rw [includes, cut]
      split
      · rfl
      · rename_i hPrefix
        rw [Option.isSome_map]
        obtain hStart | hRest := List.infix_cons_iff.mp h
        · exact absurd (List.isPrefixOf_iff_prefix.mpr hStart) hPrefix
        · exact ih hRest

/-- A replacement takes the template as it stands just if the template stands for itself. -/
theorem replaceVerbatim_eq_replace_iff {s found template : List Char} :
    replaceVerbatim s found template = some (replace s found template) ↔
      includes s found = true ∧ SelfTemplate s found template := by
  unfold replaceVerbatim replace includes SelfTemplate
  cases hCut : cut found s with
  | none => simp
  | some p =>
    obtain ⟨before, after⟩ := p
    simp [eq_comm]

/-- A text is replaced verbatim and nothing changes just if it is replaced by itself. -/
theorem replaceVerbatim_eq_self_iff {s found text : List Char} :
    replaceVerbatim s found text = some s ↔ includes s found = true ∧ text = found := by
  unfold replaceVerbatim includes
  cases hCut : cut found s with
  | none => simp
  | some p =>
    obtain ⟨before, after⟩ := p
    rw [Option.map_some, cut_eq hCut]
    simp

end TextReplace

namespace InfixText

universe u

variable {α : Type u} {p p₁ p₂ a b : List α} {c : α}

theorem infix_append_cons (hc : c ∉ p) (h : p <:+: a ++ c :: b) : p <:+: a ∨ p <:+: b := by
  induction a with
  | nil =>
    obtain hPrefix | hInfix := List.infix_cons_iff.mp h
    · cases p with
      | nil => exact .inl (List.infix_refl [])
      | cons d p =>
        obtain ⟨rfl, -⟩ := List.cons_prefix_cons.mp hPrefix
        exact absurd List.mem_cons_self hc
    · exact .inr hInfix
  | cons d a ih =>
    obtain hPrefix | hInfix := List.infix_cons_iff.mp h
    · -- an occurrence at the beginning ends before the mark
      obtain ⟨r, hr⟩ := hPrefix
      have hr : p ++ r = (d :: a) ++ c :: b := hr
      obtain ⟨a', hd, -⟩ | ⟨r', hr', hRest⟩ := List.append_eq_append_iff.mp hr
      · exact .inl ⟨[], a', hd.symm⟩
      · cases r' with
        | nil =>
          rw [List.append_nil] at hr'
          exact .inl (hr' ▸ List.infix_refl _)
        | cons e r' =>
          obtain ⟨rfl, -⟩ := List.cons.inj hRest
          exact absurd (hr' ▸ List.mem_append_right _ List.mem_cons_self) hc
    · obtain hBefore | hBehind := ih hInfix
      · exact .inl (List.infix_cons hBefore)
      · exact .inr hBehind

theorem eq_of_prefix_at_mark (hp : c ∉ p₁) (ha : c ∉ a) (h : p₁ ++ c :: p₂ <+: a ++ c :: b) :
    p₁ = a := by
  obtain ⟨r, hr⟩ := h
  rw [List.append_assoc, List.cons_append] at hr
  induction p₁ generalizing a with
  | nil =>
    cases a with
    | nil => rfl
    | cons d a => exact absurd ((List.cons.inj hr).1 ▸ List.mem_cons_self) ha
  | cons e p ih =>
    cases a with
    | nil => exact absurd ((List.cons.inj hr).1 ▸ List.mem_cons_self) hp
    | cons d a =>
      obtain ⟨rfl, hRest⟩ := List.cons.inj hr
      rw [ih (fun h => hp (List.mem_cons_of_mem _ h)) (fun h => ha (List.mem_cons_of_mem _ h))
        hRest]

theorem infix_at_mark (hp : c ∉ p₁) (ha : c ∉ a) (h : p₁ ++ c :: p₂ <:+: a ++ c :: b) :
    p₁ <:+ a ∨ p₁ ++ c :: p₂ <:+: b := by
  induction a with
  | nil =>
    obtain hPrefix | hInfix := List.infix_cons_iff.mp h
    · exact .inl (eq_of_prefix_at_mark (a := []) hp ha hPrefix ▸ List.suffix_refl _)
    · exact .inr hInfix
  | cons d a ih =>
    obtain hPrefix | hInfix := List.infix_cons_iff.mp h
    · exact .inl (eq_of_prefix_at_mark (a := d :: a) hp ha hPrefix ▸ List.suffix_refl _)
    · obtain hBefore | hBehind := ih (fun hMem => ha (List.mem_cons_of_mem d hMem)) hInfix
      · exact .inl (hBefore.trans (List.suffix_cons d a))
      · exact .inr hBehind

end InfixText
