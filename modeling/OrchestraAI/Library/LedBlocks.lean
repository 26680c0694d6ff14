import Mathlib.Data.List.Basic
import Mathlib.Data.List.Induction

/-! # Leaders and their followers

Some elements of a list follow: they belong to the last element before them that does not.
The blocks of a list are its leaders, each with the followers right after it.
-/

namespace LedBlocks

universe u

variable {α : Type u} {follows : α → Bool}

def Led (follows : α → Bool) (l : List α) : Prop := ∀ a, l.head? = some a → follows a = false

def blocks (follows : α → Bool) : List α → List (α × List α)
  | [] => []
  | a :: l =>
    if follows a then blocks follows l else (a, l.takeWhile follows) :: blocks follows l

attribute [grind =] blocks

theorem led_nil : Led follows [] := nofun

theorem led_cons {a : α} {l : List α} (h : follows a = false) : Led follows (a :: l) := by
  rintro b hb
  cases hb
  exact h

theorem Led.head {a : α} {l : List α} (h : Led follows (a :: l)) : follows a = false := h a rfl

theorem Led.takeWhile {l : List α} (h : Led follows l) : l.takeWhile follows = [] := by
  cases l with
  | nil => rfl
  | cons a l => rw [List.takeWhile_cons, h.head, if_neg Bool.false_ne_true]

theorem Led.takeWhile_append {l l' : List α} (h : Led follows l') :
    (l ++ l').takeWhile follows = l.takeWhile follows := by
  induction l with
  | nil => rw [List.nil_append, h.takeWhile, List.takeWhile_nil]
  | cons a l ih => rw [List.cons_append, List.takeWhile_cons, List.takeWhile_cons, ih]

theorem Led.append {l l' : List α} (h : Led follows l) (h' : Led follows l') :
    Led follows (l ++ l') := by
  cases l with
  | nil => exact h'
  | cons a l => exact led_cons h.head

theorem led_append_iff {a : α} {l l' : List α} :
    Led follows (l ++ a :: l') ↔ Led follows (l ++ [a]) := by
  cases l <;> exact Iff.rfl

theorem blocks_cons {a : α} {l : List α} (h : follows a = false) :
    blocks follows (a :: l) = (a, l.takeWhile follows) :: blocks follows l := by
  rw [blocks, h, if_neg Bool.false_ne_true]

theorem blocks_append {l l' : List α} (h : Led follows l') :
    blocks follows (l ++ l') = blocks follows l ++ blocks follows l' := by
  induction l with
  | nil => rfl
  | cons a l ih =>
    cases hA : follows a with
    | true =>
      rw [List.cons_append, blocks, blocks, hA, if_pos rfl, if_pos rfl, ih]
    | false =>
      rw [List.cons_append, blocks_cons hA, blocks_cons hA, ih, h.takeWhile_append,
        List.cons_append]

theorem blocks_followers {l : List α} (h : ∀ a ∈ l, follows a = true) :
    blocks follows l = [] := by
  induction l with
  | nil => rfl
  | cons a l ih =>
    rw [blocks, h a List.mem_cons_self, if_pos rfl]
    exact ih fun b hb => h b (List.mem_cons_of_mem a hb)

theorem takeWhile_followers {l : List α} (h : ∀ a ∈ l, follows a = true) :
    l.takeWhile follows = l := by
  simpa using @List.takeWhile_append_of_pos α follows l [] h

theorem blocks_block {a : α} {l fs : List α} (hA : follows a = false)
    (hFs : ∀ f ∈ fs, follows f = true) :
    blocks follows (l ++ a :: fs) = blocks follows l ++ [(a, fs)] := by
  rw [blocks_append (led_cons hA), blocks_cons hA, takeWhile_followers hFs, blocks_followers hFs]

theorem mem_blocks {l : List α} {a : α} {fs : List α} :
    (a, fs) ∈ blocks follows l ↔
      ∃ before after, l = before ++ a :: after ∧ follows a = false ∧
        fs = after.takeWhile follows := by
  constructor
  · intro h
    induction l with
    | nil => cases h
    | cons b l ih =>
      cases hB : follows b with
      | true =>
        rw [blocks, hB, if_pos rfl] at h
        obtain ⟨before, after, rfl, hA, hFs⟩ := ih h
        exact ⟨b :: before, after, rfl, hA, hFs⟩
      | false =>
        rw [blocks_cons hB] at h
        rcases List.mem_cons.mp h with hHead | hTail
        · obtain ⟨rfl, rfl⟩ := Prod.mk.inj hHead
          exact ⟨[], l, rfl, hB, rfl⟩
        · obtain ⟨before, after, rfl, hA, hFs⟩ := ih hTail
          exact ⟨b :: before, after, rfl, hA, hFs⟩
  · rintro ⟨before, after, rfl, hA, rfl⟩
    rw [blocks_append (led_cons hA), blocks_cons hA]
    exact List.mem_append_right _ List.mem_cons_self

theorem blocks_suffix {l s : List α} (h : s <:+ l) {b : α × List α}
    (hb : b ∈ blocks follows s) : b ∈ blocks follows l := by
  obtain ⟨t, rfl⟩ := h
  obtain ⟨before, after, rfl, hA, hFs⟩ := mem_blocks.mp hb
  exact mem_blocks.mpr ⟨t ++ before, after, (List.append_assoc _ _ _).symm, hA, hFs⟩

section Map

variable {β : Type u} {follows' : β → Bool} {f : α → β}

theorem led_map (hF : ∀ a, follows' (f a) = follows a) {l : List α} :
    Led follows' (l.map f) ↔ Led follows l := by
  cases l with
  | nil => exact ⟨fun _ => led_nil, fun _ => led_nil⟩
  | cons a l =>
    constructor
    · intro h
      exact led_cons ((hF a).symm.trans h.head)
    · intro h
      exact led_cons ((hF a).trans h.head)

theorem takeWhile_map (hF : ∀ a, follows' (f a) = follows a) (l : List α) :
    (l.map f).takeWhile follows' = (l.takeWhile follows).map f := by
  rw [List.takeWhile_map, show follows' ∘ f = follows from funext hF]

end Map

/-- In a list that does not begin with a follower, every follower has its leader, with only
followers between them. -/
theorem Led.leader {before after : List α} {f : α} (h : Led follows (before ++ f :: after))
    (hF : follows f = true) :
    ∃ earlier a fs, before = earlier ++ a :: fs ∧ follows a = false ∧
      ∀ x ∈ fs, follows x = true := by
  induction before using List.reverseRecOn with
  | nil =>
    rw [List.nil_append] at h
    rw [h.head] at hF
    cases hF
  | append_singleton before b ih =>
    cases hB : follows b with
    | false => exact ⟨before, b, [], rfl, hB, nofun⟩
    | true =>
      rw [List.append_assoc, List.singleton_append] at h
      have hBefore : Led follows (before ++ f :: after) :=
        match before, h with
        | [], h => absurd hB (by rw [h.head]; exact Bool.false_ne_true)
        | _ :: _, h => led_cons h.head
      obtain ⟨earlier, a, fs, rfl, hA, hFs⟩ := ih hBefore
      refine ⟨earlier, a, fs ++ [b], by rw [List.append_assoc, List.cons_append], hA, ?_⟩
      rintro x hx
      rcases List.mem_append.mp hx with hx | hx
      · exact hFs x hx
      · rwa [List.mem_singleton.mp hx]

end LedBlocks
