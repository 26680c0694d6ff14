import Mathlib.Algebra.BigOperators.Group.List.Basic
import Mathlib.Algebra.Order.BigOperators.Group.List
import Mathlib.Algebra.Order.Ring.Nat
import Mathlib.Data.List.Perm.Basic

/-! # Bags of work items served one at a time

A list of outstanding items, one of which is taken out by its position and
replaced by what it leads to. Only membership and weights are observed, so the
order of the bag carries no meaning.
-/

namespace WorkBag

universe u

variable {α : Type u}

/-- Serve the item at position `k`: it leaves, and `ws` arrives. -/
def serve (l : List α) (k : Nat) (ws : List α) : List α := l.eraseIdx k ++ ws

theorem perm_cons_eraseIdx {l : List α} {k : Nat} {a : α} (h : l[k]? = some a) :
    l.Perm (a :: l.eraseIdx k) := by
  obtain ⟨hk, rfl⟩ := List.getElem?_eq_some_iff.mp h
  exact (List.getElem_cons_eraseIdx_perm hk).symm

theorem mem_of_get {l : List α} {k : Nat} {a : α} (h : l[k]? = some a) : a ∈ l :=
  List.mem_of_getElem? h

theorem mem_serve {l : List α} {k : Nat} {ws : List α} {b : α} (h : b ∈ serve l k ws) :
    b ∈ l ∨ b ∈ ws :=
  (List.mem_append.mp h).imp List.mem_of_mem_eraseIdx id

theorem mem_serve_right {l : List α} {k : Nat} {ws : List α} {b : α} (h : b ∈ ws) :
    b ∈ serve l k ws := List.mem_append_right _ h

theorem mem_or_eq {l : List α} {k : Nat} {u : List α} {a b : α} (h : l[k]? = some a)
    (hb : b ∈ l) : b = a ∨ b ∈ serve l k u := by
  rcases List.mem_cons.mp ((perm_cons_eraseIdx h).mem_iff.mp hb) with rfl | hb
  · exact .inl rfl
  · exact .inr (List.mem_append_left _ hb)

theorem perm_serve {l : List α} {k : Nat} {a : α} (ws : List α) (h : l[k]? = some a) :
    (a :: serve l k ws).Perm (l ++ ws) :=
  ((perm_cons_eraseIdx h).append_right ws).symm

theorem length_serve {l : List α} {k : Nat} {a : α} (ws : List α) (h : l[k]? = some a) :
    (serve l k ws).length + 1 = l.length + ws.length := by
  rw [← List.length_append, ← (perm_serve ws h).length_eq, List.length_cons]

def weight (f : α → Nat) (l : List α) : Nat := (l.map f).sum

@[simp] theorem weight_nil (f : α → Nat) : weight f [] = 0 := rfl

@[simp] theorem weight_cons (f : α → Nat) (a : α) (l : List α) :
    weight f (a :: l) = f a + weight f l := by simp [weight]

@[simp] theorem weight_append (f : α → Nat) (l₁ l₂ : List α) :
    weight f (l₁ ++ l₂) = weight f l₁ + weight f l₂ := by simp [weight]

theorem weight_perm (f : α → Nat) {l₁ l₂ : List α} (h : l₁.Perm l₂) :
    weight f l₁ = weight f l₂ := (h.map f).sum_eq

theorem weight_serve (f : α → Nat) {l : List α} {k : Nat} {a : α} (ws : List α)
    (h : l[k]? = some a) : weight f (serve l k ws) + f a = weight f l + weight f ws := by
  rw [weight_perm f (perm_cons_eraseIdx h), serve, weight_append, weight_cons]
  omega

theorem weight_eq_zero_iff (f : α → Nat) (l : List α) : weight f l = 0 ↔ ∀ a ∈ l, f a = 0 := by
  induction l with
  | nil => simp
  | cons a l ih => simp [ih]

theorem weight_filter_le (f : α → Nat) (p : α → Bool) (l : List α) :
    weight f (l.filter p) ≤ weight f l := by
  induction l with
  | nil => simp
  | cons a l ih =>
    cases hp : p a with
    | true => rw [List.filter_cons_of_pos hp, weight_cons, weight_cons]; omega
    | false => rw [List.filter_cons_of_neg (by simp [hp]), weight_cons]; omega

end WorkBag
