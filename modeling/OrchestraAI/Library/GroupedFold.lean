import Mathlib.Algebra.BigOperators.Group.List.Basic
import Mathlib.Data.List.Basic
import Mathlib.Data.List.DropRight
import Mathlib.Data.List.Induction
import OrchestraAI.Library.OrderedMap

/-! # Aggregates by key

A map that gathers the entries of a list under their keys: what it holds of a key depends on the
entries under this key alone, and its keys stand in the order in which they occur first. A window
keeps the aggregates of the keys that were opened last.

Folds that may fail: the rules for a fold that stops at the first error: what succeeds of a sequence, an invariant of
the accumulator, and the equality of two folds.
-/

namespace GroupedFold

universe u v

variable {κ : Type u} {ν : Type v} {α : Type u} [DecidableEq κ]

def collect (key : α → κ) (add : Option ν → α → ν) (l : List α) : OrderedMap κ ν :=
  l.foldl (fun m a => m.set (key a) (add (m.get (key a)) a)) .empty

def gather (add : Option ν → α → ν) (l : List α) : Option ν :=
  l.foldl (fun v a => some (add v a)) none

def opened (key : α → κ) (l : List α) : List κ :=
  l.foldl (fun keys a => if key a ∈ keys then keys else keys ++ [key a]) []

variable {key : α → κ} {add : Option ν → α → ν} {l : List α} {k : κ}

theorem collect_concat (l : List α) (a : α) : collect key add (l ++ [a]) =
    (collect key add l).set (key a) (add ((collect key add l).get (key a)) a) :=
  List.foldl_concat ..

theorem gather_concat (l : List α) (a : α) :
    gather add (l ++ [a]) = some (add (gather add l) a) := List.foldl_concat ..

theorem opened_concat (l : List α) (a : α) : opened key (l ++ [a]) =
    if key a ∈ opened key l then opened key l else opened key l ++ [key a] :=
  List.foldl_concat ..

theorem get_collect (l : List α) (k : κ) :
    (collect key add l).get k = gather add (l.filter fun a => key a = k) := by
  induction l using List.reverseRecOn with
  | nil => rfl
  | append_singleton l a ih =>
    rw [collect_concat, OrderedMap.get_set, List.filter_append]
    obtain rfl | hOther := eq_or_ne k (key a)
    · rw [if_pos rfl, ih, List.filter_cons_of_pos (by simp), List.filter_nil,
        gather_concat]
    · rw [if_neg hOther, ih, List.filter_cons_of_neg (by simpa using hOther.symm), List.filter_nil,
        List.append_nil]

theorem keys_collect (l : List α) : (collect key add l).keys = opened key l := by
  induction l using List.reverseRecOn with
  | nil => rfl
  | append_singleton l a ih =>
    rw [collect_concat, opened_concat, ← ih]
    split
    · rename_i hMem
      exact OrderedMap.keys_set_old _ hMem
    · rename_i hNew
      exact OrderedMap.keys_set_new _ hNew

theorem opened_of_nodup (h : (l.map key).Nodup) : opened key l = l.map key := by
  induction l using List.reverseRecOn with
  | nil => rfl
  | append_singleton l a ih =>
    rw [List.map_append, List.map_singleton] at h
    have hNew : key a ∉ l.map key := fun hMem =>
      List.disjoint_of_nodup_append h hMem List.mem_cons_self
    rw [opened_concat, ih (List.nodup_append.mp h).1, if_neg hNew, List.map_append,
      List.map_singleton]

theorem keyed_collect {own : ν → κ}
    (hOwn : ∀ v a, (∀ w, v = some w → own w = key a) → own (add v a) = key a) (l : List α) :
    (collect key add l).Keyed own := by
  induction l using List.reverseRecOn with
  | nil => exact OrderedMap.keyed_empty
  | append_singleton l a ih =>
    intro k v hGet
    rw [collect_concat, OrderedMap.get_set] at hGet
    split at hGet
    · rename_i hSame
      cases hGet
      rw [hSame]
      exact hOwn _ a fun w hw => ih (key a) w hw
    · exact ih k v hGet

theorem gather_induction {P : ν → Prop}
    (hAdd : ∀ v a, a ∈ l → (∀ w, v = some w → P w) → P (add v a)) {w : ν}
    (h : gather add l = some w) : P w := by
  induction l using List.reverseRecOn generalizing w with
  | nil => cases h
  | append_singleton l a ih =>
    rw [gather_concat] at h
    cases h
    apply hAdd _ a (List.mem_append_right l List.mem_cons_self)
    intro w hw
    exact ih (fun v b hb => hAdd v b (List.mem_append_left _ hb)) hw

theorem gather_eq_none : gather add l = none ↔ l = [] := by
  cases l using List.reverseRecOn with
  | nil => exact iff_of_true rfl rfl
  | append_singleton l a =>
    rw [gather_concat]
    exact iff_of_false (Option.some_ne_none _) (by simp)

section Sums

variable {M : Type v} [AddCommMonoid M] {m : OrderedMap κ ν} {f : ν → M} {g : α → M}

theorem sum_values_set (f : ν → M) (m : OrderedMap κ ν) (k : κ) (v : ν) :
    ((m.set k v).values.map f).sum + ((m.get k).elim 0 f) = (m.values.map f).sum + f v := by
  have hValues (n : OrderedMap κ ν) : (n.values.map f).sum =
      (n.entries.map fun e => f e.2).sum := by
    rw [OrderedMap.values, List.map_map]
    rfl
  rw [hValues, hValues]
  cases hGet : m.get k with
  | none =>
    rw [((OrderedMap.entries_perm_set_new v hGet).map _).sum_eq, List.map_cons, List.sum_cons,
      Option.elim_none, add_zero, add_comm]
  | some w =>
    rw [((OrderedMap.entries_perm_set m k v).map _).sum_eq, List.map_cons, List.sum_cons,
      ((OrderedMap.entries_perm_delete hGet).map _).sum_eq, List.map_cons, List.sum_cons,
      Option.elim_some, add_assoc, add_comm (f w), add_comm (f v), add_right_comm]

/-- If every entry adds its own share, the aggregates of all keys sum to the shares of all
entries. -/
theorem sum_values_collect [IsCancelAdd M] (hAdd : ∀ v a, f (add v a) = v.elim 0 f + g a)
    (l : List α) : ((collect key add l).values.map f).sum = (l.map g).sum := by
  induction l using List.reverseRecOn with
  | nil => rfl
  | append_singleton l a ih =>
    have hSet := sum_values_set f (collect key add l) (key a)
      (add ((collect key add l).get (key a)) a)
    rw [← collect_concat, hAdd, ih, ← add_assoc, add_right_comm] at hSet
    rw [add_right_cancel hSet, List.map_append, List.sum_append, List.map_singleton,
      List.sum_singleton]

end Sums

section Window

variable {own : ν → κ} {m : OrderedMap κ ν} {f : ν → ν} {n : Nat}

/-- The aggregates of the `n` last keys, written to a new map. -/
def restored (own : ν → κ) (f : ν → ν) (n : Nat) (m : OrderedMap κ ν) : OrderedMap κ ν :=
  OrderedMap.empty.setAll own ((m.values.rtake n).map f)

theorem values_rtake_map (hOwn : m.Keyed own) : (m.values.rtake n).map own = m.keys.rtake n := by
  have hLength : m.values.length = m.keys.length := by
    rw [← hOwn.values_map, List.length_map]
  rw [List.rtake, List.rtake, List.map_drop, hOwn.values_map, hLength]

theorem get_restored (hOwn : m.Keyed own) (hf : ∀ v, own (f v) = own v) (k : κ) :
    (restored own f n m).get k = if k ∈ m.keys.rtake n then (m.get k).map f else none := by
  have hKeys : ((m.values.rtake n).map f).map own = m.keys.rtake n := by
    rw [List.map_map, ← values_rtake_map hOwn]
    exact List.map_congr_left fun v _ => hf v
  have hMem : k ∈ (restored own f n m).keys ↔ k ∈ m.keys.rtake n := by
    rw [← hKeys]
    exact OrderedMap.mem_keys_setAll.trans (or_iff_right List.not_mem_nil)
  cases hGet : (restored own f n m).get k with
  | none =>
    rw [OrderedMap.get_eq_none_iff, hMem] at hGet
    rw [if_neg hGet]
  | some v =>
    rw [if_pos (hMem.mp ((OrderedMap.mem_keys_iff _ _).mpr ⟨v, hGet⟩))]
    obtain ⟨hValue, hKey⟩ | ⟨hNone, -⟩ := OrderedMap.get_setAll hGet
    · obtain ⟨w, hw, rfl⟩ := List.mem_map.mp hValue
      have hFound := hOwn.mem_values.mp (List.mem_of_mem_drop hw)
      rw [← hKey, hf, hFound]
      rfl
    · cases hNone

end Window

end GroupedFold

namespace FallibleFold

universe u v w

theorem bind_eq_ok {ε α β : Type*} {x : Except ε α} {f : α → Except ε β} {b : β}
    (h : x.bind f = .ok b) : ∃ a, x = .ok a ∧ f a = .ok b := by
  cases x with
  | error e => cases h
  | ok a => exact ⟨a, rfl, h⟩

variable {ε : Type u} {α : Type v} {β : Type u} {f g : β → α → Except ε β} {l : List α}

theorem foldlM_cons_ok {a : α} {b c : β} (h : (a :: l).foldlM f b = .ok c) :
    ∃ m, f b a = .ok m ∧ l.foldlM f m = .ok c := by
  rw [List.foldlM_cons] at h
  exact bind_eq_ok h

theorem foldlM_invariant {P : β → Prop} (hStep : ∀ a ∈ l, ∀ b c, P b → f b a = .ok c → P c)
    {b c : β} (hb : P b) (h : l.foldlM f b = .ok c) : P c := by
  induction l generalizing b with
  | nil => exact Except.ok.inj h ▸ hb
  | cons a l ih =>
    obtain ⟨m, hNext, hRest⟩ := foldlM_cons_ok h
    apply ih (fun a' ha' => hStep a' (List.mem_cons_of_mem a ha')) _ hRest
    exact hStep a List.mem_cons_self b m hb hNext

theorem foldlM_congr (h : ∀ a ∈ l, ∀ b, f b a = g b a) (b : β) : l.foldlM f b = l.foldlM g b := by
  induction l generalizing b with
  | nil => rfl
  | cons a l ih =>
    rw [List.foldlM_cons, List.foldlM_cons, h a List.mem_cons_self b]
    apply bind_congr
    exact fun m => ih (fun a' ha' => h a' (List.mem_cons_of_mem a ha')) m

end FallibleFold
