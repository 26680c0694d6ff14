import Mathlib.Data.List.Nodup
import Mathlib.Data.List.Perm.Subperm
import Mathlib.Logic.Function.Basic

/-! # Attempts of items that exist once

An item is issued with a limit on its attempts, is used, and may be put back with
its attempt counted. As long as every step replaces the copy it takes, each item
exists at most once and is used at most as often as its limit allows.
-/

namespace AttemptLedger

universe u

variable {ι : Type u} [DecidableEq ι]

/-- A copy of an item; `used` once it has been handed out for its current attempt. -/
structure Copy (ι : Type u) where
  id : ι
  attempts : Nat
  limit : Nat
  used : Bool
  deriving DecidableEq

structure Ledger (ι : Type u) where
  copies : List (Copy ι)
  issued : List (ι × Nat)
  uses : ι → Nat

inductive Step : Ledger ι → Ledger ι → Prop
  | keep {v w : Ledger ι} : w.copies.Subperm v.copies →
      (w.issued, w.uses) = (v.issued, v.uses) → Step v w
  | issue {v w : Ledger ι} (id : ι) (limit : Nat) : id ∉ v.issued.map Prod.fst → 0 < limit →
      w.copies.Subperm (⟨id, 0, limit, false⟩ :: v.copies) →
      w.issued = v.issued ++ [(id, limit)] → w.uses = v.uses → Step v w
  | use {v w : Ledger ι} (c : Copy ι) (rest : List (Copy ι)) : c.used = false →
      v.copies.Perm (c :: rest) → w.copies.Perm ({ c with used := true } :: rest) →
      w.issued = v.issued →
      w.uses = Function.update v.uses c.id (v.uses c.id + 1) → Step v w
  | putBack {v w : Ledger ι} (c : Copy ι) (rest : List (Copy ι)) : c.used = true →
      c.attempts + 1 < c.limit → v.copies.Perm (c :: rest) →
      w.copies.Perm ({ c with attempts := c.attempts + 1, used := false } :: rest) →
      (w.issued, w.uses) = (v.issued, v.uses) → Step v w

def Copy.Covers (c : Copy ι) (v : Ledger ι) : Prop :=
  (c.id, c.limit) ∈ v.issued ∧ c.attempts < c.limit ∧
    v.uses c.id ≤ if c.used then c.attempts + 1 else c.attempts

structure Inv (v : Ledger ι) : Prop where
  unique : (v.issued.map Prod.fst).Nodup
  single : (v.copies.map Copy.id).Nodup
  covers : ∀ c ∈ v.copies, c.Covers v
  bounded : ∀ e ∈ v.issued, v.uses e.1 ≤ e.2
  unknown : ∀ id, id ∉ v.issued.map Prod.fst → v.uses id = 0

variable {v w : Ledger ι}

omit [DecidableEq ι] in
theorem Inv.keep (h : Inv v) (hSub : w.copies.Subperm v.copies)
    (hSame : (w.issued, w.uses) = (v.issued, v.uses)) : Inv w := by
  simp only [Prod.mk.injEq] at hSame
  obtain ⟨hi, hu⟩ := hSame
  obtain ⟨l, hPerm, hSub⟩ := hSub
  refine ⟨hi ▸ h.unique, ?_, ?_, ?_, ?_⟩
  · exact (hPerm.map Copy.id).nodup_iff.mp (h.single.sublist (hSub.map Copy.id))
  · intro c hc
    unfold Copy.Covers
    rw [hi, hu]
    exact h.covers c (hSub.subset (hPerm.mem_iff.mpr hc))
  · rw [hi, hu]; exact h.bounded
  · rw [hi, hu]; exact h.unknown

omit [DecidableEq ι] in
theorem Inv.issue (h : Inv v) {id : ι} {limit : Nat} (hFresh : id ∉ v.issued.map Prod.fst)
    (hLimit : 0 < limit) (hSub : w.copies.Subperm (⟨id, 0, limit, false⟩ :: v.copies))
    (hIssued : w.issued = v.issued ++ [(id, limit)]) (hUses : w.uses = v.uses) : Inv w := by
  have hNew : id ∉ v.copies.map Copy.id := by
    intro hm
    obtain ⟨c, hc, rfl⟩ := List.mem_map.mp hm
    exact hFresh (List.mem_map_of_mem (f := Prod.fst) (h.covers c hc).1)
  have hWhole : Inv { w with copies := ⟨id, 0, limit, false⟩ :: v.copies } := by
    refine ⟨?_, ?_, ?_, ?_, ?_⟩
    · rw [hIssued, List.map_append, List.map_singleton, ← List.concat_eq_append]
      exact h.unique.concat hFresh
    · exact List.nodup_cons.mpr ⟨hNew, h.single⟩
    · intro c hc
      unfold Copy.Covers
      rw [hIssued, hUses]
      rcases List.mem_cons.mp hc with rfl | hc
      · refine ⟨List.mem_append_right _ List.mem_cons_self, hLimit, ?_⟩
        exact Nat.le_of_eq (h.unknown id hFresh)
      · obtain ⟨hKnown, hRest⟩ := h.covers c hc
        exact ⟨List.mem_append_left _ hKnown, hRest⟩
    · intro e he
      rw [hUses]
      rw [hIssued, List.mem_append, List.mem_singleton] at he
      rcases he with he | rfl
      · exact h.bounded e he
      · rw [h.unknown id hFresh]
        exact Nat.zero_le _
    · intro i hi
      rw [hUses]
      refine h.unknown i fun hm => hi ?_
      rw [hIssued, List.map_append]
      exact List.mem_append_left _ hm
  exact hWhole.keep hSub rfl

theorem Inv.use (h : Inv v) {c : Copy ι} {rest : List (Copy ι)} (hReady : c.used = false)
    (hv : v.copies.Perm (c :: rest)) (hw : w.copies.Perm ({ c with used := true } :: rest))
    (hIssued : w.issued = v.issued)
    (hUses : w.uses = Function.update v.uses c.id (v.uses c.id + 1)) : Inv w := by
  have hSingle := (hv.map Copy.id).nodup_iff.mp h.single
  have hGone : ∀ d ∈ rest, d.id ≠ c.id := by
    intro d hd heq
    exact (List.nodup_cons.mp hSingle).1 (heq ▸ List.mem_map_of_mem hd)
  obtain ⟨hKnown, hRoom, hCover⟩ := h.covers c (hv.mem_iff.mpr List.mem_cons_self)
  rw [hReady, if_neg Bool.false_ne_true] at hCover
  refine ⟨hIssued ▸ h.unique, (hw.map Copy.id).nodup_iff.mpr hSingle, ?_, ?_, ?_⟩
  · intro d hd
    unfold Copy.Covers
    rw [hIssued, hUses]
    rcases List.mem_cons.mp (hw.mem_iff.mp hd) with rfl | hd
    · rw [Function.update_self]
      exact ⟨hKnown, hRoom, Nat.succ_le_succ hCover⟩
    · rw [Function.update_of_ne (hGone d hd)]
      exact h.covers d (hv.mem_iff.mpr (List.mem_cons_of_mem _ hd))
  · intro e he
    rw [hIssued] at he
    rw [hUses]
    by_cases hid : e.1 = c.id
    · have heq : e = (c.id, c.limit) := List.inj_on_of_nodup_map h.unique he hKnown hid
      rw [heq, Function.update_self]
      change v.uses c.id + 1 ≤ c.limit
      omega
    · rw [Function.update_of_ne hid]
      exact h.bounded e he
  · intro id hid
    rw [hIssued] at hid
    have hne : id ≠ c.id := by
      rintro rfl
      exact hid (List.mem_map_of_mem (f := Prod.fst) hKnown)
    rw [hUses, Function.update_of_ne hne]
    exact h.unknown id hid

omit [DecidableEq ι] in
theorem Inv.putBack (h : Inv v) {c : Copy ι} {rest : List (Copy ι)} (hUsed : c.used = true)
    (hRoom : c.attempts + 1 < c.limit) (hv : v.copies.Perm (c :: rest))
    (hw : w.copies.Perm ({ c with attempts := c.attempts + 1, used := false } :: rest))
    (hSame : (w.issued, w.uses) = (v.issued, v.uses)) : Inv w := by
  simp only [Prod.mk.injEq] at hSame
  obtain ⟨hi, hu⟩ := hSame
  obtain ⟨hKnown, -, hCover⟩ := h.covers c (hv.mem_iff.mpr List.mem_cons_self)
  rw [hUsed, if_pos rfl] at hCover
  refine ⟨hi ▸ h.unique, ?_, ?_, ?_, ?_⟩
  · exact (hw.map Copy.id).nodup_iff.mpr ((hv.map Copy.id).nodup_iff.mp h.single)
  · intro d hd
    unfold Copy.Covers
    rw [hi, hu]
    rcases List.mem_cons.mp (hw.mem_iff.mp hd) with rfl | hd
    · exact ⟨hKnown, hRoom, hCover⟩
    · exact h.covers d (hv.mem_iff.mpr (List.mem_cons_of_mem _ hd))
  · rw [hi, hu]; exact h.bounded
  · rw [hi, hu]; exact h.unknown

theorem Inv.step (h : Inv v) (hs : Step v w) : Inv w := by
  cases hs with
  | keep hSub hSame => exact h.keep hSub hSame
  | issue id limit hFresh hLimit hSub hIssued hUses =>
    exact h.issue hFresh hLimit hSub hIssued hUses
  | use c rest hReady hv hw hIssued hUses => exact h.use hReady hv hw hIssued hUses
  | putBack c rest hUsed hRoom hv hw hSame => exact h.putBack hUsed hRoom hv hw hSame

end AttemptLedger
