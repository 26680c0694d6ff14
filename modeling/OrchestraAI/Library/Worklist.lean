import Mathlib.Data.Finite.Defs
import Mathlib.Data.Fintype.Card
import Mathlib.Data.List.Nodup
import Mathlib.Data.List.Perm.Basic
import Mathlib.Data.Set.Finite.List
import Mathlib.Logic.Relation
import Mathlib.Tactic.Common

/-! # Worklists

A queue of keys is worked off in some order. A key that is admitted stands for an element, and the
elements after it join the queue. The work ends where only finitely many keys are admitted, and what
it gives is closed but for the keys that are not admitted.

Dependencies in a finite list are vertices with edges to what they depend on. Where there are finitely many vertices and no cycle, the
edges can be followed to a vertex that has none, and what the vertices on the way have in common that
vertex has too.
-/

namespace Worklist

universe u v

variable {κ : Type u} {β : Type v}

structure State (κ : Type u) (β : Type v) where
  seen : List κ
  queue : List κ
  out : List β

section Definitions

variable [DecidableEq κ] (sort : List κ → List κ) (admits : κ → Option β) (after : β → List κ)

def step (s : State κ β) : Option (State κ β) :=
  match sort s.queue with
  | [] => none
  | k :: queue =>
    if k ∈ s.seen then some { s with queue }
    else
      match admits k with
      | none => some { s with seen := k :: s.seen, queue }
      | some b =>
        some { seen := k :: s.seen, queue := queue ++ (after b).filter (· ∉ k :: s.seen),
               out := s.out ++ [b] }

def run : Nat → State κ β → Option (List β)
  | 0, _ => none
  | n + 1, s =>
    match step sort admits after s with
    | none => some s.out
    | some t => run n t

end Definitions

variable {sort : List κ → List κ} {admits : κ → Option β} {after : β → List κ} {s t : State κ β}

def Follows (admits : κ → Option β) (after : β → List κ) (b c : β) : Prop :=
  ∃ k ∈ after b, admits k = some c

section End

variable [DecidableEq κ]

variable (admits after s) in
theorem step_cases (hSort : ∀ l, (sort l).Perm l) :
    s.queue = [] ∧ step sort admits after s = none ∨
      ∃ k queue, s.queue.Perm (k :: queue) ∧
        (k ∈ s.seen ∧ step sort admits after s = some { s with queue } ∨
          k ∉ s.seen ∧ admits k = none ∧
            step sort admits after s = some { s with seen := k :: s.seen, queue } ∨
          k ∉ s.seen ∧ ∃ b, admits k = some b ∧ step sort admits after s =
            some { seen := k :: s.seen, queue := queue ++ (after b).filter (· ∉ k :: s.seen),
                   out := s.out ++ [b] }) := by
  have hPerm := hSort s.queue
  unfold step
  cases hQueue : sort s.queue with
  | nil =>
    rw [hQueue] at hPerm
    exact .inl ⟨hPerm.nil_eq.symm, rfl⟩
  | cons k queue =>
    rw [hQueue] at hPerm
    refine .inr ⟨k, queue, hPerm.symm, ?_⟩
    by_cases hSeen : k ∈ s.seen
    · exact .inl ⟨hSeen, if_pos hSeen⟩
    · dsimp only
      rw [if_neg hSeen]
      cases hAdmit : admits k with
      | none => exact .inr (.inl ⟨hSeen, rfl, rfl⟩)
      | some b => exact .inr (.inr ⟨hSeen, b, rfl, rfl⟩)

theorem run_succ {n : Nat} {out : List β} (h : run sort admits after n s = some out) :
    run sort admits after (n + 1) s = some out := by
  induction n generalizing s with
  | zero => cases h
  | succ n ih =>
    rw [run] at h ⊢
    cases hStep : step sort admits after s with
    | none => rw [hStep] at h; exact h
    | some t => rw [hStep] at h; exact ih h

theorem run_mono {n m : Nat} {out : List β} (hLe : n ≤ m) (h : run sort admits after n s = some out) :
    run sort admits after m s = some out := by
  induction hLe with
  | refl => exact h
  | step _ ih => exact run_succ ih

def unseen (all seen : List κ) : Nat := all.countP (· ∉ seen)

theorem unseen_cons_le (all seen : List κ) (k : κ) : unseen all (k :: seen) ≤ unseen all seen := by
  apply List.countP_mono_left
  intro j _ hj
  exact decide_eq_true fun hSeen => of_decide_eq_true hj (List.mem_cons_of_mem k hSeen)

theorem unseen_cons_lt {all seen : List κ} {k : κ} (hMem : k ∈ all) (hSeen : k ∉ seen) :
    unseen all (k :: seen) < unseen all seen := by
  induction all with
  | nil => cases hMem
  | cons j all ih =>
    have hLe := unseen_cons_le all seen k
    simp only [unseen, List.countP_cons, List.mem_cons, not_or, decide_eq_true_eq] at ih hLe ⊢
    by_cases hj : j = k
    · subst hj
      simp only [not_true, false_and, if_false, if_pos hSeen]
      omega
    · have hLess := ih ((List.mem_cons.mp hMem).resolve_left (Ne.symm hj))
      simp only [hj, not_false_eq_true, true_and]
      omega

theorem exists_run (hSort : ∀ l, (sort l).Perm l) {all : List κ}
    (hAll : ∀ k b, admits k = some b → k ∈ all) (s : State κ β) :
    ∃ n out, run sort admits after n s = some out := by
  rcases step_cases admits after s hSort with
    ⟨-, hStep⟩ | ⟨k, queue, hPerm, ⟨hSeen, hStep⟩ | ⟨hSeen, hAdmit, hStep⟩ | ⟨hSeen, b, hAdmit, hStep⟩⟩
  · exact ⟨1, s.out, by rw [run, hStep]⟩
  · obtain ⟨n, out, hRun⟩ := exists_run hSort hAll { s with queue }
    exact ⟨n + 1, out, by rw [run, hStep]; exact hRun⟩
  · obtain ⟨n, out, hRun⟩ := exists_run hSort hAll { s with seen := k :: s.seen, queue }
    exact ⟨n + 1, out, by rw [run, hStep]; exact hRun⟩
  · obtain ⟨n, out, hRun⟩ := exists_run hSort hAll
      { seen := k :: s.seen, queue := queue ++ (after b).filter (· ∉ k :: s.seen), out := s.out ++ [b] }
    exact ⟨n + 1, out, by rw [run, hStep]; exact hRun⟩
termination_by (unseen all s.seen, s.queue.length)
decreasing_by
  · have hLength := hPerm.length_eq
    rw [List.length_cons] at hLength
    exact Prod.Lex.right _ (by omega)
  · have hLength := hPerm.length_eq
    rw [List.length_cons] at hLength
    rcases Nat.lt_or_eq_of_le (unseen_cons_le all s.seen k) with hLess | hSame
    · exact Prod.Lex.left _ _ hLess
    · rw [Prod.lex_def]
      exact .inr ⟨hSame, by dsimp only; omega⟩
  · exact Prod.Lex.left _ _ (unseen_cons_lt (hAll k b hAdmit) hSeen)

end End

section Result

def Settled (admits : κ → Option β) (seen₀ : List κ) (out : List β) (k : κ) : Prop :=
  k ∈ seen₀ ∨ ∀ b, admits k = some b → b ∈ out

def Named (after : β → List κ) (roots : List κ) (out : List β) (k : κ) : Prop :=
  k ∈ roots ∨ ∃ b ∈ out, k ∈ after b

def Reached (admits : κ → Option β) (after : β → List κ) (roots : List κ) (b : β) : Prop :=
  ∃ k ∈ roots, ∃ c, admits k = some c ∧ Relation.ReflTransGen (Follows admits after) c b

variable (admits after) (key : β → κ) (seen₀ roots : List κ)

structure Working (s : State κ β) : Prop where
  begun : seen₀ ⊆ s.seen
  settled : ∀ k ∈ s.seen, Settled admits seen₀ s.out k
  covered : ∀ k, Named after roots s.out k → k ∈ s.seen ∨ k ∈ s.queue
  waiting : ∀ k ∈ s.queue, Named after roots s.out k
  admitted : ∀ b ∈ s.out, admits (key b) = some b ∧ key b ∉ seen₀
  marked : ∀ b ∈ s.out, key b ∈ s.seen
  reached : ∀ b ∈ s.out, Reached admits after roots b
  nodup : (s.out.map key).Nodup

structure Result (out : List β) : Prop where
  closed : ∀ k, Named after roots out k → Settled admits seen₀ out k
  admitted : ∀ b ∈ out, admits (key b) = some b ∧ key b ∉ seen₀
  reached : ∀ b ∈ out, Reached admits after roots b
  nodup : (out.map key).Nodup

variable {admits after key seen₀ roots}

theorem Settled.append {out : List β} {k : κ} (h : Settled admits seen₀ out k) (b : β) :
    Settled admits seen₀ (out ++ [b]) k :=
  h.imp_right fun hAll c hc => List.mem_append_left _ (hAll c hc)

theorem named_append {out : List β} {b : β} {k : κ} :
    Named after roots (out ++ [b]) k ↔ Named after roots out k ∨ k ∈ after b := by
  simp only [Named, List.mem_append, List.mem_singleton]
  constructor
  · rintro (hRoot | ⟨c, hc | rfl, hk⟩)
    · exact .inl (.inl hRoot)
    · exact .inl (.inr ⟨c, hc, hk⟩)
    · exact .inr hk
  · rintro ((hRoot | ⟨c, hc, hk⟩) | hk)
    · exact .inl hRoot
    · exact .inr ⟨c, .inl hc, hk⟩
    · exact .inr ⟨b, .inr rfl, hk⟩

theorem Working.begin (seen₀ roots : List κ) : Working admits after key seen₀ roots ⟨seen₀, roots, []⟩ where
  begun := List.Subset.refl _
  settled _ hk := .inl hk
  covered k hk := by
    obtain hRoot | ⟨b, hb, -⟩ := hk
    · exact .inr hRoot
    · cases hb
  waiting _ hk := .inl hk
  admitted _ hb := by cases hb
  marked _ hb := by cases hb
  reached _ hb := by cases hb
  nodup := List.nodup_nil

variable {k : κ} {queue : List κ}

theorem Working.covered_cons (h : Working admits after key seen₀ roots s)
    (hPerm : s.queue.Perm (k :: queue)) {j : κ} (hj : Named after roots s.out j) :
    j ∈ k :: s.seen ∨ j ∈ queue := by
  obtain hSeen | hQueue := h.covered j hj
  · exact .inl (List.mem_cons_of_mem k hSeen)
  · obtain rfl | hRest := List.mem_cons.mp (hPerm.mem_iff.mp hQueue)
    · exact .inl List.mem_cons_self
    · exact .inr hRest

theorem Working.named (h : Working admits after key seen₀ roots s) (hPerm : s.queue.Perm (k :: queue)) :
    Named after roots s.out k ∧ ∀ j ∈ queue, Named after roots s.out j :=
  ⟨h.waiting k (hPerm.mem_iff.mpr List.mem_cons_self),
    fun j hj => h.waiting j (hPerm.mem_iff.mpr (List.mem_cons_of_mem k hj))⟩

theorem Working.pass (h : Working admits after key seen₀ roots s) (hPerm : s.queue.Perm (k :: queue))
    (hSettled : Settled admits seen₀ s.out k) :
    Working admits after key seen₀ roots { s with seen := k :: s.seen, queue } where
  begun := List.Subset.trans h.begun (List.subset_cons_self k s.seen)
  settled j hj := by
    obtain rfl | hj := List.mem_cons.mp hj
    · exact hSettled
    · exact h.settled j hj
  covered _ hj := h.covered_cons hPerm hj
  waiting := (h.named hPerm).2
  admitted := h.admitted
  marked b hb := List.mem_cons_of_mem k (h.marked b hb)
  reached := h.reached
  nodup := h.nodup

variable [DecidableEq κ]

theorem Working.take (h : Working admits after key seen₀ roots s) (hPerm : s.queue.Perm (k :: queue))
    (hKey : ∀ k b, admits k = some b → key b = k) (hSeen : k ∉ s.seen) {b : β} (hAdmit : admits k = some b) :
    Working admits after key seen₀ roots
      { seen := k :: s.seen, queue := queue ++ (after b).filter (· ∉ k :: s.seen), out := s.out ++ [b] } where
  begun := List.Subset.trans h.begun (List.subset_cons_self k s.seen)
  settled j hj := by
    obtain rfl | hj := List.mem_cons.mp hj
    · right
      intro c hc
      rw [hAdmit] at hc
      rw [← Option.some.inj hc]
      exact List.mem_append_right _ List.mem_cons_self
    · exact (h.settled j hj).append b
  covered j hj := by
    obtain hj | hj := named_append.mp hj
    · exact (h.covered_cons hPerm hj).imp_right fun hRest => List.mem_append_left _ hRest
    · by_cases hMarked : j ∈ k :: s.seen
      · exact .inl hMarked
      · exact .inr (List.mem_append_right _ (List.mem_filter.mpr ⟨hj, decide_eq_true hMarked⟩))
  waiting j hj := by
    rw [named_append]
    obtain hj | hj := List.mem_append.mp hj
    · exact .inl ((h.named hPerm).2 j hj)
    · exact .inr (List.mem_of_mem_filter hj)
  admitted c hc := by
    obtain hc | hc := List.mem_append.mp hc
    · exact h.admitted c hc
    · obtain rfl := List.mem_singleton.mp hc
      rw [hKey k c hAdmit]
      exact ⟨hAdmit, fun hBegun => hSeen (h.begun hBegun)⟩
  marked c hc := by
    obtain hc | hc := List.mem_append.mp hc
    · exact List.mem_cons_of_mem k (h.marked c hc)
    · obtain rfl := List.mem_singleton.mp hc
      rw [hKey k c hAdmit]
      exact List.mem_cons_self
  reached c hc := by
    obtain hc | hc := List.mem_append.mp hc
    · exact h.reached c hc
    · obtain rfl := List.mem_singleton.mp hc
      obtain hRoot | ⟨d, hd, hAfter⟩ := (h.named hPerm).1
      · exact ⟨k, hRoot, c, hAdmit, .refl⟩
      · obtain ⟨root, hRoot, e, hFirst, hPath⟩ := h.reached d hd
        exact ⟨root, hRoot, e, hFirst, hPath.tail ⟨k, hAfter, hAdmit⟩⟩
  nodup := by
    rw [List.map_append, List.map_singleton, List.nodup_append]
    refine ⟨h.nodup, List.nodup_singleton _, ?_⟩
    intro j hj i hi hEq
    obtain ⟨c, hc, rfl⟩ := List.mem_map.mp hj
    rw [List.mem_singleton.mp hi, hKey k b hAdmit] at hEq
    exact hSeen (hEq ▸ h.marked c hc)

theorem Working.next (hSort : ∀ l, (sort l).Perm l) (hKey : ∀ k b, admits k = some b → key b = k)
    (h : Working admits after key seen₀ roots s) (hStep : step sort admits after s = some t) :
    Working admits after key seen₀ roots t := by
  rcases step_cases admits after s hSort with
    ⟨-, hNone⟩ | ⟨k, queue, hPerm, ⟨hSeen, hTo⟩ | ⟨hSeen, hAdmit, hTo⟩ | ⟨hSeen, b, hAdmit, hTo⟩⟩
  · rw [hNone] at hStep
    cases hStep
  · obtain rfl := Option.some.inj (hTo.symm.trans hStep)
    exact { h with
      covered := fun j hj => (h.covered_cons hPerm hj).imp_left fun hj => by
        obtain rfl | hj := List.mem_cons.mp hj
        · exact hSeen
        · exact hj
      waiting := (h.named hPerm).2 }
  · obtain rfl := Option.some.inj (hTo.symm.trans hStep)
    refine h.pass hPerm (.inr fun b hb => ?_)
    rw [hAdmit] at hb
    cases hb
  · obtain rfl := Option.some.inj (hTo.symm.trans hStep)
    exact h.take hPerm hKey hSeen hAdmit

theorem Working.result (hSort : ∀ l, (sort l).Perm l) (h : Working admits after key seen₀ roots s)
    (hEnd : step sort admits after s = none) : Result admits after key seen₀ roots s.out where
  closed k hk := by
    obtain ⟨hQueue, -⟩ | ⟨j, queue, -, hTo⟩ := step_cases admits after s hSort
    · obtain hSeen | hWaits := h.covered k hk
      · exact h.settled k hSeen
      · rw [hQueue] at hWaits
        cases hWaits
    · rcases hTo with ⟨-, hTo⟩ | ⟨-, -, hTo⟩ | ⟨-, _, -, hTo⟩ <;>
        exact absurd (hEnd.symm.trans hTo) (Option.some_ne_none _).symm
  admitted := h.admitted
  reached := h.reached
  nodup := h.nodup

theorem run_result (hSort : ∀ l, (sort l).Perm l) (hKey : ∀ k b, admits k = some b → key b = k)
    {n : Nat} {out : List β} (h : run sort admits after n ⟨seen₀, roots, []⟩ = some out) :
    Result admits after key seen₀ roots out := by
  have hRun (n : Nat) (s : State κ β) (hs : Working admits after key seen₀ roots s)
      (h : run sort admits after n s = some out) : Result admits after key seen₀ roots out := by
    induction n generalizing s with
    | zero => cases h
    | succ n ih =>
      rw [run] at h
      cases hStep : step sort admits after s with
      | none =>
        rw [hStep] at h
        rw [← Option.some.inj h]
        exact hs.result hSort hStep
      | some t =>
        rw [hStep] at h
        exact ih t (hs.next hSort hKey hStep) h
  exact hRun n _ (.begin seen₀ roots) h

end Result

end Worklist

namespace FiniteDependencies

variable {α : Type*} {edge : α → α → Prop} {l : List α}

def Acyclic (edge : α → α → Prop) : Prop := ∀ a, ¬ Relation.TransGen edge a a

theorem acyclic_of_rank (rank : α → Nat) (h : ∀ a b, edge a b → rank b < rank a) : Acyclic edge := by
  have hLess {a b : α} (hPath : Relation.TransGen edge a b) : rank b < rank a := by
    induction hPath with
    | single hEdge => exact h _ _ hEdge
    | tail _ hEdge ih => exact (h _ _ hEdge).trans ih
  exact fun a hCycle => Nat.lt_irrefl _ (hLess hCycle)

theorem Acyclic.mono {edge' : α → α → Prop} (h : Acyclic edge) (hSub : ∀ a b, edge' a b → edge a b) :
    Acyclic edge' :=
  fun a hCycle => h a (Relation.TransGen.mono hSub a a hCycle)

theorem wellFounded (hFinite : ∀ a b, edge a b → b ∈ l) (hAcyclic : Acyclic edge) :
    WellFounded fun b a => edge a b := by
  let below (b a : {a // a ∈ l}) : Prop := Relation.TransGen edge a.val b.val
  have hFin : Finite {a // a ∈ l} := (List.finite_toSet l).to_subtype
  have hTrans : IsTrans _ below := ⟨fun _ _ _ hba hcb => hcb.trans hba⟩
  have hIrrefl : Std.Irrefl below := ⟨fun a => hAcyclic a.val⟩
  have hBelow : WellFounded below := Finite.wellFounded_of_trans_of_irrefl below
  have hListed (a : {a // a ∈ l}) : Acc (fun b a => edge a b) a.val := by
    induction a using hBelow.induction with
    | _ a ih => exact ⟨a.val, fun b hEdge => ih ⟨b, hFinite a.val b hEdge⟩ (.single hEdge)⟩
  exact ⟨fun a => ⟨a, fun b hEdge => hListed ⟨b, hFinite a b hEdge⟩⟩⟩

/-- What waits for a blocked vertex, directly or through others. -/
inductive Waits (blocked : α → Prop) (edge : α → α → Prop) : α → Prop
  | here {a : α} : blocked a → Waits blocked edge a
  | through {a b : α} : edge a b → Waits blocked edge b → Waits blocked edge a

/-- From a vertex that waits for nothing that is blocked the edges lead to one without edges. -/
theorem exists_last {blocked P : α → Prop} (hFinite : ∀ a b, edge a b → b ∈ l)
    (hAcyclic : Acyclic edge) (hEdge : ∀ a b, edge a b → P b) {a : α} (ha : P a)
    (hFree : ¬ Waits blocked edge a) : ∃ b, P b ∧ ¬ blocked b ∧ ∀ c, ¬ edge b c := by
  induction a using (wellFounded hFinite hAcyclic).induction with
  | _ a ih =>
    by_cases hNext : ∃ b, edge a b
    · obtain ⟨b, hb⟩ := hNext
      exact ih b hb (hEdge a b hb) fun hWaits => hFree (.through hb hWaits)
    · exact ⟨a, ha, fun hBlocked => hFree (.here hBlocked), fun c hc => hNext ⟨c, hc⟩⟩

end FiniteDependencies
