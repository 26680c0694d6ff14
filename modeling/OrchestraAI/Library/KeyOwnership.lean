import Mathlib.Data.List.Nodup
import Mathlib.Data.List.Count
import OrchestraAI.Library.OrderedMap

/-! # Keys owned by their issuer

Items with an optional key are issued by owners, each of which keeps a table of
the keys it has in use, and travel between a shared pool and the owners until
they end. When a keyed item is only ever carried by the owner that issued it,
the tables are exact: no two open items share a key, and a key whose item has
ended is free.
-/

namespace KeyOwnership

universe u v

variable {ι : Type u} {κ : Type v} [DecidableEq ι] [DecidableEq κ]

abbrev Tag (ι : Type u) (κ : Type v) := ι × Option κ

/-- `papers` mention items without holding them. -/
structure View (ι : Type u) (κ : Type v) where
  pool : List (Tag ι κ)
  carried : List (Nat × Tag ι κ)
  papers : List (Tag ι κ)
  issued : List (Nat × Tag ι κ)
  table : Nat → OrderedMap κ ι
  ended : ι → Prop

def View.held (v : View ι κ) (tag : Tag ι κ) : Nat :=
  v.pool.count tag + (v.carried.map Prod.snd).count tag

def View.Mentions (v : View ι κ) (tag : Tag ι κ) : Prop :=
  tag ∈ v.pool ∨ tag ∈ v.carried.map Prod.snd ∨ tag ∈ v.papers

inductive Step : View ι κ → View ι κ → Prop
  | quiet {v w : View ι κ} : w.pool.Perm v.pool → w.carried.Perm v.carried →
      (∀ tag ∈ w.papers, v.Mentions tag) →
      (w.issued, w.table, w.ended) = (v.issued, v.table, v.ended) → Step v w
  | issue {v w : View ι κ} (i : Nat) (tag : Tag ι κ) : tag.1 ∉ v.issued.map (fun e => e.2.1) →
      (∀ k, tag.2 = some k → (v.table i).get k = none ∧
        ∀ e ∈ v.issued, e.2.2 = some k → ¬ v.ended e.2.1 → e.1 = i) →
      (∀ tag ∈ w.papers, v.Mentions tag) → (w.pool, w.ended) = (v.pool, v.ended) →
      w.carried.Perm ((i, tag) :: v.carried) → w.issued = v.issued ++ [(i, tag)] →
      (∀ j k, (w.table j).get k =
        if j = i ∧ tag.2 = some k then some tag.1 else (v.table j).get k) → Step v w
  | put {v w : View ι κ} (i : Nat) (tag : Tag ι κ) : w.pool.Perm (tag :: v.pool) →
      v.carried.Perm ((i, tag) :: w.carried) → (∀ tag ∈ w.papers, v.Mentions tag) →
      (w.issued, w.table, w.ended) = (v.issued, v.table, v.ended) → Step v w
  | take {v w : View ι κ} (i : Nat) (tag : Tag ι κ) : v.pool.Perm (tag :: w.pool) →
      w.carried.Perm ((i, tag) :: v.carried) → (∀ tag ∈ w.papers, v.Mentions tag) →
      (tag.2 ≠ none → (i, tag) ∈ v.issued) →
      (w.issued, w.table, w.ended) = (v.issued, v.table, v.ended) → Step v w
  | copy {v w : View ι κ} (i : Nat) (tag : Tag ι κ) : tag.2 = none → v.Mentions tag →
      w.pool = v.pool → w.carried.Perm ((i, tag) :: v.carried) →
      (∀ tag ∈ w.papers, v.Mentions tag) →
      (w.issued, w.table, w.ended) = (v.issued, v.table, v.ended) → Step v w
  | finish {v w : View ι κ} (i : Nat) (tag : Tag ι κ) : w.pool = v.pool →
      v.carried.Perm ((i, tag) :: w.carried) → (∀ tag ∈ w.papers, v.Mentions tag) →
      w.issued = v.issued → (∀ id, w.ended id ↔ id = tag.1 ∨ v.ended id) →
      (∀ j k, (w.table j).get k =
        if j = i ∧ tag.2 = some k then none else (v.table j).get k) → Step v w
  | forget {v w : View ι κ} (i : Nat) : w.pool = v.pool →
      (∀ tag, (w.carried.map Prod.snd).count tag ≤ (v.carried.map Prod.snd).count tag) →
      (∀ e ∈ w.carried, e ∈ v.carried) → (∀ tag ∈ w.papers, v.Mentions tag) →
      (w.issued, w.ended) = (v.issued, v.ended) →
      (∀ e ∈ v.issued, e.1 = i → e.2.2 = none ∨ v.ended e.2.1) →
      (∀ j, w.table j = if j = i then .empty else v.table j) → Step v w

structure Inv (v : View ι κ) : Prop where
  unique : (v.issued.map fun e => e.2.1).Nodup
  known : ∀ tag, v.Mentions tag → ∃ i, (i, tag) ∈ v.issued
  past : ∀ id, v.ended id → id ∈ v.issued.map fun e => e.2.1
  home : ∀ e ∈ v.carried, e.2.2 ≠ none → e ∈ v.issued
  once : ∀ tag, tag.2 ≠ none → v.held tag ≤ 1 ∧ (v.ended tag.1 → v.held tag = 0)
  table : ∀ i k id, (v.table i).get k = some id ↔ (i, id, some k) ∈ v.issued ∧ ¬ v.ended id
  single : ∀ i j k a b, (i, a, some k) ∈ v.issued → (j, b, some k) ∈ v.issued →
    ¬ v.ended a → ¬ v.ended b → a = b

variable {v w : View ι κ}

omit [DecidableEq ι] [DecidableEq κ] in
theorem View.Mentions.same (hPool : ∀ tag ∈ w.pool, tag ∈ v.pool)
    (hCarried : ∀ e ∈ w.carried, e ∈ v.carried) (hPapers : ∀ tag ∈ w.papers, v.Mentions tag)
    {tag : Tag ι κ} (h : w.Mentions tag) : v.Mentions tag := by
  rcases h with h | h | h
  · exact .inl (hPool _ h)
  · obtain ⟨e, he, rfl⟩ := List.mem_map.mp h
    exact .inr (.inl (List.mem_map_of_mem (hCarried e he)))
  · exact hPapers _ h

theorem Inv.issued_eq (h : Inv v) {e e' : Nat × Tag ι κ} (he : e ∈ v.issued) (he' : e' ∈ v.issued)
    (hid : e.2.1 = e'.2.1) : e = e' := List.inj_on_of_nodup_map h.unique he he' hid

theorem Inv.held_open (h : Inv v) {a : Tag ι κ} (hKey : a.2 ≠ none)
    (hHeld : 0 < v.held a) : ¬ v.ended a.1 := fun he => by
  have := (h.once a hKey).2 he
  omega

theorem held_pos_of_carried {e : Nat × Tag ι κ} (he : e ∈ v.carried) : 0 < v.held e.2 := by
  have := List.count_pos_iff.mpr (List.mem_map_of_mem (f := Prod.snd) he)
  unfold View.held
  omega

theorem held_pos_of_pool {tag : Tag ι κ} (h : tag ∈ v.pool) : 0 < v.held tag := by
  have := List.count_pos_iff.mpr h
  unfold View.held
  omega

theorem Inv.distinct (h : Inv v) {a b : Tag ι κ} {k : κ} (ha : v.Mentions a) (hb : v.Mentions b)
    (hak : a.2 = some k) (hbk : b.2 = some k) (hao : ¬ v.ended a.1) (hbo : ¬ v.ended b.1) :
    a.1 = b.1 := by
  obtain ⟨i, hi⟩ := h.known a ha
  obtain ⟨j, hj⟩ := h.known b hb
  obtain ⟨a, ak⟩ := a
  obtain ⟨b, bk⟩ := b
  cases hak
  cases hbk
  exact h.single i j k a b hi hj hao hbo

theorem Inv.of_held_le (h : Inv v) (hHeld : ∀ tag, w.held tag ≤ v.held tag)
    (hMentions : ∀ tag, w.Mentions tag → v.Mentions tag)
    (hHome : ∀ e ∈ w.carried, e.2.2 ≠ none → e ∈ v.issued)
    (hSame : (w.issued, w.table, w.ended) = (v.issued, v.table, v.ended)) : Inv w := by
  simp only [Prod.mk.injEq] at hSame
  obtain ⟨hi, ht, he⟩ := hSame
  refine ⟨?_, ?_, ?_, ?_, ?_, ?_, ?_⟩
  · rw [hi]; exact h.unique
  · rw [hi]; exact fun tag hm => h.known tag (hMentions tag hm)
  · rw [hi, he]; exact h.past
  · rw [hi]; exact hHome
  · intro tag hKey
    obtain ⟨hOnce, hGone⟩ := h.once tag hKey
    have := hHeld tag
    rw [he]
    exact ⟨by omega, fun hEnded => by have := hGone hEnded; omega⟩
  · rw [hi, ht, he]; exact h.table
  · rw [hi, he]; exact h.single

theorem Inv.quiet (h : Inv v) (hPool : w.pool.Perm v.pool) (hCarried : w.carried.Perm v.carried)
    (hPapers : ∀ tag ∈ w.papers, v.Mentions tag)
    (hSame : (w.issued, w.table, w.ended) = (v.issued, v.table, v.ended)) : Inv w := by
  refine h.of_held_le ?_ (fun tag => View.Mentions.same (fun _ => hPool.mem_iff.mp)
    (fun _ => hCarried.mem_iff.mp) hPapers) (fun e he => h.home e (hCarried.mem_iff.mp he)) hSame
  intro tag
  rw [View.held, hPool.count_eq, (hCarried.map Prod.snd).count_eq]
  exact Nat.le_refl _

theorem Inv.put (h : Inv v) {i : Nat} {tag : Tag ι κ} (hPool : w.pool.Perm (tag :: v.pool))
    (hCarried : v.carried.Perm ((i, tag) :: w.carried))
    (hPapers : ∀ tag ∈ w.papers, v.Mentions tag)
    (hSame : (w.issued, w.table, w.ended) = (v.issued, v.table, v.ended)) : Inv w := by
  have hOld : ∀ e ∈ w.carried, e ∈ v.carried := fun e he =>
    hCarried.mem_iff.mpr (List.mem_cons_of_mem _ he)
  have hTag : tag ∈ v.carried.map Prod.snd :=
    List.mem_map_of_mem (hCarried.mem_iff.mpr List.mem_cons_self)
  refine h.of_held_le ?_ ?_ (fun e he => h.home e (hOld e he)) hSame
  · intro t
    have hCount := (hCarried.map Prod.snd).count_eq t
    simp only [View.held, hPool.count_eq, List.map_cons, List.count_cons] at hCount ⊢
    omega
  · intro t ht
    rcases ht with ht | ht | ht
    · rcases List.mem_cons.mp (hPool.mem_iff.mp ht) with rfl | ht
      · exact .inr (.inl hTag)
      · exact .inl ht
    · obtain ⟨e, he, rfl⟩ := List.mem_map.mp ht
      exact .inr (.inl (List.mem_map_of_mem (hOld e he)))
    · exact hPapers t ht

theorem Inv.take (h : Inv v) {i : Nat} {tag : Tag ι κ} (hPool : v.pool.Perm (tag :: w.pool))
    (hCarried : w.carried.Perm ((i, tag) :: v.carried))
    (hPapers : ∀ tag ∈ w.papers, v.Mentions tag) (hOwner : tag.2 ≠ none → (i, tag) ∈ v.issued)
    (hSame : (w.issued, w.table, w.ended) = (v.issued, v.table, v.ended)) : Inv w := by
  refine h.of_held_le ?_ ?_ ?_ hSame
  · intro t
    have hCount := hPool.count_eq t
    simp only [View.held, (hCarried.map Prod.snd).count_eq, List.map_cons, List.count_cons]
      at hCount ⊢
    omega
  · intro t ht
    rcases ht with ht | ht | ht
    · exact .inl (hPool.mem_iff.mpr (List.mem_cons_of_mem _ ht))
    · obtain ⟨e, he, rfl⟩ := List.mem_map.mp ht
      rcases List.mem_cons.mp (hCarried.mem_iff.mp he) with rfl | he
      · exact .inl (hPool.mem_iff.mpr List.mem_cons_self)
      · exact .inr (.inl (List.mem_map_of_mem he))
    · exact hPapers t ht
  · intro e he hKey
    rcases List.mem_cons.mp (hCarried.mem_iff.mp he) with rfl | he
    · exact hOwner hKey
    · exact h.home e he hKey

theorem Inv.copy (h : Inv v) {i : Nat} {tag : Tag ι κ} (hKey : tag.2 = none)
    (hMentioned : v.Mentions tag) (hPool : w.pool = v.pool)
    (hCarried : w.carried.Perm ((i, tag) :: v.carried))
    (hPapers : ∀ tag ∈ w.papers, v.Mentions tag)
    (hSame : (w.issued, w.table, w.ended) = (v.issued, v.table, v.ended)) : Inv w := by
  simp only [Prod.mk.injEq] at hSame
  obtain ⟨hi, ht, he⟩ := hSame
  refine ⟨?_, ?_, ?_, ?_, ?_, ?_, ?_⟩
  · rw [hi]; exact h.unique
  · rw [hi]
    intro t hm
    rcases hm with hm | hm | hm
    · exact h.known t (.inl (hPool ▸ hm))
    · obtain ⟨e, hMem, rfl⟩ := List.mem_map.mp hm
      rcases List.mem_cons.mp (hCarried.mem_iff.mp hMem) with rfl | hMem
      · exact h.known _ hMentioned
      · exact h.known _ (.inr (.inl (List.mem_map_of_mem hMem)))
    · exact h.known t (hPapers t hm)
  · rw [hi, he]; exact h.past
  · rw [hi]
    intro e hMem hNe
    rcases List.mem_cons.mp (hCarried.mem_iff.mp hMem) with rfl | hMem
    · exact absurd hKey hNe
    · exact h.home e hMem hNe
  · intro t hNe
    have hDiff : tag ≠ t := by
      rintro rfl
      exact hNe hKey
    have hHeld : w.held t = v.held t := by
      rw [View.held, hPool, (hCarried.map Prod.snd).count_eq, List.map_cons,
        List.count_cons_of_ne hDiff]
      rfl
    rw [hHeld, he]
    exact h.once t hNe
  · rw [hi, ht, he]; exact h.table
  · rw [hi, he]; exact h.single

theorem Inv.issue (h : Inv v) {i : Nat} {tag : Tag ι κ}
    (hFresh : tag.1 ∉ v.issued.map fun e => e.2.1)
    (hFree : ∀ k, tag.2 = some k → (v.table i).get k = none ∧
      ∀ e ∈ v.issued, e.2.2 = some k → ¬ v.ended e.2.1 → e.1 = i)
    (hPapers : ∀ tag ∈ w.papers, v.Mentions tag)
    (hSame : (w.pool, w.ended) = (v.pool, v.ended))
    (hCarried : w.carried.Perm ((i, tag) :: v.carried)) (hIssued : w.issued = v.issued ++ [(i, tag)])
    (hTable : ∀ j k, (w.table j).get k =
      if j = i ∧ tag.2 = some k then some tag.1 else (v.table j).get k) : Inv w := by
  simp only [Prod.mk.injEq] at hSame
  obtain ⟨hp, he⟩ := hSame
  have hOpen : ¬ v.ended tag.1 := fun hEnd => hFresh (h.past _ hEnd)
  have hUnknown : ∀ t, v.Mentions t → t.1 ≠ tag.1 := by
    intro t ht heq
    obtain ⟨j, hj⟩ := h.known t ht
    exact hFresh (heq ▸ List.mem_map_of_mem (f := fun e : Nat × Tag ι κ => e.2.1) hj)
  have hMentions : ∀ t, w.Mentions t → t = tag ∨ v.Mentions t := by
    intro t ht
    rcases ht with ht | ht | ht
    · exact .inr (.inl (hp ▸ ht))
    · obtain ⟨e, hMem, rfl⟩ := List.mem_map.mp ht
      rcases List.mem_cons.mp (hCarried.mem_iff.mp hMem) with rfl | hMem
      · exact .inl rfl
      · exact .inr (.inr (.inl (List.mem_map_of_mem hMem)))
    · exact .inr (hPapers t ht)
  have hNobody : ∀ k j b, tag.2 = some k → (j, b, some k) ∈ v.issued → v.ended b := by
    intro k j b hk hb
    by_contra hbo
    obtain ⟨hNone, hOwner⟩ := hFree k hk
    have hj : j = i := hOwner _ hb rfl hbo
    have hHolder := (h.table i k b).mpr ⟨hj ▸ hb, hbo⟩
    rw [hNone] at hHolder
    cases hHolder
  have hMem : ∀ e, e ∈ w.issued ↔ e ∈ v.issued ∨ e = (i, tag) := by
    intro e
    rw [hIssued, List.mem_append, List.mem_singleton]
  refine ⟨?_, ?_, ?_, ?_, ?_, ?_, ?_⟩
  · rw [hIssued, List.map_append, List.map_singleton, ← List.concat_eq_append]
    exact h.unique.concat hFresh
  · intro t ht
    rcases hMentions t ht with rfl | ht
    · exact ⟨i, (hMem _).mpr (.inr rfl)⟩
    · obtain ⟨j, hj⟩ := h.known t ht
      exact ⟨j, (hMem _).mpr (.inl hj)⟩
  · intro id hEnd
    rw [hIssued, List.map_append]
    exact List.mem_append_left _ (h.past id (he ▸ hEnd))
  · intro e hc hKey
    rcases List.mem_cons.mp (hCarried.mem_iff.mp hc) with rfl | hc
    · exact (hMem _).mpr (.inr rfl)
    · exact (hMem _).mpr (.inl (h.home e hc hKey))
  · intro t hKey
    have hHeld : w.held t = v.held t + if tag = t then 1 else 0 := by
      rw [View.held, hp, (hCarried.map Prod.snd).count_eq, List.map_cons, List.count_cons, View.held]
      simp only [beq_iff_eq]
      omega
    rw [hHeld, he]
    by_cases heq : tag = t
    · subst heq
      have hZero : v.held tag = 0 := by
        by_contra hne
        refine hUnknown tag ?_ rfl
        by_cases hPool : tag ∈ v.pool
        · exact .inl hPool
        · refine .inr (.inl (List.count_pos_iff.mp ?_))
          have := List.count_eq_zero.mpr hPool
          unfold View.held at hne
          omega
      exact ⟨by simp [hZero], fun hEnded => absurd hEnded hOpen⟩
    · rw [if_neg heq]
      exact h.once t hKey
  · intro j k id
    rw [hTable, hMem, he]
    by_cases hNew : j = i ∧ tag.2 = some k
    · rw [if_pos hNew]
      obtain ⟨rfl, hk⟩ := hNew
      constructor
      · rintro ⟨⟩
        exact ⟨.inr (by rw [← hk]), hOpen⟩
      · rintro ⟨hOld | heq, hio⟩
        · exact absurd (hNobody k j id hk hOld) hio
        · rw [← (Prod.mk.inj heq).2]
    · rw [if_neg hNew, h.table]
      refine and_congr_left fun _ => (or_iff_left ?_).symm
      intro heq
      exact hNew ⟨congrArg Prod.fst heq, (congrArg (fun e => e.2.2) heq).symm⟩
  · intro j j' k a b ha hb hao hbo
    rw [he] at hao hbo
    rcases (hMem _).mp ha with ha | ha <;> rcases (hMem _).mp hb with hb | hb
    · exact h.single j j' k a b ha hb hao hbo
    · exact absurd (hNobody k j a (congrArg (fun e => e.2.2) hb).symm ha) hao
    · exact absurd (hNobody k j' b (congrArg (fun e => e.2.2) ha).symm hb) hbo
    · exact (congrArg (fun e => e.2.1) ha).trans (congrArg (fun e => e.2.1) hb).symm

theorem Inv.finish (h : Inv v) {i : Nat} {tag : Tag ι κ} (hPool : w.pool = v.pool)
    (hCarried : v.carried.Perm ((i, tag) :: w.carried))
    (hPapers : ∀ tag ∈ w.papers, v.Mentions tag) (hIssued : w.issued = v.issued)
    (hEnded : ∀ id, w.ended id ↔ id = tag.1 ∨ v.ended id)
    (hTable : ∀ j k, (w.table j).get k =
      if j = i ∧ tag.2 = some k then none else (v.table j).get k) : Inv w := by
  have hMem : (i, tag) ∈ v.carried := hCarried.mem_iff.mpr List.mem_cons_self
  have hOld : ∀ e ∈ w.carried, e ∈ v.carried := fun e he =>
    hCarried.mem_iff.mpr (List.mem_cons_of_mem _ he)
  have hMentioned : v.Mentions tag :=
    .inr (.inl (List.mem_map_of_mem (f := Prod.snd) hMem))
  obtain ⟨j₀, hTag⟩ := h.known tag hMentioned
  have hOpen : tag.2 ≠ none → ¬ v.ended tag.1 := fun hKey =>
    h.held_open hKey (held_pos_of_carried hMem)
  have hMentions : ∀ t, w.Mentions t → v.Mentions t := fun t =>
    View.Mentions.same (fun _ hm => hPool ▸ hm) hOld hPapers
  refine ⟨hIssued ▸ h.unique, ?_, ?_, ?_, ?_, ?_, ?_⟩
  · rw [hIssued]; exact fun t ht => h.known t (hMentions t ht)
  · rw [hIssued]
    intro id hEnd
    rcases (hEnded id).mp hEnd with rfl | hEnd
    · exact List.mem_map_of_mem (f := fun e : Nat × Tag ι κ => e.2.1) hTag
    · exact h.past id hEnd
  · rw [hIssued]; exact fun e he => h.home e (hOld e he)
  · intro t hKey
    have hHeld : v.held t = w.held t + if tag = t then 1 else 0 := by
      rw [View.held, (hCarried.map Prod.snd).count_eq, List.map_cons, List.count_cons, View.held,
        hPool]
      simp only [beq_iff_eq]
      omega
    obtain ⟨hOnce, hGone⟩ := h.once t hKey
    refine ⟨by omega, fun hEnd => ?_⟩
    rcases (hEnded t.1).mp hEnd with hid | hEnd
    · by_cases heq : tag = t
      · rw [if_pos heq] at hHeld
        omega
      · by_contra hne
        have hm : v.Mentions t := by
          by_cases hp : t ∈ v.pool
          · exact .inl hp
          · refine .inr (.inl (List.count_pos_iff.mp ?_))
            have := List.count_eq_zero.mpr hp
            unfold View.held at hHeld hne
            omega
        obtain ⟨j, hj⟩ := h.known t hm
        exact heq (congrArg Prod.snd (h.issued_eq hTag hj hid.symm))
    · have := hGone hEnd
      omega
  · intro j k id
    rw [hTable, hIssued, hEnded]
    by_cases hCase : j = i ∧ tag.2 = some k
    · rw [if_pos hCase]
      obtain ⟨rfl, hk⟩ := hCase
      have hKey : tag.2 ≠ none := by rw [hk]; exact Option.some_ne_none k
      have hHome := h.home _ hMem hKey
      have hHolder := (h.table j k tag.1).mpr ⟨hk ▸ hHome, hOpen hKey⟩
      refine .intro (fun hn => by cases hn) fun ⟨hi, hno⟩ => ?_
      have hid := (h.table j k id).mpr ⟨hi, fun he => hno (.inr he)⟩
      exact absurd (Option.some.inj (hid.symm.trans hHolder)) fun heq => hno (.inl heq)
    · rw [if_neg hCase, h.table]
      refine and_congr_right fun hi => (not_congr (or_iff_right ?_)).symm
      rintro rfl
      have heq := h.issued_eq hi hTag rfl
      have hk : tag.2 = some k := (congrArg (fun e => e.2.2) heq).symm
      have hHome := h.home _ hMem (by rw [hk]; exact Option.some_ne_none k)
      exact hCase ⟨congrArg Prod.fst (heq.trans (h.issued_eq hTag hHome rfl)), hk⟩
  · rw [hIssued]
    intro j j' k a b ha hb hao hbo
    exact h.single j j' k a b ha hb (fun he => hao ((hEnded a).mpr (.inr he)))
      fun he => hbo ((hEnded b).mpr (.inr he))

theorem Inv.forget (h : Inv v) {i : Nat} (hPool : w.pool = v.pool)
    (hCount : ∀ tag, (w.carried.map Prod.snd).count tag ≤ (v.carried.map Prod.snd).count tag)
    (hCarried : ∀ e ∈ w.carried, e ∈ v.carried) (hPapers : ∀ tag ∈ w.papers, v.Mentions tag)
    (hSame : (w.issued, w.ended) = (v.issued, v.ended))
    (hNone : ∀ e ∈ v.issued, e.1 = i → e.2.2 = none ∨ v.ended e.2.1)
    (hTable : ∀ j, w.table j = if j = i then .empty else v.table j) : Inv w := by
  simp only [Prod.mk.injEq] at hSame
  obtain ⟨hi, he⟩ := hSame
  refine ⟨hi ▸ h.unique, ?_, ?_, ?_, ?_, ?_, ?_⟩
  · rw [hi]
    exact fun t ht => h.known t (View.Mentions.same (fun _ hm => hPool ▸ hm) hCarried hPapers ht)
  · rw [hi, he]; exact h.past
  · rw [hi]; exact fun e hm => h.home e (hCarried e hm)
  · intro t hKey
    obtain ⟨hOnce, hGone⟩ := h.once t hKey
    have hLe : w.held t ≤ v.held t := by
      have := hCount t
      rw [View.held, View.held, hPool]
      omega
    rw [he]
    exact ⟨by omega, fun hEnd => by have := hGone hEnd; omega⟩
  · intro j k id
    rw [hTable, hi, he]
    by_cases hj : j = i
    · rw [if_pos hj]
      refine .intro (fun hn => by cases hn) fun ⟨hIssued, hOpen⟩ => ?_
      rcases hNone _ hIssued hj with hKey | hEnd
      · cases hKey
      · exact absurd hEnd hOpen
    · rw [if_neg hj]
      exact h.table j k id
  · rw [hi, he]; exact h.single

theorem Inv.step (h : Inv v) (hs : Step v w) : Inv w := by
  cases hs with
  | quiet hp hc hpa hs => exact h.quiet hp hc hpa hs
  | issue i tag hf hfr hpa hs hc hi ht => exact h.issue hf hfr hpa hs hc hi ht
  | put i tag hp hc hpa hs => exact h.put hp hc hpa hs
  | take i tag hp hc hpa ho hs => exact h.take hp hc hpa ho hs
  | copy i tag hk hm hp hc hpa hs => exact h.copy hk hm hp hc hpa hs
  | finish i tag hp hc hpa hi he ht => exact h.finish hp hc hpa hi he ht
  | forget i hp hcnt hc hpa hs hn ht => exact h.forget hp hcnt hc hpa hs hn ht

end KeyOwnership
