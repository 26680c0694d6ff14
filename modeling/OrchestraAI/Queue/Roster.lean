import Mathlib.Algebra.Order.Group.Multiset
import Mathlib.Data.Multiset.Filter
import Mathlib.Data.Multiset.UnionInter
import Mathlib.Logic.Function.Basic
import Mathlib.Tactic.Abel

/-! # Rosters

What a hand-over between two job queues has to know of a queue: which jobs it has not
finished and with which keys, which it has, who holds a key, and whose claim waiter is
registered or has been settled.
-/

namespace OrchestraAI.Queue.Rosters

abbrev Entry := Nat × Option String

structure Desk where
  keys : String → Option Nat
  claims : Nat → Bool
  settled : Nat → Bool

namespace Desk

variable (d : Desk)

def hold (key : Option String) (id : Nat) : Desk :=
  match key with
  | none => d
  | some k => { d with keys := Function.update d.keys k (some id) }

def release (key : Option String) : Desk :=
  match key with
  | none => d
  | some k => { d with keys := Function.update d.keys k none }

def settle (id : Nat) : Desk :=
  { d with
    claims := Function.update d.claims id false
    settled := fun j => d.settled j || (j = id && d.claims j) }

def register (id : Nat) : Desk := { d with claims := Function.update d.claims id true }

def forget (id : Nat) : Desk := { d with claims := Function.update d.claims id false }

@[simp] theorem settle_keys (id : Nat) : (d.settle id).keys = d.keys := rfl

@[simp] theorem register_keys (id : Nat) : (d.register id).keys = d.keys := rfl

@[simp] theorem forget_keys (id : Nat) : (d.forget id).keys = d.keys := rfl

@[simp] theorem hold_claims (key : Option String) (id : Nat) : (d.hold key id).claims = d.claims := by
  cases key <;> rfl

@[simp] theorem hold_settled (key : Option String) (id : Nat) :
    (d.hold key id).settled = d.settled := by
  cases key <;> rfl

@[simp] theorem release_claims (key : Option String) : (d.release key).claims = d.claims := by
  cases key <;> rfl

@[simp] theorem release_settled (key : Option String) : (d.release key).settled = d.settled := by
  cases key <;> rfl

theorem hold_keys_of_ne {key : Option String} {k : String} (id : Nat) (h : key ≠ some k) :
    (d.hold key id).keys k = d.keys k := by
  cases key with
  | none => rfl
  | some j => exact Function.update_of_ne (fun hEq : k = j => h (congrArg some hEq.symm)) _ _

theorem hold_keys_self (k : String) (id : Nat) : (d.hold (some k) id).keys k = some id :=
  Function.update_self _ _ _

theorem release_keys_of_ne {key : Option String} {k : String} (h : key ≠ some k) :
    (d.release key).keys k = d.keys k := by
  cases key with
  | none => rfl
  | some j => exact Function.update_of_ne (fun hEq : k = j => h (congrArg some hEq.symm)) _ _

end Desk

section Keys

variable {e : Entry} {m : Multiset Entry}

theorem key_ne_of_nodup (h : ((e ::ₘ m).filterMap Prod.snd).Nodup) :
    ∀ f ∈ m, ∀ k, e.2 = some k → f.2 ≠ some k := by
  rintro f hf k hE hF
  rw [Multiset.filterMap_cons_some Prod.snd e m hE] at h
  exact (Multiset.nodup_cons.mp h).1 ((Multiset.mem_filterMap _ _).mpr ⟨f, hf, hF⟩)

theorem keys_cons (h : (m.filterMap Prod.snd).Nodup)
    (hE : ∀ f ∈ m, ∀ k, e.2 = some k → f.2 ≠ some k) :
    ((e ::ₘ m).filterMap Prod.snd).Nodup := by
  cases hKey : e.2 with
  | none => rwa [Multiset.filterMap_cons_none e m hKey]
  | some k =>
    rw [Multiset.filterMap_cons_some Prod.snd e m hKey, Multiset.nodup_cons]
    refine ⟨fun hMem => ?_, h⟩
    obtain ⟨f, hf, hF⟩ := (Multiset.mem_filterMap _ _).mp hMem
    exact hE f hf k hKey hF

end Keys

structure Roster where
  accepted : Multiset Nat
  unfinished : Multiset Entry
  ended : Multiset Nat
  desk : Desk

namespace Roster

def ids (r : Roster) : Multiset Nat := r.unfinished.map Prod.fst

variable (r : Roster)

def accept (e : Entry) : Roster :=
  ⟨e.1 ::ₘ r.accepted, e ::ₘ r.unfinished, r.ended, r.desk.hold e.2 e.1⟩

/-- The job leaves the unfinished ones, of which `rest` remain. -/
def finish (e : Entry) (rest : Multiset Entry) : Roster :=
  ⟨r.accepted, rest, e.1 ::ₘ r.ended, (r.desk.release e.2).settle e.1⟩

def settle (id : Nat) : Roster := { r with desk := r.desk.settle id }

def register (id : Nat) : Roster := { r with desk := r.desk.register id }

def forget (id : Nat) : Roster := { r with desk := r.desk.forget id }

def plus (m : Multiset Entry) : Roster := { r with unfinished := m + r.unfinished }

inductive Change : Roster → Prop
  | idle : Change r
  | finish (e : Entry) (rest : Multiset Entry) (hSome : r.unfinished = e ::ₘ rest) :
      Change (r.finish e rest)
  | settle (id : Nat) : Change (r.settle id)
  | register (id : Nat) : Change (r.register id)

def Tracks : Prop := ∀ e ∈ r.unfinished, ∀ k, e.2 = some k → r.desk.keys k = some e.1

/-- The claim of the job is settled, or its waiter is registered where the job is. -/
def Serves (id : Nat) : Prop :=
  r.desk.settled id = true ∨ r.desk.claims id = true ∧ id ∈ r.ids

variable {r} {e : Entry} {rest : Multiset Entry} {id j : Nat}

theorem Tracks.accept (h : r.Tracks)
    (hOther : ∀ f ∈ r.unfinished, ∀ k, e.2 = some k → f.2 ≠ some k) : (r.accept e).Tracks := by
  rintro f hf k hk
  rcases Multiset.mem_cons.mp hf with rfl | hf
  · show (r.desk.hold f.2 f.1).keys k = some f.1
    rw [hk]
    exact r.desk.hold_keys_self k f.1
  · have hKey : e.2 ≠ some k := fun hE => hOther f hf k hE hk
    exact (r.desk.hold_keys_of_ne e.1 hKey).trans (h f hf k hk)

theorem Tracks.finish (h : r.Tracks) (hSome : r.unfinished = e ::ₘ rest)
    (hOther : ∀ f ∈ rest, ∀ k, e.2 = some k → f.2 ≠ some k) :
    (r.finish e rest).Tracks := by
  rintro f hf k hk
  have hKey : e.2 ≠ some k := fun hE => hOther f hf k hE hk
  rw [Roster.finish, Desk.settle_keys, r.desk.release_keys_of_ne hKey]
  exact h f (hSome ▸ Multiset.mem_cons_of_mem hf) k hk

theorem Tracks.unheld (h : r.Tracks) (hFree : ∀ k, e.2 = some k → r.desk.keys k = none) :
    ∀ f ∈ r.unfinished, ∀ k, e.2 = some k → f.2 ≠ some k := by
  rintro f hf k hE hF
  have hHeld := h f hf k hF
  rw [hFree k hE] at hHeld
  cases hHeld

theorem Serves.accept (h : r.Serves id) (e : Entry) : (r.accept e).Serves id := by
  rcases h with hSettled | ⟨hClaim, hMem⟩
  · exact .inl (by rwa [Roster.accept, Desk.hold_settled])
  · refine .inr ⟨by rwa [Roster.accept, Desk.hold_claims], ?_⟩
    rw [ids, Roster.accept, Multiset.map_cons]
    exact Multiset.mem_cons_of_mem hMem

theorem Serves.settle (h : r.Serves id) (j : Nat) : (r.settle j).Serves id := by
  rcases h with hSettled | ⟨hClaim, hMem⟩
  · left
    simp [Roster.settle, Desk.settle, hSettled]
  · by_cases hj : id = j
    · left
      simp [Roster.settle, Desk.settle, hj, hj ▸ hClaim]
    · refine .inr ⟨?_, hMem⟩
      simpa [Roster.settle, Desk.settle, Function.update_of_ne hj] using hClaim

theorem Serves.finish (h : r.Serves id) (hSome : r.unfinished = e ::ₘ rest) :
    (r.finish e rest).Serves id := by
  rcases h with hSettled | ⟨hClaim, hMem⟩
  · left
    simp [Roster.finish, Desk.settle, hSettled]
  · by_cases hId : id = e.1
    · left
      simp [Roster.finish, Desk.settle, hId, hId ▸ hClaim]
    · refine .inr ⟨?_, ?_⟩
      · simpa [Roster.finish, Desk.settle, Function.update_of_ne hId] using hClaim
      · rw [ids, hSome, Multiset.map_cons] at hMem
        exact (Multiset.mem_cons.mp hMem).resolve_left hId

theorem Serves.register (h : r.Serves id) (j : Nat) : (r.register j).Serves id := by
  rcases h with hSettled | ⟨hClaim, hMem⟩
  · exact .inl hSettled
  · refine .inr ⟨?_, hMem⟩
    by_cases hj : id = j
    · simp [Roster.register, Desk.register, hj]
    · simpa [Roster.register, Desk.register, Function.update_of_ne hj] using hClaim

theorem serves_registered (h : id ∈ r.ids) : (r.register id).Serves id :=
  .inr ⟨Function.update_self _ _ _, h⟩

theorem Serves.forget (h : r.Serves id) (hj : id ≠ j) : (r.forget j).Serves id := by
  rcases h with hSettled | ⟨hClaim, hMem⟩
  · exact .inl hSettled
  · refine .inr ⟨?_, hMem⟩
    simpa [Roster.forget, Desk.forget, Function.update_of_ne hj] using hClaim

theorem Serves.change {r' : Roster} (h : r.Serves id) (hc : r.Change r') : r'.Serves id := by
  cases hc with
  | idle => exact h
  | finish e rest hSome => exact h.finish hSome
  | settle j => exact h.settle j
  | register j => exact h.register j

theorem Change.same {r' : Roster} (hAccepted : r'.accepted = r.accepted)
    (hUnfinished : r'.unfinished = r.unfinished) (hEnded : r'.ended = r.ended)
    (hDesk : r'.desk = r.desk) : r.Change r' := by
  have hSame : r' = r := by
    cases r'
    simp only at hAccepted hUnfinished hEnded hDesk
    rw [hAccepted, hUnfinished, hEnded, hDesk]
  exact hSame ▸ .idle

theorem Change.ends {r' : Roster} (hAccepted : r'.accepted = r.accepted)
    (hUnfinished : r.unfinished = e ::ₘ r'.unfinished) (hEnded : r'.ended = e.1 ::ₘ r.ended)
    (hDesk : r'.desk = (r.desk.release e.2).settle e.1) : r.Change r' := by
  have hSame : r' = r.finish e r'.unfinished := by
    cases r'
    simp only at hAccepted hEnded hDesk
    rw [hAccepted, hEnded, hDesk]
    rfl
  exact hSame ▸ .finish e r'.unfinished hUnfinished

theorem Change.settles {r' : Roster} (id : Nat) (hAccepted : r'.accepted = r.accepted)
    (hUnfinished : r'.unfinished = r.unfinished) (hEnded : r'.ended = r.ended)
    (hDesk : r'.desk = r.desk.settle id) :
    r.Change r' := by
  have hSame : r' = r.settle id := by
    cases r'
    simp only at hAccepted hUnfinished hEnded hDesk
    rw [hAccepted, hUnfinished, hEnded, hDesk]
    rfl
  exact hSame ▸ .settle id

theorem accept_eq {r' : Roster} (hAccepted : r'.accepted = e.1 ::ₘ r.accepted)
    (hUnfinished : r'.unfinished = e ::ₘ r.unfinished) (hEnded : r'.ended = r.ended)
    (hDesk : r'.desk = r.desk.hold e.2 e.1) : r' = r.accept e := by
  cases r'
  simp only at hAccepted hUnfinished hEnded hDesk
  rw [hAccepted, hUnfinished, hEnded, hDesk]
  rfl

theorem Change.accepted {r' : Roster} (hc : r.Change r') : r'.accepted = r.accepted := by
  cases hc <;> rfl

theorem Change.unfinished_le {r' : Roster} (hc : r.Change r') : r'.unfinished ≤ r.unfinished := by
  cases hc with
  | finish e rest hSome => exact hSome ▸ Multiset.le_cons_self rest e
  | _ => exact le_rfl

theorem Change.places {r' : Roster} (hc : r.Change r') : r'.ids + r'.ended = r.ids + r.ended := by
  cases hc with
  | finish e rest hSome =>
    simp only [ids, hSome, Roster.finish, Multiset.map_cons, Multiset.add_cons, Multiset.cons_add]
  | _ => rfl

theorem Tracks.change {r' : Roster} (h : r.Tracks)
    (hKeys : (r.unfinished.filterMap Prod.snd).Nodup) (hc : r.Change r') : r'.Tracks := by
  cases hc with
  | finish e rest hSome => exact h.finish hSome (key_ne_of_nodup (hSome ▸ hKeys))
  | _ => exact h

theorem Change.plus {r' : Roster} (hc : r.Change r') (m : Multiset Entry) :
    (r.plus m).Change (r'.plus m) := by
  cases hc with
  | idle => exact .idle
  | finish e rest hSome =>
    refine .finish e (m + rest) ?_
    rw [Roster.plus, hSome, Multiset.add_cons]
  | settle id => exact .settle id
  | register id => exact .register id

theorem accept_plus (e : Entry) (m : Multiset Entry) :
    (r.accept e).plus m = (r.plus m).accept e := by
  simp only [Roster.plus, accept, Multiset.add_cons]

theorem Serves.settled (h : r.Serves id) (hId : id ∉ r.ids) : r.desk.settled id = true :=
  h.resolve_right fun hClaim => hId hClaim.2

end Roster

structure Transfer where
  old : Roster
  new : Roster
  buffer : Multiset Entry
  /-- The claim waiters that have been taken out of the old queue. -/
  moved : Nat → Bool
  /-- The calls that wait for a claim. -/
  waiting : List Nat

namespace Transfer

def accepted (x : Transfer) : Multiset Nat := x.old.accepted + x.new.accepted

def unfinished (x : Transfer) : Multiset Entry := x.old.unfinished + x.buffer + x.new.unfinished

def places (x : Transfer) : Multiset Nat :=
  x.unfinished.map Prod.fst + (x.old.ended + x.new.ended)

def Heard (x : Transfer) (id : Nat) : Prop :=
  x.old.Serves id ∨ x.new.Serves id ∨ x.moved id = true ∧ id ∈ x.buffer.map Prod.fst

/-- Every accepted job has one place and no key has two unfinished jobs; the new queue holds the
keys of its jobs, and nobody waits for a claim in vain. -/
structure Kept (x : Transfer) : Prop where
  all : x.places = x.accepted
  once : x.places.Nodup
  keys : (x.unfinished.filterMap Prod.snd).Nodup
  tracks : x.new.Tracks
  claims : ∀ id ∈ x.waiting, x.Heard id

variable {x : Transfer} {r : Roster} {e : Entry} {rest : Multiset Entry}

theorem Kept.changeOld (h : x.Kept) (hc : x.old.Change r) : Kept { x with old := r } := by
  have hPlaces : places { x with old := r } = x.places := by
    have hSame := hc.places
    simp only [places, unfinished, Roster.ids, Multiset.map_add] at hSame ⊢
    calc r.unfinished.map Prod.fst + x.buffer.map Prod.fst + x.new.unfinished.map Prod.fst +
          (r.ended + x.new.ended)
        = (r.unfinished.map Prod.fst + r.ended) + (x.buffer.map Prod.fst +
          x.new.unfinished.map Prod.fst + x.new.ended) := by abel
      _ = _ := by rw [hSame]; abel
  refine ⟨?_, ?_, ?_, h.tracks, ?_⟩
  · rw [hPlaces, h.all, accepted, accepted, hc.accepted]
  · rw [hPlaces]
    exact h.once
  · refine Multiset.nodup_of_le (Multiset.filterMap_le_filterMap _ ?_) h.keys
    exact add_le_add_left (add_le_add_left hc.unfinished_le _) _
  · intro id hId
    exact (h.claims id hId).imp (fun hServes => hServes.change hc) fun hElse => hElse

theorem Kept.changeNew (h : x.Kept) (hc : x.new.Change r) : Kept { x with new := r } := by
  have hPlaces : places { x with new := r } = x.places := by
    have hSame := hc.places
    simp only [places, unfinished, Roster.ids, Multiset.map_add] at hSame ⊢
    calc x.old.unfinished.map Prod.fst + x.buffer.map Prod.fst + r.unfinished.map Prod.fst +
          (x.old.ended + r.ended)
        = (r.unfinished.map Prod.fst + r.ended) + (x.old.unfinished.map Prod.fst +
          x.buffer.map Prod.fst + x.old.ended) := by abel
      _ = _ := by rw [hSame]; abel
  have hKeys : (x.new.unfinished.filterMap Prod.snd).Nodup :=
    Multiset.nodup_of_le (Multiset.filterMap_le_filterMap _ (Multiset.le_add_left _ _)) h.keys
  refine ⟨?_, ?_, ?_, h.tracks.change hKeys hc, ?_⟩
  · rw [hPlaces, h.all, accepted, accepted, hc.accepted]
  · rw [hPlaces]
    exact h.once
  · refine Multiset.nodup_of_le (Multiset.filterMap_le_filterMap _ ?_) h.keys
    exact add_le_add_right hc.unfinished_le _
  · intro id hId
    exact (h.claims id hId).imp_right (Or.imp_left fun hServes => hServes.change hc)

theorem Kept.acceptOld (h : x.Kept) (hFresh : e.1 ∉ x.accepted)
    (hKey : ∀ f ∈ x.unfinished, ∀ k, e.2 = some k → f.2 ≠ some k) :
    Kept { x with old := x.old.accept e } := by
  have hPlaces : places { x with old := x.old.accept e } = e.1 ::ₘ x.places := by
    simp only [places, unfinished, Roster.accept, Multiset.map_add, Multiset.map_cons,
      Multiset.cons_add]
  refine ⟨?_, ?_, ?_, h.tracks, ?_⟩
  · rw [hPlaces, h.all, accepted, accepted, Roster.accept, Multiset.cons_add]
  · rw [hPlaces, Multiset.nodup_cons, h.all]
    exact ⟨hFresh, h.all ▸ h.once⟩
  · have hCons : unfinished { x with old := x.old.accept e } = e ::ₘ x.unfinished := by
      simp only [unfinished, Roster.accept, Multiset.cons_add]
    rw [hCons]
    exact keys_cons h.keys hKey
  · intro id hId
    exact (h.claims id hId).imp (fun hServes => hServes.accept e) fun hElse => hElse

theorem Kept.acceptNew (h : x.Kept) (hFresh : e.1 ∉ x.accepted)
    (hKey : ∀ f ∈ x.unfinished, ∀ k, e.2 = some k → f.2 ≠ some k) :
    Kept { x with new := x.new.accept e } := by
  have hPlaces : places { x with new := x.new.accept e } = e.1 ::ₘ x.places := by
    simp only [places, unfinished, Roster.accept, Multiset.map_add, Multiset.map_cons,
      Multiset.add_cons, Multiset.cons_add]
  refine ⟨?_, ?_, ?_, ?_, ?_⟩
  · rw [hPlaces, h.all, accepted, accepted, Roster.accept, Multiset.add_cons]
  · rw [hPlaces, Multiset.nodup_cons, h.all]
    exact ⟨hFresh, h.all ▸ h.once⟩
  · have hCons : unfinished { x with new := x.new.accept e } = e ::ₘ x.unfinished := by
      simp only [unfinished, Roster.accept, Multiset.add_cons]
    rw [hCons]
    exact keys_cons h.keys hKey
  · exact h.tracks.accept fun f hf => hKey f (Multiset.mem_add.mpr (.inr hf))
  · intro id hId
    exact (h.claims id hId).imp_right (Or.imp_left fun hServes => hServes.accept e)

theorem Kept.wait (h : x.Kept) (id : Nat) (hId : x.Heard id) :
    Kept { x with waiting := x.waiting ++ [id] } := by
  refine ⟨h.all, h.once, h.keys, h.tracks, fun j hj => ?_⟩
  rcases List.mem_append.mp hj with hj | hj
  · exact h.claims j hj
  · exact List.mem_singleton.mp hj ▸ hId

theorem Kept.arrived (h : x.Kept) (hBuffer : x.buffer = 0) (moved : Nat → Bool) :
    Kept { x with moved := moved } := by
  refine ⟨h.all, h.once, h.keys, h.tracks, fun id hId => ?_⟩
  refine (h.claims id hId).imp_right (Or.imp_right fun hMoved => ?_)
  rw [hBuffer] at hMoved
  cases Multiset.notMem_zero _ hMoved.2

theorem Kept.leave (h : x.Kept) (id : Nat) :
    Kept { x with old := x.old.forget id, waiting := x.waiting.filter (· ≠ id) } := by
  refine ⟨h.all, h.once, h.keys, h.tracks, fun j hj => ?_⟩
  obtain ⟨hj, hNe⟩ := List.mem_filter.mp hj
  exact (h.claims j hj).imp (fun hServes => hServes.forget (of_decide_eq_true hNe)) fun hElse => hElse

/-- The upgrade takes jobs out of the old queue with their claim waiters; the keys of that queue
may go. -/
theorem Kept.take (h : x.Kept) {taken rest : Multiset Entry} (d : Desk) (moved : Nat → Bool)
    (hSplit : x.old.unfinished = taken + rest) (hEmpty : x.buffer = 0)
    (hSettled : d.settled = x.old.desk.settled)
    (hKeep : ∀ id, id ∉ taken.map Prod.fst → d.claims id = x.old.desk.claims id)
    (hMove : ∀ id ∈ taken.map Prod.fst, x.old.desk.claims id = true → moved id = true) :
    Kept ⟨⟨x.old.accepted, rest, x.old.ended, d⟩, x.new, taken, moved, x.waiting⟩ := by
  have hSame : unfinished ⟨⟨x.old.accepted, rest, x.old.ended, d⟩, x.new, taken, moved,
      x.waiting⟩ = x.unfinished := by
    rw [unfinished, unfinished, hSplit, hEmpty, add_zero, add_comm rest taken]
  have hPlaces : places ⟨⟨x.old.accepted, rest, x.old.ended, d⟩, x.new, taken, moved,
      x.waiting⟩ = x.places := by
    rw [places, hSame]
    rfl
  refine ⟨hPlaces.trans h.all, hPlaces ▸ h.once, hSame ▸ h.keys, h.tracks, ?_⟩
  intro id hId
  rcases h.claims id hId with (hDone | ⟨hClaim, hMem⟩) | hServes | ⟨-, hBuffer⟩
  · exact .inl (.inl (hSettled ▸ hDone))
  · by_cases hTaken : id ∈ taken.map Prod.fst
    · exact .inr (.inr ⟨hMove id hTaken hClaim, hTaken⟩)
    · refine .inl (.inr ⟨(hKeep id hTaken).trans hClaim, ?_⟩)
      rw [Roster.ids, hSplit, Multiset.map_add] at hMem
      exact (Multiset.mem_add.mp hMem).resolve_left hTaken
  · exact .inr (.inl hServes)
  · rw [hEmpty] at hBuffer
    cases Multiset.notMem_zero _ hBuffer

theorem Kept.give (h : x.Kept) (d : Desk) (hBuffer : x.buffer = e ::ₘ rest)
    (hKeys : d.keys = (x.new.desk.hold e.2 e.1).keys) (hSettled : d.settled = x.new.desk.settled)
    (hClaims : ∀ id, x.new.desk.claims id = true → d.claims id = true)
    (hMoved : x.moved e.1 = true → d.claims e.1 = true) :
    Kept { x with
      buffer := rest
      new := ⟨x.new.accepted, e ::ₘ x.new.unfinished, x.new.ended, d⟩ } := by
  have hSame : unfinished { x with
      buffer := rest
      new := ⟨x.new.accepted, e ::ₘ x.new.unfinished, x.new.ended, d⟩ } = x.unfinished := by
    simp only [unfinished, hBuffer, Multiset.add_cons, Multiset.cons_add]
  have hPlaces : places { x with
      buffer := rest
      new := ⟨x.new.accepted, e ::ₘ x.new.unfinished, x.new.ended, d⟩ } = x.places := by
    rw [places, hSame]
    rfl
  have hOther : ∀ f ∈ x.new.unfinished, ∀ k, e.2 = some k → f.2 ≠ some k := by
    have hAll := h.keys
    rw [unfinished, hBuffer, Multiset.add_cons, Multiset.cons_add] at hAll
    intro f hf
    exact key_ne_of_nodup hAll f (Multiset.mem_add.mpr (.inr hf))
  refine ⟨hPlaces.trans h.all, hPlaces ▸ h.once, hSame ▸ h.keys, ?_, ?_⟩
  · rintro f hf k hk
    have hHeld := h.tracks.accept hOther f hf k hk
    exact (congrFun hKeys k).trans hHeld
  · intro id hId
    have hIds : Roster.ids ⟨x.new.accepted, e ::ₘ x.new.unfinished, x.new.ended, d⟩ =
        e.1 ::ₘ x.new.ids := Multiset.map_cons _ _ _
    rcases h.claims id hId with hServes | (hDone | ⟨hClaim, hMem⟩) | ⟨hWaiter, hMem⟩
    · exact .inl hServes
    · exact .inr (.inl (.inl (hSettled ▸ hDone)))
    · exact .inr (.inl (.inr ⟨hClaims id hClaim, hIds ▸ Multiset.mem_cons_of_mem hMem⟩))
    · rw [hBuffer, Multiset.map_cons] at hMem
      rcases Multiset.mem_cons.mp hMem with rfl | hMem
      · exact .inr (.inl (.inr ⟨hMoved hWaiter, hIds ▸ Multiset.mem_cons_self _ _⟩))
      · exact .inr (.inr ⟨hWaiter, hMem⟩)

end Transfer

end OrchestraAI.Queue.Rosters
