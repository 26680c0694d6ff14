import Mathlib.Logic.Function.Basic
import OrchestraAI.Idempotency.LocalStore

/-! # The contract of the store of one process

Evicting takes a terminal record as long as there is one, so only a full store of unfinished
operations drops one of them. An ending is written over whatever is there.

The store of several processes is `RedisIdempotencyBackend` of `idempotency.js`, command by command and without expiry. A begin is
one `SET NX`; `complete` and `fail` read the record and write it back, whatever it has become.
-/

namespace OrchestraAI.Idempotency

open LabelledSystem LastEntries

variable {ρ : Type} {records : Records ρ} {s : IdempotencyStore ρ} {key k : Key}
  {r : OperationRecord ρ} {e : Key × OperationRecord ρ}

namespace IdempotencyStore

theorem older_found (entries : List (Key × OperationRecord ρ))
    {found : Option (Key × OperationRecord ρ)} (h : entries.foldl older found = some e) :
    e ∈ entries ∧ e.2.state.terminal = true ∨ found = some e := by
  induction entries generalizing found with
  | nil => exact .inr h
  | cons e' entries ih =>
    obtain ⟨hMem, hTerminal⟩ | hFound := ih h
    · exact .inl ⟨List.mem_cons_of_mem e' hMem, hTerminal⟩
    · unfold older at hFound
      split at hFound
      · rename_i hTaken
        cases hFound
        exact .inl ⟨List.mem_cons_self, (Bool.and_eq_true_iff.mp hTaken).1⟩
      · exact .inr hFound

theorem older_none (entries : List (Key × OperationRecord ρ))
    {found : Option (Key × OperationRecord ρ)} (h : entries.foldl older found = none) :
    found = none ∧ ∀ e ∈ entries, e.2.state.terminal = false := by
  induction entries generalizing found with
  | nil => exact ⟨h, nofun⟩
  | cons e' entries ih =>
    obtain ⟨hStep, hRest⟩ := ih h
    unfold older at hStep
    split at hStep
    · cases hStep
    · rename_i hLeft
      subst hStep
      have hRunning : e'.2.state.terminal = false := by simpa using hLeft
      refine ⟨rfl, fun e he => ?_⟩
      obtain rfl | he := List.mem_cons.mp he
      · exact hRunning
      · exact hRest e he

/-- What is evicted is terminal, or there is nothing terminal and it is the first record. -/
theorem victim_cases (records : Records ρ) :
    (∃ k r, victim records = some k ∧ records.get k = some r ∧ r.state.terminal = true) ∨
    (∀ k r, records.get k = some r → r.state.terminal = false) ∧ victim records = records.keys.head? := by
  unfold victim
  cases hOldest : oldestTerminal records.entries with
  | some e =>
    obtain ⟨hMem, hTerminal⟩ | hNone := older_found records.entries hOldest
    · exact .inl ⟨e.1, e.2, rfl, (records.mem_entries_iff e.1 e.2).mp hMem, hTerminal⟩
    · cases hNone
  | none =>
    obtain ⟨-, hRunning⟩ := older_none records.entries hOldest
    exact .inr ⟨fun k r hr => hRunning (k, r) ((records.mem_entries_iff k r).mpr hr), rfl⟩

theorem head?_keys (h : 0 < records.size) : ∃ k, records.keys.head? = some k := by
  have hNe : records.keys ≠ [] := by
    intro hNil
    rw [OrderedMap.size_eq_keys_length, hNil] at h
    exact absurd h (Nat.lt_irrefl 0)
  obtain ⟨k, rest, hCons⟩ := List.exists_cons_of_ne_nil hNe
  exact ⟨k, hCons ▸ rfl⟩

theorem exists_victim (h : 0 < records.size) : ∃ k r, victim records = some k ∧ records.get k = some r := by
  obtain ⟨k, r, hVictim, hGet, -⟩ | ⟨-, hVictim⟩ := victim_cases records
  · exact ⟨k, r, hVictim, hGet⟩
  · obtain ⟨k, hHead⟩ := head?_keys h
    obtain ⟨r, hGet⟩ := (records.mem_keys_iff k).mp (List.mem_of_mem_head? hHead)
    exact ⟨k, r, hVictim.trans hHead, hGet⟩

theorem size_set_new (r : OperationRecord ρ) (h : records.get key = none) :
    (records.set key r).size = records.size + 1 := by
  have hPerm := (records.entries_perm_set_new r h).length_eq
  rwa [List.length_cons] at hPerm

theorem size_set_old {r' : OperationRecord ρ} (r : OperationRecord ρ) (h : records.get key = some r') :
    (records.set key r).size = records.size := by
  rw [OrderedMap.size_eq_keys_length, OrderedMap.size_eq_keys_length,
    OrderedMap.keys_set_old r ((records.mem_keys_iff key).mpr ⟨r', h⟩)]

/-- A new record in a store that is not full evicts nothing, in a full one one record. -/
theorem evict_set_new (r : OperationRecord ρ) (hNew : records.get key = none)
    (hSized : records.size ≤ n) :
    evict ((records.set key r).size - n) (records.set key r) =
      if records.size < n then records.set key r
      else (victim (records.set key r)).elim (records.set key r) (records.set key r).delete := by
  rw [size_set_new r hNew]
  split
  · rename_i hRoom
    rw [Nat.sub_eq_zero_of_le hRoom]
    rfl
  · rename_i hFull
    rw [show records.size + 1 - n = 1 by omega]
    unfold evict
    cases victim (records.set key r) <;> rfl

def afterNew (n : Nat) (records : Records ρ) (key : Key) (r : OperationRecord ρ) : Records ρ :=
  evict ((records.set key r).size - n) (records.set key r)

def Room (n : Nat) (records : Records ρ) (r : OperationRecord ρ) : Prop :=
  n ≤ records.size → r.state.terminal = true ∨ ∃ k r', records.get k = some r' ∧ r'.state.terminal = true

section New

variable {n : Nat} (hNew : records.get key = none) (hSized : records.size ≤ n)

include hNew hSized

theorem afterNew_cases (hRoom : Room n records r) :
    afterNew n records key r = records.set key r ∨
      ∃ k r', (records.set key r).get k = some r' ∧ r'.state.terminal = true ∧
        afterNew n records key r = (records.set key r).delete k := by
  rw [afterNew, evict_set_new r hNew hSized]
  split
  · exact .inl rfl
  · rename_i hFull
    refine .inr ?_
    obtain ⟨k, r', hVictim, hGet, hTerminal⟩ | ⟨hRunning, -⟩ := victim_cases (records.set key r)
    · exact ⟨k, r', hGet, hTerminal, by rw [hVictim]; rfl⟩
    · exfalso
      obtain hTerminal | ⟨k, r', hGet, hTerminal⟩ := hRoom (not_lt.mp hFull)
      · exact Bool.noConfusion (hTerminal.symm.trans (hRunning key r (records.get_set_self key r)))
      · have hNe : k ≠ key := by
          rintro rfl
          rw [hNew] at hGet
          cases hGet
        have hGet' := (records.get_set_ne r hNe).trans hGet
        exact Bool.noConfusion (hTerminal.symm.trans (hRunning k r' hGet'))

theorem get_afterNew (hRoom : Room n records r) {r' : OperationRecord ρ}
    (hGet : (records.set key r).get k = some r') (hRunning : r'.state.terminal = false) :
    (afterNew n records key r).get k = some r' := by
  obtain hEq | ⟨v, rv, hVictim, hTerminal, hEq⟩ := afterNew_cases hNew hSized hRoom
  · rw [hEq, hGet]
  · have hNe : k ≠ v := by
      rintro rfl
      cases hGet.symm.trans hVictim
      exact Bool.noConfusion (hTerminal.symm.trans hRunning)
    rw [hEq, OrderedMap.get_delete_ne _ hNe, hGet]

theorem afterNew_same (hRoom : Room n records r) {r₁ r₂ : OperationRecord ρ}
    (hBefore : records.get k = some r₁) (hAfter : (afterNew n records key r).get k = some r₂) :
    r₂ = r₁ := by
  have hNe : k ≠ key := by
    rintro rfl
    rw [hNew] at hBefore
    cases hBefore
  have hSet : (records.set key r).get k = some r₁ := (records.get_set_ne r hNe).trans hBefore
  obtain hEq | ⟨v, rv, -, -, hEq⟩ := afterNew_cases hNew hSized hRoom
  · rw [hEq, hSet] at hAfter
    exact (Option.some.inj hAfter).symm
  · rw [hEq, OrderedMap.get_delete, hSet] at hAfter
    split at hAfter
    · cases hAfter
    · exact (Option.some.inj hAfter).symm

theorem dropped_of_not_room (hPos : 0 < n) (hNot : ¬ Room n records r) :
    ∃ k r', records.get k = some r' ∧ r'.state.terminal = false ∧
      (afterNew n records key r).get k = none := by
  simp only [Room, Classical.not_imp, not_or, not_exists, not_and, Bool.not_eq_true] at hNot
  obtain ⟨hFull, hRunning, hAll⟩ := hNot
  have hKeys : (records.set key r).keys = records.keys ++ [key] :=
    OrderedMap.keys_set_new r ((records.get_eq_none_iff key).mp hNew)
  have hSet (k : Key) (r' : OperationRecord ρ) (h : (records.set key r).get k = some r') :
      r'.state.terminal = false := by
    rw [OrderedMap.get_set] at h
    split at h
    · cases h
      exact hRunning
    · exact hAll k r' h
  obtain ⟨k, hHead⟩ := head?_keys (hPos.trans_le hFull)
  have hMem : k ∈ records.keys := List.mem_of_mem_head? hHead
  obtain ⟨r', hGet⟩ := (records.mem_keys_iff k).mp hMem
  refine ⟨k, r', hGet, hAll k r' hGet, ?_⟩
  have hVictim : victim (records.set key r) = some k := by
    obtain ⟨v, rv, -, hGetV, hTerminal⟩ | ⟨-, hVictim⟩ := victim_cases (records.set key r)
    · exact Bool.noConfusion (hTerminal.symm.trans (hSet v rv hGetV))
    · rw [hVictim, hKeys, List.head?_append, hHead]
      rfl
  rw [afterNew, evict_set_new r hNew hSized, if_neg (not_lt.mpr hFull), hVictim]
  exact OrderedMap.get_delete_self _ k

theorem size_afterNew : (afterNew n records key r).size ≤ n := by
  rw [afterNew, evict_set_new r hNew hSized]
  split
  · rename_i hRoom
    rw [size_set_new r hNew]
    exact hRoom
  · rename_i hFull
    have hSize := size_set_new r hNew
    obtain ⟨k, rv, hVictim, hGet⟩ := exists_victim (show 0 < (records.set key r).size by omega)
    have hPerm := (OrderedMap.entries_perm_delete hGet).length_eq
    rw [List.length_cons] at hPerm
    rw [hVictim, Option.elim_some]
    unfold OrderedMap.size at *
    omega

end New

theorem size_restored (max : Nat) (file : Option (List (OperationRecord ρ))) :
    (restored max file).size ≤ max := by
  have hSub : (restored max file).keys ⊆ ((file.getD []).rtake max).map OperationRecord.key := by
    intro k hk
    obtain hEmpty | hMem := OrderedMap.mem_keys_setAll.mp hk
    · cases hEmpty
    · exact hMem
  have hLength := ((restored max file).keys_nodup.subperm hSub).length_le
  rw [List.length_map] at hLength
  rw [OrderedMap.size_eq_keys_length]
  exact hLength.trans (length_rtake_le _ _)

@[simp] theorem records_persist (s : IdempotencyStore ρ) (works : Bool) :
    (s.persist works).records = s.records := by
  unfold persist
  split <;> rfl

structure Sized (s : IdempotencyStore ρ) : Prop where
  pos : 0 < s.max
  size_le : s.records.size ≤ s.max

theorem capacity_pos (max : Nat) : 0 < capacity max := by
  unfold capacity
  split <;> omega

theorem sized_new (max : Nat) (file : Option (List (OperationRecord ρ))) : (new max file).Sized :=
  ⟨capacity_pos max, size_restored _ file⟩

theorem new_sized (hNew : s.records.get key = none) (h : s.Sized) (r : OperationRecord ρ) :
    (evictIfNeeded { s with records := s.records.set key r }).Sized :=
  ⟨h.pos, size_afterNew hNew h.size_le⟩

theorem evictIfNeeded_old {r' : OperationRecord ρ} (hOld : s.records.get key = some r') (h : s.Sized)
    (r : OperationRecord ρ) :
    evictIfNeeded { s with records := s.records.set key r } =
      { s with records := s.records.set key r } := by
  rw [evictIfNeeded, size_set_old r hOld, Nat.sub_eq_zero_of_le h.size_le]
  rfl

theorem old_sized {r' : OperationRecord ρ} (hOld : s.records.get key = some r') (h : s.Sized)
    (r : OperationRecord ρ) : (evictIfNeeded { s with records := s.records.set key r }).Sized := by
  rw [evictIfNeeded_old hOld h r]
  exact ⟨h.pos, (size_set_old r hOld).trans_le h.size_le⟩

theorem Sized.persist (h : s.Sized) (works : Bool) : (s.persist works).Sized := by
  unfold IdempotencyStore.persist
  split
  · exact ⟨h.pos, h.size_le⟩
  · exact h

theorem keyed_evict (h : records.Keyed OperationRecord.key) (n : Nat) :
    (evict n records).Keyed OperationRecord.key := by
  induction n generalizing records with
  | zero => exact h
  | succ n ih =>
    rw [evict]
    split
    · exact h
    · exact ih (h.delete _)

theorem keyed_afterNew {n : Nat} (h : records.Keyed OperationRecord.key) (hr : r.key = key) :
    (afterNew n records key r).Keyed OperationRecord.key :=
  keyed_evict (h.set hr) _

theorem get_restored_persist (hSized : s.Sized) (hKeyed : s.records.Keyed OperationRecord.key) (k : Key) :
    (restored s.max (s.persist true).file).get k = s.records.get k := by
  have hAll : s.records.values.rtake s.max = s.records.values := by
    refine rtake_of_length_le ?_
    rw [OrderedMap.values, List.length_map]
    exact hSized.size_le
  have hNodup : (s.records.values.map OperationRecord.key).Nodup := by
    rw [hKeyed.values_map]
    exact s.records.keys_nodup
  change (OrderedMap.empty.setAll OperationRecord.key ((s.records.values.rtake s.max).rtake s.max)).get k = _
  rw [hAll, hAll, OrderedMap.get_setAll_of_nodup hNodup, hKeyed.find?_values, OrderedMap.get_empty, Option.or_none]

theorem begin_old (hOld : s.records.get key = some r) (info : BeginMeta) (now : Nat) (works : Bool) :
    s.begin key info now works = (s, none) := by
  rw [begin, OrderedMap.has, hOld]
  rfl

theorem begin_new (hNew : s.records.get key = none) (info : BeginMeta) (now : Nat) (works : Bool) :
    (s.begin key info now works).1.records = afterNew s.max s.records key (info.record key now) ∧
      (s.begin key info now works).2 = some (info.record key now) := by
  rw [begin, OrderedMap.has, hNew]
  exact ⟨records_persist _ works, rfl⟩

theorem finish_old (hSized : s.Sized) (hOld : s.records.get key = some r) (ending : Ending ρ)
    (now : Nat) (works : Bool) :
    (s.finish key ending now works).records = s.records.set key (ending.of r now) := by
  rw [finish, hOld, records_persist]
  exact congrArg records (evictIfNeeded_old hOld hSized (ending.of r now))

theorem finish_new (hNew : s.records.get key = none) (ending : Ending ρ) (now : Nat) (works : Bool) :
    (s.finish key ending now works).records = afterNew s.max s.records key
      (ending.of { key, state := .running, createdAt := some now, updatedAt := now } now) := by
  rw [finish, hNew, records_persist]
  rfl

end IdempotencyStore

namespace WatchedStore

open IdempotencyStore

variable {w : WatchedStore ρ}

theorem keeps_new {unfinished : List Key} {n : Nat} {move : Move ρ}
    (hNew : records.get key = none) (hSized : records.size ≤ n) (hPos : 0 < n)
    (hAlone : ∀ r, move = .begun r → r.key ∉ unfinished) :
    Idempotency.Keeps unfinished move records.get (afterNew n records key r).get ↔ Room n records r := by
  constructor
  · intro h
    by_contra hNot
    obtain ⟨k, r', hGet, hRunning, hGone⟩ := dropped_of_not_room hNew hSized hPos hNot
    obtain hSame | ⟨-, hThere⟩ := h.held k r' hGet hRunning
    · cases hGone.symm.trans hSame
    · rw [hGone] at hThere
      cases hThere
  · intro hRoom
    refine ⟨hAlone, fun k r' hGet hRunning => .inl ?_, fun k r₁ r₂ hBefore _ hAfter => ?_⟩
    · have hNe : k ≠ key := by
        rintro rfl
        cases hNew.symm.trans hGet
      exact get_afterNew hNew hSized hRoom ((records.get_set_ne r hNe).trans hGet) hRunning
    · rw [afterNew_same hNew hSized hRoom hBefore hAfter]
      exact ⟨rfl, rfl⟩

/-- An ending written over a record keeps the contract just if it repeats what is terminal. -/
theorem keeps_old {unfinished : List Key} (hOld : records.get key = some r) (ending : Ending ρ)
    (now : Nat) :
    Idempotency.Keeps unfinished (.ended key) records.get (records.set key (ending.of r now)).get ↔
      (r.state.terminal = true → ending.Repeats r) := by
  constructor
  · exact fun h hTerminal => h.settled key r _ hOld hTerminal (records.get_set_self key _)
  · intro h
    refine ⟨nofun, fun k r' hGet _ => ?_, fun k r₁ r₂ hBefore hTerminal hAfter => ?_⟩
    · by_cases hKey : k = key
      · subst hKey
        exact .inr ⟨rfl, by rw [OrderedMap.get_set_self]; rfl⟩
      · exact .inl ((records.get_set_ne _ hKey).trans hGet)
    · by_cases hKey : k = key
      · subst hKey
        cases hOld.symm.trans hBefore
        rw [OrderedMap.get_set_self] at hAfter
        cases hAfter
        exact h hTerminal
      · cases hBefore.symm.trans ((records.get_set_ne _ hKey).symm.trans hAfter)
        exact ⟨rfl, rfl⟩

theorem keeps_iff (hSized : w.store.Sized) (hTracked : Tracked w.unfinished w.store.records.get)
    (l : LocalStep ρ) : w.Keeps l ↔ w.Harmless l := by
  cases l with
  | begin key info now works =>
    change Idempotency.Keeps w.unfinished ((w.store.begin key info now works).2.elim .other .begun)
      w.store.records.get (w.store.begin key info now works).1.records.get ↔
        (w.store.records.get key = none → Room w.store.max w.store.records (info.record key now))
    cases hGet : w.store.records.get key with
    | some r =>
      rw [begin_old hGet]
      exact iff_of_true (keeps_same fun r h => by cases h) fun h => by cases h
    | none =>
      obtain ⟨hRecords, hBegun⟩ := begin_new hGet info now works
      rw [hRecords, hBegun, keeps_new hGet hSized.size_le hSized.pos]
      · exact (imp_iff_right rfl).symm
      · intro r hr
        cases hr
        exact hTracked.alone hGet
  | finish key ending now works =>
    change Idempotency.Keeps w.unfinished (.ended key) w.store.records.get
      (w.store.finish key ending now works).records.get ↔
        ∀ r, w.store.records.get key = some r → r.state.terminal = true → ending.Repeats r
    cases hGet : w.store.records.get key with
    | some r =>
      rw [finish_old hSized hGet, keeps_old hGet]
      simp
    | none =>
      rw [finish_new hGet, keeps_new hGet hSized.size_le hSized.pos]
      · refine iff_of_true (fun _ => .inl (ending.terminal_of _ now)) ?_
        intro r hNone
        cases hNone
      · intro r h
        cases h
  | persist works =>
    unfold Keeps IdempotencyStore.step
    dsimp only
    rw [records_persist]
    exact iff_of_true (keeps_same fun r h => by cases h) trivial
  | restart =>
    constructor
    · intro h k r hGet
      split
      · rename_i hTerminal
        exact fun r' hGet' => h.settled k r r' hGet hTerminal hGet'
      · rename_i hRunning
        refine (h.held k r hGet (Bool.eq_false_iff.mpr hRunning)).resolve_right ?_
        rintro ⟨hMove, -⟩
        have hOther : Move.other = .ended k := hMove
        cases hOther
    · intro h
      refine ⟨(fun r h => by cases h), fun k r hGet hRunning => .inl ?_, fun k r r' hGet hTerminal hGet' => ?_⟩
      · have hFile := h k r hGet
        rwa [if_neg (Bool.eq_false_iff.mp hRunning)] at hFile
      · have hFile := h k r hGet
        rw [if_pos hTerminal] at hFile
        exact hFile r' hGet'

theorem harmless_restart (hSized : w.store.Sized) (hKeyed : w.store.records.Keyed OperationRecord.key) :
    Harmless ⟨w.store.persist true, w.unfinished⟩ .restart := by
  intro k r hGet
  have hRestored : (restored w.store.max (w.store.persist true).file).get k = some r :=
    (get_restored_persist hSized hKeyed k).trans hGet
  split
  · intro r' hr'
    cases hRestored.symm.trans hr'
    exact ⟨rfl, rfl⟩
  · exact hRestored

structure Sound (w : WatchedStore ρ) : Prop where
  sized : w.store.Sized
  keyed : w.store.records.Keyed OperationRecord.key
  tracked : Tracked w.unfinished w.store.records.get

theorem sized_step (hSized : w.store.Sized) (l : LocalStep ρ) : (w.store.step l).1.Sized := by
  cases l with
  | begin key info now works =>
    change (w.store.begin key info now works).1.Sized
    cases hGet : w.store.records.get key with
    | some r =>
      rw [begin_old hGet]
      exact hSized
    | none =>
      rw [begin, OrderedMap.has, hGet]
      exact (new_sized hGet hSized (info.record key now)).persist works
  | finish key ending now works =>
    change (w.store.finish key ending now works).Sized
    cases hGet : w.store.records.get key with
    | some r =>
      rw [finish, hGet]
      exact (old_sized hGet hSized (ending.of r now)).persist works
    | none =>
      rw [finish, hGet]
      exact (new_sized hGet hSized _).persist works
  | persist works => exact hSized.persist works
  | restart => exact ⟨hSized.pos, size_restored _ _⟩

theorem keyed_step (hSized : w.store.Sized) (hKeyed : w.store.records.Keyed OperationRecord.key)
    (l : LocalStep ρ) : (w.store.step l).1.records.Keyed OperationRecord.key := by
  cases l with
  | begin key info now works =>
    change (w.store.begin key info now works).1.records.Keyed OperationRecord.key
    cases hGet : w.store.records.get key with
    | some r =>
      rw [begin_old hGet]
      exact hKeyed
    | none =>
      rw [(begin_new hGet info now works).1]
      exact keyed_afterNew hKeyed rfl
  | finish key ending now works =>
    change (w.store.finish key ending now works).records.Keyed OperationRecord.key
    cases hGet : w.store.records.get key with
    | some r =>
      rw [finish_old hSized hGet]
      exact hKeyed.set (hKeyed key r hGet)
    | none =>
      rw [finish_new hGet]
      exact keyed_afterNew hKeyed rfl
  | persist works =>
    change (w.store.persist works).records.Keyed OperationRecord.key
    rwa [records_persist]
  | restart => exact OrderedMap.keyed_empty.setAll

theorem sound_step (h : w.Sound) {l : LocalStep ρ} {w' : WatchedStore ρ}
    (hStep : w.step l = some w') (hKeeps : w.Keeps l) : w'.Sound := by
  cases hStep
  refine ⟨sized_step h.sized l, keyed_step h.sized h.keyed l, h.tracked.after hKeeps fun r hMove hRunning => ?_⟩
  have hHarmless := (keeps_iff h.sized h.tracked l).mp hKeeps
  cases l with
  | begin key info now works =>
    cases hGet : w.store.records.get key with
    | some r' =>
      unfold IdempotencyStore.step at hMove
      dsimp only at hMove
      rw [begin_old hGet] at hMove
      cases hMove
    | none =>
      obtain ⟨hRecords, hBegun⟩ := begin_new hGet info now works
      have hMove : Option.elim (w.store.begin key info now works).2 Move.other Move.begun = .begun r := hMove
      rw [hBegun] at hMove
      cases hMove
      change (w.store.begin key info now works).1.records.get key = _
      rw [hRecords]
      have hRoom : Room w.store.max w.store.records (info.record key now) := hHarmless hGet
      exact get_afterNew hGet h.sized.size_le hRoom (w.store.records.get_set_self key _) hRunning
  | finish key ending now works => nomatch hMove
  | persist works => nomatch hMove
  | restart => nomatch hMove

theorem sound_new (max : Nat) (file : Option (List (OperationRecord ρ))) : (new max file).Sound :=
  ⟨sized_new max file, OrderedMap.keyed_empty.setAll, nofun⟩

/-- The store of a process keeps the contract along just those runs in which no step is harmful. -/
theorem along_keeps_iff (max : Nat) (file : Option (List (OperationRecord ρ)))
    (steps : List (LocalStep ρ)) :
    Along step Keeps (new max file) steps ↔ Along step Harmless (new max file) steps := by
  refine along_congr (I := Sound) (fun w l h => ?_) (sound_new max file) steps
  exact ⟨keeps_iff h.sized h.tracked l, fun _ hStep => sound_step h hStep⟩

end WatchedStore

open LabelledSystem

variable {ρ : Type}

/-- A call of `complete` or `fail` that has read the record. -/
structure FinishingCall (ρ : Type) where
  key : Key
  ending : Ending ρ
  existing : Option (OperationRecord ρ)

def FinishingCall.record (call : FinishingCall ρ) (now : Nat) : OperationRecord ρ :=
  { call.ending.of (call.existing.getD { key := call.key, state := .running, updatedAt := now }) now with
    key := call.key }

structure RedisIdempotencyBackend (ρ : Type) where
  records : Key → Option (OperationRecord ρ)
  /-- The calls between their `get` and their `set`. -/
  calls : List (FinishingCall ρ)

inductive Command (ρ : Type)
  /-- The `set` of a begin, with `nx`. -/
  | setNx (key : Key) (info : BeginMeta) (now : Nat)
  /-- The `get` of a begin that came too late. -/
  | get (key : Key)
  /-- The `get` of `complete` and `fail`. -/
  | getExisting (key : Key) (ending : Ending ρ)
  /-- The `set` of the call at a place in the list. -/
  | set (i : Nat) (now : Nat)

namespace RedisIdempotencyBackend

def step (b : RedisIdempotencyBackend ρ) : Command ρ → Option (RedisIdempotencyBackend ρ × Move ρ)
  | .setNx key info now =>
    if (b.records key).isSome then some (b, .other)
    else
      let r := info.record key now
      some ({ b with records := Function.update b.records key (some r) }, .begun r)
  | .get _ => some (b, .other)
  | .getExisting key ending =>
    some ({ b with calls := b.calls ++ [⟨key, ending, b.records key⟩] }, .other)
  | .set i now =>
    b.calls[i]?.map fun call =>
      ({ records := Function.update b.records call.key (some (call.record now))
         calls := b.calls.eraseIdx i }, .ended call.key)

theorem step_setNx (b : RedisIdempotencyBackend ρ) (key : Key) (info : BeginMeta) (now : Nat) :
    b.step (.setNx key info now) = some (b, .other) ∨
      b.records key = none ∧ b.step (.setNx key info now) = some
        ({ b with records := Function.update b.records key (some (info.record key now)) },
          .begun (info.record key now)) := by
  cases hRecord : b.records key with
  | some r => exact .inl (if_pos (by rw [hRecord]; rfl))
  | none => exact .inr ⟨rfl, if_neg (by rw [hRecord]; nofun)⟩

end RedisIdempotencyBackend

structure WatchedBackend (ρ : Type) where
  backend : RedisIdempotencyBackend ρ
  unfinished : List Key

namespace WatchedBackend

def new (records : Key → Option (OperationRecord ρ)) : WatchedBackend ρ := ⟨⟨records, []⟩, []⟩

def step (w : WatchedBackend ρ) (l : Command ρ) : Option (WatchedBackend ρ) :=
  (w.backend.step l).map fun out => ⟨out.1, unfinishedAfter w.unfinished out.2 out.1.records⟩

def Keeps (w : WatchedBackend ρ) (l : Command ρ) : Prop :=
  ∀ out, w.backend.step l = some out →
    Idempotency.Keeps w.unfinished out.2 w.backend.records out.1.records

/-- A `set` that meets a terminal record writes the state and the result that are there. -/
def Harmless (w : WatchedBackend ρ) : Command ρ → Prop
  | .set i _ => ∀ call, w.backend.calls[i]? = some call →
    ∀ r, w.backend.records call.key = some r → r.state.terminal = true →
      call.ending.state = r.state ∧
        call.ending.resultOf (call.existing.bind OperationRecord.result) = r.result
  | _ => True

variable {w : WatchedBackend ρ}

theorem keeps_update {unfinished : List Key} {records : Key → Option (OperationRecord ρ)} {key : Key}
    {new : OperationRecord ρ} {move : Move ρ} (hAlone : ∀ r, move = .begun r → r.key ∉ unfinished)
    (hMove : ∀ r, records key = some r → move = .ended key) :
    Idempotency.Keeps unfinished move records (Function.update records key (some new)) ↔
      ∀ r, records key = some r → r.state.terminal = true →
        new.state = r.state ∧ new.result = r.result := by
  constructor
  · exact fun h r hr hTerminal => h.settled key r new hr hTerminal (Function.update_self key _ _)
  · intro h
    refine ⟨hAlone, fun k r hr _ => ?_, fun k r r' hr hTerminal hr' => ?_⟩
    · by_cases hKey : k = key
      · subst hKey
        exact .inr ⟨hMove r hr, by rw [Function.update_self]; rfl⟩
      · exact .inl ((Function.update_of_ne hKey _ _).trans hr)
    · by_cases hKey : k = key
      · subst hKey
        rw [Function.update_self] at hr'
        cases hr'
        exact h r hr hTerminal
      · rw [Function.update_of_ne hKey, hr] at hr'
        cases hr'
        exact ⟨rfl, rfl⟩

theorem record_outcome (call : FinishingCall ρ) (now : Nat) :
    (call.record now).state = call.ending.state ∧ (call.record now).result =
      call.ending.resultOf (call.existing.bind OperationRecord.result) := by
  refine ⟨rfl, ?_⟩
  cases h : call.existing <;> simp [FinishingCall.record, Ending.of, h]

theorem keeps_iff (hTracked : Tracked w.unfinished w.backend.records) (l : Command ρ) :
    w.Keeps l ↔ w.Harmless l := by
  cases l with
  | setNx key info now =>
    refine iff_of_true (fun out hOut => ?_) trivial
    obtain hLost | ⟨hNone, hWon⟩ := w.backend.step_setNx key info now
    · cases hLost.symm.trans hOut
      exact keeps_same nofun
    · cases hWon.symm.trans hOut
      refine (keeps_update (fun r hr => ?_) ?_).mpr ?_
      · cases hr
        exact hTracked.alone hNone
      · exact fun r hr => nomatch hNone.symm.trans hr
      · exact fun r hr => nomatch hNone.symm.trans hr
  | get key =>
    refine iff_of_true (fun out hOut => ?_) trivial
    cases hOut
    exact keeps_same nofun
  | getExisting key ending =>
    refine iff_of_true (fun out hOut => ?_) trivial
    cases hOut
    exact keeps_same nofun
  | set i now =>
    have hSet (call : FinishingCall ρ) :
        Idempotency.Keeps w.unfinished (.ended call.key) w.backend.records
          (Function.update w.backend.records call.key (some (call.record now))) ↔
        ∀ r, w.backend.records call.key = some r → r.state.terminal = true →
          call.ending.state = r.state ∧
            call.ending.resultOf (call.existing.bind OperationRecord.result) = r.result := by
      obtain ⟨hState, hResult⟩ := record_outcome call now
      have hEnded : ∀ r : OperationRecord ρ, Move.ended call.key = .begun r → r.key ∉ w.unfinished := nofun
      rw [keeps_update hEnded fun _ _ => rfl, hState, hResult]
    constructor
    · intro h call hCall
      exact (hSet call).mp (h (_, _) (Option.map_eq_some_iff.mpr ⟨call, hCall, rfl⟩))
    · intro h out hOut
      obtain ⟨call, hCall, rfl⟩ := Option.map_eq_some_iff.mp hOut
      exact (hSet call).mpr (h call hCall)

theorem tracked_step (h : Tracked w.unfinished w.backend.records) {l : Command ρ}
    {w' : WatchedBackend ρ} (hStep : w.step l = some w') (hKeeps : w.Keeps l) :
    Tracked w'.unfinished w'.backend.records := by
  obtain ⟨out, hOut, rfl⟩ := Option.map_eq_some_iff.mp hStep
  refine h.after (hKeeps out hOut) fun r hMove _ => ?_
  cases l with
  | setNx key info now =>
    obtain hLost | ⟨-, hWon⟩ := w.backend.step_setNx key info now
    · cases hLost.symm.trans hOut
      cases hMove
    · cases hWon.symm.trans hOut
      cases hMove
      exact Function.update_self key _ _
  | get key =>
    cases hOut
    cases hMove
  | getExisting key ending =>
    cases hOut
    cases hMove
  | set i now =>
    obtain ⟨call, -, rfl⟩ := Option.map_eq_some_iff.mp hOut
    cases hMove

theorem along_keeps_iff (records : Key → Option (OperationRecord ρ)) (commands : List (Command ρ)) :
    Along step Keeps (new records) commands ↔ Along step Harmless (new records) commands := by
  refine along_congr (I := fun w => Tracked w.unfinished w.backend.records) (fun w l h => ?_)
    (fun _ h => absurd h List.not_mem_nil) commands
  exact ⟨keeps_iff h l, fun _ hStep => tracked_step h hStep⟩

end WatchedBackend

/-- Both stores keep the contract along just those runs that meet no harmful branch: no full store of
unfinished operations gets another, no ending changes what is terminal, and a restart finds in the
file what it needs. -/
theorem contract_iff (max : Nat) (file : Option (List (OperationRecord ρ)))
    (steps : List (LocalStep ρ)) (records : Key → Option (OperationRecord ρ))
    (commands : List (Command ρ)) :
    (Along WatchedStore.step WatchedStore.Keeps (.new max file) steps ↔
      Along WatchedStore.step WatchedStore.Harmless (.new max file) steps) ∧
    (Along WatchedBackend.step WatchedBackend.Keeps (.new records) commands ↔
      Along WatchedBackend.step WatchedBackend.Harmless (.new records) commands) :=
  ⟨WatchedStore.along_keeps_iff max file steps, WatchedBackend.along_keeps_iff records commands⟩

theorem nonempty_a : "a" ≠ "" := by decide

theorem nonempty_b : "b" ≠ "" := by decide

/-- A second running operation drops the first from a store for one record, and a late failure
makes a completed record failed. -/
theorem contract_broken :
    ¬ Along WatchedStore.step WatchedStore.Keeps (.new 1 none : WatchedStore Nat)
      [.begin ⟨"a", nonempty_a⟩ {} 1 true, .begin ⟨"b", nonempty_b⟩ {} 2 true] ∧
    ¬ Along WatchedBackend.step WatchedBackend.Keeps (.new fun _ => none : WatchedBackend Nat)
      [.setNx ⟨"a", nonempty_a⟩ {} 1, .getExisting ⟨"a", nonempty_a⟩ (.complete (some 7)),
        .getExisting ⟨"a", nonempty_a⟩ (.fail []), .set 0 2, .set 0 3] := by
  constructor
  · intro h
    have hHeld := h.2.1.held ⟨"a", nonempty_a⟩ (({} : BeginMeta).record ⟨"a", nonempty_a⟩ 1) rfl rfl
    obtain hSame | ⟨hMove, -⟩ := hHeld
    · exact absurd (congrArg Option.isSome hSame) (by decide +kernel)
    · cases hMove
  · intro h
    have hLast := h.2.2.2.2.1 (_, _) rfl
    have hSettled := hLast.settled ⟨"a", nonempty_a⟩ _ _ rfl rfl rfl
    cases hSettled.1

end OrchestraAI.Idempotency
