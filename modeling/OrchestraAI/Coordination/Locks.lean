import Mathlib.Logic.Function.Basic
import Mathlib.Data.Option.Basic
import OrchestraAI.Library.LabelledSystem

/-! # Locks on a shared server

`LockManager` of `infrastructure/locks.js` and the scripts of `redis-atomic.js`, for any number of
calls of `withLock` on one key. Each call has a token of its own, and `ι` is the type of the calls.
A command takes effect at the server in one step, and its reply arrives in a later one.
-/

namespace OrchestraAI.Coordination

open LabelledSystem

variable {ι : Type} [DecidableEq ι]

/-- Where `renew` or `release` is. -/
inductive Guarded
  | idle
  /-- The script is to be sent, in the first or the second shape of the call. -/
  | eval (again : Bool)
  /-- There is no reply from the script: `get` is to be sent. -/
  | get
  /-- The token was its own: `set` or `del` is to be sent. -/
  | write
  | reply (ok : Bool)
  deriving DecidableEq

def Guarded.next : Guarded → Guarded
  | .eval false => .eval true
  | _ => .get

inductive Guard
  | renew
  | release
  deriving DecidableEq

inductive Outcome
  | success
  | failed
  | lockLost
  | lockBusy
  | lockUnavailable
  deriving DecidableEq

inductive Stage
  | idle
  /-- `SET … NX` has been executed. -/
  | asked (granted : Bool)
  | running
  | ended (outcome : Outcome)
  deriving DecidableEq

/-- A call of `withLock`. -/
structure Call where
  stage : Stage
  renewing : Guarded
  releasing : Guarded
  lost : Bool
  /-- The end of the lease that its last effective command has left it. -/
  leaseEnd : Nat
  /-- It has been running without the lease. -/
  lapsed : Bool
  deriving DecidableEq

namespace Call

def new : Call := ⟨.idle, .idle, .idle, false, 0, false⟩

def place (c : Call) : Guard → Guarded
  | .renew => c.renewing
  | .release => c.releasing

def move (c : Call) (guarded : Guarded) : Guard → Call
  | .renew => { c with renewing := guarded }
  | .release => { c with releasing := guarded }

end Call

structure Locks (ι : Type) where
  now : Nat
  /-- The key: its token and the end of its lease. -/
  key : Option (ι × Nat)
  call : ι → Call
  /-- A command of a renewal or a release has hit the lease of another call. -/
  trespassed : Bool

namespace Locks

variable (ttl : ι → Nat)

/-- The call whose token `GET` returns. -/
def live (s : Locks ι) : Option ι :=
  (s.key.filter fun lease => s.now < lease.2).map Prod.fst

def withCall (s : Locks ι) (i : ι) (c : Call) : Locks ι :=
  { s with call := Function.update s.call i c }

def rekey (s : Locks ι) (i : ι) (key : Option (ι × Nat)) (leaseEnd : Nat) : Locks ι :=
  { s with key := key }.withCall i { s.call i with leaseEnd := leaseEnd }

def put (s : Locks ι) (i : ι) : Locks ι :=
  s.rekey i (some (i, s.now + ttl i)) (s.now + ttl i)

def drop (s : Locks ι) (i : ι) : Locks ι := s.rekey i none s.now

def apply (s : Locks ι) (i : ι) : Guard → Locks ι
  | .renew => s.put ttl i
  | .release => s.drop i

def moved (s : Locks ι) (i : ι) (guard : Guard) (guarded : Guarded) : Locks ι :=
  s.withCall i ((s.call i).move guarded guard)

inductive Label (ι : Type)
  | passes (ms : Nat)
  /-- `tryAcquire` at the server. -/
  | acquires (i : ι)
  /-- Its reply arrives, or is lost. -/
  | answers (i : ι) (delivered : Bool)
  /-- The timer of the renewals fires. -/
  | renews (i : ι)
  | evaluates (i : ι) (guard : Guard) (delivered : Bool)
  /-- The script is not executed. -/
  | skips (i : ι) (guard : Guard)
  | gets (i : ι) (guard : Guard)
  | writes (i : ι) (guard : Guard) (delivered : Bool)
  /-- A command of the fallback is lost on its way. -/
  | fails (i : ι) (guard : Guard)
  | returns (i : ι) (guard : Guard)
  /-- The protected function ends. -/
  | ends (i : ι) (ok : Bool)

def act (s : Locks ι) : Label ι → Option (Locks ι)
  | .passes ms => some { s with now := s.now + ms }
  | .acquires i =>
    if (s.call i).stage ≠ .idle then none
    else if s.live = none then
      some ((s.put ttl i).withCall i { (s.put ttl i).call i with stage := .asked true })
    else some (s.withCall i { s.call i with stage := .asked false })
  | .answers i delivered =>
    match (s.call i).stage with
    | .idle => if delivered then none else
      some (s.withCall i { s.call i with stage := .ended .lockUnavailable })
    | .asked granted =>
      let stage :=
        if !delivered then .ended .lockUnavailable
        else if granted then .running
        else .ended .lockBusy
      some (s.withCall i { s.call i with stage := stage })
    | _ => none
  | .renews i =>
    if (s.call i).stage = .running ∧ (s.call i).renewing = .idle then
      some (s.moved i .renew (.eval false))
    else none
  | .evaluates i guard delivered =>
    match (s.call i).place guard with
    | .eval again =>
      let own := s.live = some i
      let s := if own then s.apply ttl i guard else s
      some (s.moved i guard (if delivered then .reply own else (Guarded.eval again).next))
    | _ => none
  | .skips i guard =>
    match (s.call i).place guard with
    | .eval again => some (s.moved i guard (Guarded.eval again).next)
    | _ => none
  | .gets i guard =>
    if (s.call i).place guard ≠ .get then none
    else some (s.moved i guard (if s.live = some i then .write else .reply false))
  | .writes i guard delivered =>
    if (s.call i).place guard ≠ .write then none
    else
      let trespasses := s.live ≠ none ∧ s.live ≠ some i
      let s := { s with trespassed := s.trespassed || trespasses }
      some ((s.apply ttl i guard).moved i guard (.reply delivered))
  | .fails i guard =>
    if (s.call i).place guard = .get ∨ (s.call i).place guard = .write then
      some (s.moved i guard (.reply false))
    else none
  | .returns i guard =>
    match (s.call i).place guard with
    | .reply ok =>
      let c := (s.call i).move .idle guard
      some (s.withCall i { c with lost := c.lost || (guard = .renew && !ok) })
    | _ => none
  | .ends i ok =>
    if (s.call i).stage ≠ .running then none
    else
      let outcome := if !ok then .failed else if (s.call i).lost then .lockLost else .success
      some (s.withCall i { s.call i with stage := .ended outcome, releasing := .eval false })

def observe (s : Locks ι) : Locks ι :=
  { s with
    call := fun i => { s.call i with
      lapsed := (s.call i).lapsed || ((s.call i).stage = .running && s.live ≠ some i) } }

def step (s : Locks ι) (l : Label ι) : Option (Locks ι) := (s.act ttl l).map observe

def Start (s : Locks ι) : Prop := s.key = none ∧ (∀ i, s.call i = .new) ∧ s.trespassed = false

/-- No renewal or release has hit the lease of another call, and a call that has succeeded had the
lease all the time that its function was running. -/
structure Safe (s : Locks ι) : Prop where
  own : s.trespassed = false
  held : ∀ i, (s.call i).stage = .ended .success → (s.call i).lapsed = false

/-- The lease lasts when the fallback sends its second command, and when a function ends that will
be reported as a success. -/
def Timely (s : Locks ι) : Label ι → Prop
  | .writes i _ _ => s.now < (s.call i).leaseEnd
  | .ends i ok => ok = true → (s.call i).lost = false → s.now < (s.call i).leaseEnd
  | _ => True

instance (s : Locks ι) : ∀ l, Decidable (s.Timely l)
  | .writes i _ _ => inferInstanceAs (Decidable (s.now < (s.call i).leaseEnd))
  | .ends _ _ => inferInstanceAs (Decidable (_ = _ → _ = _ → _ < _))
  | .passes _ | .acquires _ | .answers _ _ | .renews _ | .evaluates _ _ _ | .skips _ _ | .gets _ _
  | .fails _ _ | .returns _ _ => inferInstanceAs (Decidable True)

structure Sound (s : Locks ι) : Prop extends Safe s where
  key : ∀ i e, s.key = some (i, e) → (s.call i).leaseEnd = e
  lasts : ∀ i, s.now < (s.call i).leaseEnd → s.key = some (i, (s.call i).leaseEnd)
  new : ∀ i, (s.call i).stage ≠ .running → (∀ o, (s.call i).stage ≠ .ended o) →
    (s.call i).lapsed = false
  lapse : ∀ i, (s.call i).lapsed = true → (s.call i).leaseEnd ≤ s.now

variable {ttl} {s t : Locks ι} {i j : ι} {l : Label ι} {c : Call} {guard : Guard}

omit [DecidableEq ι] in
theorem live_eq_some {i : ι} : s.live = some i ↔ ∃ e, s.key = some (i, e) ∧ s.now < e := by
  unfold live
  cases s.key with
  | none => simp
  | some lease =>
    obtain ⟨j, e⟩ := lease
    by_cases hLasts : s.now < e
    · simp only [Option.filter_some, decide_eq_true hLasts, if_true, Option.map_some,
        Option.some.injEq, Prod.mk.injEq]
      constructor
      · rintro rfl
        exact ⟨e, ⟨rfl, rfl⟩, hLasts⟩
      · rintro ⟨_, ⟨hSame, -⟩, -⟩
        exact hSame
    · simp only [Option.filter_some, decide_eq_false hLasts]
      constructor
      · nofun
      · rintro ⟨e', hSame, hLasts'⟩
        cases hSame
        exact absurd hLasts' hLasts

omit [DecidableEq ι] in
theorem Sound.live_iff (hs : s.Sound) (i : ι) : s.live = some i ↔ s.now < (s.call i).leaseEnd := by
  rw [live_eq_some]
  constructor
  · rintro ⟨e, hKey, hLasts⟩
    rwa [hs.key i e hKey]
  · intro hLasts
    exact ⟨_, hs.lasts i hLasts, hLasts⟩

theorem withCall_self : (s.withCall i c).call i = c := Function.update_self ..

theorem withCall_ne (h : j ≠ i) : (s.withCall i c).call j = s.call j := Function.update_of_ne h ..

theorem Sound.withCall (hs : s.Sound) (hEnd : c.leaseEnd = (s.call i).leaseEnd)
    (hLapsed : c.lapsed = (s.call i).lapsed)
    (hNew : c.stage ≠ .running → (∀ o, c.stage ≠ .ended o) → c.lapsed = false)
    (hHeld : c.stage = .ended .success → c.lapsed = false) : (s.withCall i c).Sound := by
  have hCall (j : ι) : ((s.withCall i c).call j).leaseEnd = (s.call j).leaseEnd ∧
      ((s.withCall i c).call j).lapsed = (s.call j).lapsed := by
    by_cases hj : j = i
    · subst hj
      rw [withCall_self]
      exact ⟨hEnd, hLapsed⟩
    · rw [withCall_ne hj]
      exact ⟨rfl, rfl⟩
  refine ⟨⟨hs.own, fun j => ?_⟩, fun j => ?_, fun j => ?_, fun j => ?_, fun j => ?_⟩
  · by_cases hj : j = i
    · subst hj
      rw [withCall_self]
      exact hHeld
    · rw [withCall_ne hj]
      exact hs.held j
  · rw [(hCall j).1]
    exact hs.key j
  · rw [(hCall j).1]
    exact hs.lasts j
  · by_cases hj : j = i
    · subst hj
      rw [withCall_self]
      exact hNew
    · rw [withCall_ne hj]
      exact hs.new j
  · rw [(hCall j).1, (hCall j).2]
    exact hs.lapse j

theorem move_eq (c : Call) (guarded : Guarded) (guard : Guard) :
    (c.move guarded guard).leaseEnd = c.leaseEnd ∧
    (c.move guarded guard).lapsed = c.lapsed ∧ (c.move guarded guard).stage = c.stage := by
  cases guard <;> exact ⟨rfl, rfl, rfl⟩

theorem Sound.withPlace (hs : s.Sound) (guard : Guard) (guarded : Guarded) (lost : Bool) :
    (s.withCall i { (s.call i).move guarded guard with lost }).Sound := by
  obtain ⟨hEnd, hLapsed, hStage⟩ := move_eq (s.call i) guarded guard
  refine hs.withCall hEnd hLapsed ?_ ?_
  · dsimp only
    rw [hStage, hLapsed]
    exact hs.new i
  · dsimp only
    rw [hStage, hLapsed]
    exact hs.held i

theorem Sound.moved (hs : s.Sound) (guard : Guard) (guarded : Guarded) :
    (s.moved i guard guarded).Sound :=
  hs.withPlace guard guarded ((s.call i).move guarded guard).lost

/-- A command of a call changes the lease of no other, where the key is free or its own. -/
theorem Sound.rekey (hs : s.Sound) (hKey : s.live = none ∨ s.live = some i)
    (hLapsed : (s.call i).lapsed = false) {key : Option (ι × Nat)} {leaseEnd : Nat}
    (h : key = some (i, leaseEnd) ∨ key = none ∧ leaseEnd ≤ s.now) :
    (s.rekey i key leaseEnd).Sound := by
  have hSelf : (s.rekey i key leaseEnd).call i = { s.call i with leaseEnd := leaseEnd } :=
    withCall_self
  have hOther {j : ι} (hj : j ≠ i) : (s.rekey i key leaseEnd).call j = s.call j := withCall_ne hj
  constructor
  · constructor
    · exact hs.own
    · intro j
      by_cases hj : j = i
      · subst hj
        rw [hSelf]
        exact fun _ => hLapsed
      · rw [hOther hj]
        exact hs.held j
  · rintro j e hPut
    obtain rfl | ⟨rfl, -⟩ := h
    · cases hPut
      rw [hSelf]
    · cases hPut
  · intro j hLasts
    by_cases hj : j = i
    · subst hj
      rw [hSelf] at hLasts ⊢
      exact h.resolve_right fun hDrop => Nat.not_lt.mpr hDrop.2 hLasts
    · rw [hOther hj] at hLasts
      have hLive := (hs.live_iff j).mpr hLasts
      obtain hNone | hOwn := hKey
      · cases hNone.symm.trans hLive
      · cases hOwn.symm.trans hLive
        exact absurd rfl hj
  · intro j
    by_cases hj : j = i
    · subst hj
      rw [hSelf]
      exact fun _ _ => hLapsed
    · rw [hOther hj]
      exact hs.new j
  · intro j hLapse
    by_cases hj : j = i
    · subst hj
      rw [hSelf] at hLapse
      cases hLapsed.symm.trans hLapse
    · rw [hOther hj] at hLapse ⊢
      exact hs.lapse j hLapse

omit [DecidableEq ι] in
theorem Sound.not_lapsed (hs : s.Sound) (hLasts : s.now < (s.call i).leaseEnd) :
    (s.call i).lapsed = false := by
  cases hLapse : (s.call i).lapsed with
  | false => rfl
  | true => exact absurd hLasts (Nat.not_lt.mpr (hs.lapse i hLapse))

theorem Sound.apply (hs : s.Sound) (hOwn : s.live = some i) (guard : Guard) :
    (s.apply ttl i guard).Sound := by
  have hLapsed := hs.not_lapsed ((hs.live_iff i).mp hOwn)
  cases guard with
  | renew => exact hs.rekey (.inr hOwn) hLapsed (.inl rfl)
  | release => exact hs.rekey (.inr hOwn) hLapsed (.inr ⟨rfl, Nat.le_refl _⟩)

omit [DecidableEq ι] in
theorem Sound.passes (hs : s.Sound) (ms : Nat) : ({ s with now := s.now + ms } : Locks ι).Sound := by
  refine ⟨⟨hs.own, hs.held⟩, hs.key, fun i hLasts => ?_, hs.new, fun i hLapse => ?_⟩
  · exact hs.lasts i (Nat.lt_of_le_of_lt (Nat.le_add_right _ _) hLasts)
  · exact Nat.le_trans (hs.lapse i hLapse) (Nat.le_add_right _ _)

theorem Sound.observe (hs : s.Sound) : s.observe.Sound := by
  refine ⟨⟨hs.own, fun i hStage => ?_⟩, hs.key, hs.lasts, fun i hStage hEnded => ?_, fun i hLapse => ?_⟩
  · have hStage : (s.call i).stage = .ended .success := hStage
    simp [Locks.observe, hs.held i hStage, hStage]
  · have hStage : (s.call i).stage ≠ .running := hStage
    simp [Locks.observe, hs.new i hStage hEnded, hStage]
  · obtain hOld | hNew := Bool.or_eq_true_iff.mp hLapse
    · exact hs.lapse i hOld
    · have hLive := of_decide_eq_true (Bool.and_eq_true_iff.mp hNew).2
      exact Nat.le_of_not_lt fun hLasts => hLive ((hs.live_iff i).mpr hLasts)

theorem act_sound (hs : s.Sound) (hTimely : s.Timely l) (h : s.act ttl l = some t) : t.Sound := by
  cases l with
  | passes ms =>
    cases h
    exact hs.passes ms
  | acquires i =>
    simp only [act] at h
    split at h
    · cases h
    rename_i hIdle
    have hStage := not_not.mp hIdle
    have hLapsed : (s.call i).lapsed = false := by
      refine hs.new i ?_ fun o => ?_ <;> rw [hStage] <;> nofun
    split at h
    · rename_i hFree
      cases h
      have hPut : (s.put ttl i).Sound := hs.rekey (.inl hFree) hLapsed (.inl rfl)
      have hSame : ((s.put ttl i).call i).lapsed = false := by
        rw [put, rekey, withCall_self]
        exact hLapsed
      exact hPut.withCall rfl rfl (fun _ _ => hSame) nofun
    · cases h
      exact hs.withCall rfl rfl (fun _ _ => hLapsed) nofun
  | answers i delivered =>
    simp only [act] at h
    split at h
    · rename_i hStage
      split at h
      · cases h
      · cases h
        exact hs.withCall rfl rfl (fun _ hEnded => absurd rfl (hEnded _)) nofun
    · rename_i granted hStage
      have hLapsed : (s.call i).lapsed = false := by
        refine hs.new i ?_ fun o => ?_ <;> rw [hStage] <;> nofun
      cases h
      exact hs.withCall rfl rfl (fun _ _ => hLapsed) fun _ => hLapsed
    · cases h
  | renews i =>
    simp only [act] at h
    split at h
    · cases h
      exact hs.moved _ _
    · cases h
  | evaluates i guard delivered =>
    simp only [act] at h
    split at h
    · cases h
      split
      · rename_i hOwn
        exact (hs.apply hOwn guard).moved _ _
      · exact hs.moved _ _
    · cases h
  | skips i guard =>
    simp only [act] at h
    split at h
    · cases h
      exact hs.moved _ _
    · cases h
  | gets i guard =>
    simp only [act] at h
    split at h
    · cases h
    · cases h
      exact hs.moved _ _
  | writes i guard delivered =>
    simp only [act] at h
    split at h
    · cases h
    · cases h
      -- the lease lasts, and so the key is its own
      have hOwn : s.live = some i := (hs.live_iff i).mpr hTimely
      have hSame : (s.trespassed || decide (s.live ≠ none ∧ s.live ≠ some i)) = s.trespassed := by
        simp [hOwn]
      rw [hSame]
      exact (hs.apply hOwn guard).moved _ _
  | fails i guard =>
    simp only [act] at h
    split at h
    · cases h
      exact hs.moved _ _
    · cases h
  | returns i guard =>
    simp only [act] at h
    split at h
    · cases h
      exact hs.withPlace guard .idle _
    · cases h
  | ends i ok =>
    simp only [act] at h
    split at h
    · cases h
    · cases h
      refine hs.withCall rfl rfl (fun _ hEnded => absurd rfl (hEnded _)) fun hSuccess => ?_
      -- a function that ends well, with no renewal known to have failed
      cases ok with
      | false => cases hSuccess
      | true =>
        cases hLost : (s.call i).lost with
        | true =>
          rw [hLost] at hSuccess
          cases hSuccess
        | false => exact hs.not_lapsed (hTimely rfl hLost)

omit [DecidableEq ι] in
theorem sound_start (h : s.Start) : s.Sound := by
  obtain ⟨hKey, hNew, hOwn⟩ := h
  refine ⟨⟨hOwn, fun i => ?_⟩, fun i e hSome => ?_, fun i => ?_, fun i _ _ => ?_, fun i => ?_⟩
  · rw [hNew]
    nofun
  · cases hKey.symm.trans hSome
  · rw [hNew]
    exact fun h => absurd h (Nat.not_lt_zero _)
  · rw [hNew]
    rfl
  · rw [hNew]
    nofun

/-- In every run in which no write of the fallback and no successful end of a function comes after
the lease, nobody touches the lease of another call, and who succeeds has held its own. -/
theorem lock_safe (h : Reach (step ttl) Timely Start s) : s.Safe := by
  refine (h.invariant (I := Sound) (fun _ => sound_start) fun s l t hs hTimely hstep => ?_).toSafe
  obtain ⟨t, hAct, rfl⟩ := Option.map_eq_some_iff.mp hstep
  exact (act_sound hs hTimely hAct).observe

def unlocked : Locks Nat := ⟨0, none, fun _ => .new, false⟩

theorem start_unlocked : unlocked.Start := ⟨rfl, fun _ => rfl, rfl⟩

abbrev stepOfSecond : Locks Nat → Label Nat → Option (Locks Nat) := step fun _ => 1000

def oneAfterTheOther : List (Label Nat) :=
  [.acquires 0, .answers 0 true, .acquires 1, .passes 400, .renews 0, .evaluates 0 .renew true,
    .returns 0 .renew, .passes 800, .ends 0 true, .skips 0 .release, .skips 0 .release,
    .gets 0 .release, .writes 0 .release true, .returns 0 .release, .acquires 2]

theorem lock_safe_oneAfterTheOther : ∃ s, run stepOfSecond unlocked oneAfterTheOther = some s ∧
    (s.call 0).stage = .ended .success ∧ (s.call 1).stage = .asked false ∧ s.live = some 2 ∧
    s.Safe := by
  have hRun : (run stepOfSecond unlocked oneAfterTheOther).map (fun s =>
      ((s.call 0).stage, (s.call 1).stage, s.live)) =
      some (.ended .success, .asked false, some 2) := by
    decide +kernel
  obtain ⟨s, hs, hState⟩ := Option.map_eq_some_iff.mp hRun
  obtain ⟨hFirst, hRest⟩ := Prod.mk.inj hState
  obtain ⟨hSecond, hLive⟩ := Prod.mk.inj hRest
  exact ⟨s, hs, hFirst, hSecond, hLive,
    lock_safe ((Reach.start start_unlocked).run hs (by decide +kernel))⟩

/-- The timer of the renewals is late, and the second call gets the key in between. -/
def outlived : List (Label Nat) :=
  [.acquires 0, .answers 0 true, .passes 1500, .acquires 1, .answers 1 true, .ends 0 true]

/-- A release of the fallback has read its own token, and the lease ends before it deletes. -/
def lateDelete : List (Label Nat) :=
  [.acquires 0, .answers 0 true, .ends 0 true, .skips 0 .release, .skips 0 .release,
    .gets 0 .release, .passes 1500, .acquires 1, .writes 0 .release true]

/-- A call that has outlived its lease succeeds, and a release deletes the lease of another call. -/
theorem lease_outlived : (∃ s, run stepOfSecond unlocked outlived = some s ∧
      (s.call 0).stage = .ended .success ∧ s.live = some 1 ∧ ¬ s.Safe) ∧
    ∃ s, run stepOfSecond unlocked lateDelete = some s ∧ s.trespassed = true ∧ s.live = none ∧
      ¬ s.Safe := by
  constructor
  · have hRun : (run stepOfSecond unlocked outlived).map (fun s =>
        ((s.call 0).stage, (s.call 0).lapsed, s.live)) =
        some (.ended .success, true, some 1) := by
      decide +kernel
    obtain ⟨s, hs, hState⟩ := Option.map_eq_some_iff.mp hRun
    obtain ⟨hStage, hRest⟩ := Prod.mk.inj hState
    obtain ⟨hLapsed, hLive⟩ := Prod.mk.inj hRest
    exact ⟨s, hs, hStage, hLive, fun h => nomatch hLapsed.symm.trans (h.held 0 hStage)⟩
  · have hRun : (run stepOfSecond unlocked lateDelete).map (fun s => (s.trespassed, s.live)) =
        some (true, none) := by
      decide +kernel
    obtain ⟨s, hs, hState⟩ := Option.map_eq_some_iff.mp hRun
    obtain ⟨hTrespassed, hLive⟩ := Prod.mk.inj hState
    exact ⟨s, hs, hTrespassed, hLive, fun h => nomatch hTrespassed.symm.trans h.own⟩

end Locks

end OrchestraAI.Coordination
