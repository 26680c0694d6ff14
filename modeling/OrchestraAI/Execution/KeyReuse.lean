import Mathlib.Data.List.Pairwise
import OrchestraAI.Execution.StepNumbers

/-! # Keys that are used again

Two requests have one key when they agree on tool, arguments and step. As long as keys are apart, no
request is answered from the result of another user message. The keys of a run are apart if and only
if its episodes ask for different things in steps of one number.
-/

namespace OrchestraAI.Execution

open OrchestraAI.Recovery

section Keys

variable {sha : Text → Text}

theorem toDigits_injective : Function.Injective (Nat.toDigits 10) := by
  intro m n h
  rw [← Nat.ofDigitChars_toDigits (b := 10) (n := m) (by omega) (by omega), h,
    Nat.ofDigitChars_toDigits (by omega) (by omega)]

theorem colon_notMem_toDigits (n : Nat) : ':' ∉ Nat.toDigits 10 n := by
  intro h
  have hDigit := Nat.isDigit_of_mem_toDigits (by omega) (by omega) h
  exact absurd hDigit (by decide)

theorem colon_notMem_hashParams (hSha : ∀ t, ':' ∉ sha t) (params : Option Json) :
    ':' ∉ hashParams sha params := fun h => hSha _ (List.mem_of_mem_take h)

theorem lastColon_inj {a b t u : Text} (ht : ':' ∉ t) (hu : ':' ∉ u)
    (h : a ++ ':' :: t = b ++ ':' :: u) : a = b ∧ t = u := by
  obtain ⟨rest, hLong, hTail⟩ | ⟨rest, hLong, hTail⟩ := List.append_eq_append_iff.mp h
  · cases rest with
    | nil =>
      rw [List.append_nil] at hLong
      cases hTail
      exact ⟨hLong.symm, rfl⟩
    | cons x rest =>
      cases hTail
      exact absurd (List.mem_append_right _ List.mem_cons_self) ht
  · cases rest with
    | nil =>
      rw [List.append_nil] at hLong
      cases hTail
      exact ⟨hLong, rfl⟩
    | cons x rest =>
      cases hTail
      exact absurd (List.mem_append_right _ List.mem_cons_self) hu

/-- Requests for the same tool with arguments of the same digest, in steps of the same number. -/
structure SameRequest {ρ : Type} (sha : Text → Text) (r r' : Request ρ) : Prop where
  name : r.call.name = r'.call.name
  arguments : hashParams sha r.call.arguments = hashParams sha r'.call.arguments
  step : r.step = r'.step

theorem key_eq_iff (hSha : ∀ t, ':' ∉ sha t) {ρ : Type} {runId : String} {r r' : Request ρ} :
    r.key sha runId = r'.key sha runId ↔ SameRequest sha r r' := by
  constructor
  · intro h
    have hRun : r.call.name.toList ++ ':' :: (Nat.toDigits 10 r.step ++ ':' ::
        hashParams sha r.call.arguments) = r'.call.name.toList ++ ':' ::
          (Nat.toDigits 10 r'.step ++ ':' :: hashParams sha r'.call.arguments) :=
      (List.cons.inj (List.append_cancel_left h)).2
    have hSplit (name digits hash : Text) :
        name ++ ':' :: (digits ++ ':' :: hash) = (name ++ ':' :: digits) ++ ':' :: hash := by simp
    rw [hSplit, hSplit] at hRun
    obtain ⟨hRest, hHash⟩ := lastColon_inj (colon_notMem_hashParams hSha _)
      (colon_notMem_hashParams hSha _) hRun
    obtain ⟨hName, hStep⟩ := lastColon_inj (colon_notMem_toDigits _) (colon_notMem_toDigits _) hRest
    exact ⟨String.toList_inj.mp hName, hHash, toDigits_injective hStep⟩
  · rintro ⟨hName, hHash, hStep⟩
    unfold Request.key idempotencyKeyFor
    rw [hName, hHash, hStep]

end Keys

namespace ToolExecutor

variable {ρ : Type} {x : ToolExecutor ρ} {key : Request ρ → Text}

def Holds (x : ToolExecutor ρ) (k : Text) (stored : StoredResult ρ) : Prop :=
  x.completedKeys.get k = some stored ∨
    ∃ store, x.idempotencyStore = some store ∧ store.get k = some stored

theorem get_dropOldest {κ ν : Type} [DecidableEq κ] {m : OrderedMap κ ν} {k : κ} {v : ν}
    (h : m.dropOldest.get k = some v) : m.get k = some v := by
  rw [← OrderedMap.mem_entries_iff] at h ⊢
  exact List.mem_of_mem_tail h

theorem holds_remember {k k' : Text} {stored stored' : StoredResult ρ}
    (h : (x.remember k' stored').Holds k stored) : (k = k' ∧ stored = stored') ∨ x.Holds k stored := by
  obtain hFast | hDurable := h
  · have hSet : (x.completedKeys.set k' stored').get k = some stored := by
      unfold remember at hFast
      simp only at hFast
      split at hFast
      · exact get_dropOldest hFast
      · exact hFast
    rw [OrderedMap.get_set] at hSet
    split at hSet
    · rename_i hKey
      exact .inl ⟨hKey, (Option.some.inj hSet).symm⟩
    · exact .inr (.inl hSet)
  · exact .inr (.inr hDurable)

theorem holds_complete {k k' : Text} {stored stored' : StoredResult ρ}
    (h : (x.complete k' stored').Holds k stored) : (k = k' ∧ stored = stored') ∨ x.Holds k stored := by
  obtain hFast | ⟨store, hStore, hGet⟩ := h
  · exact .inr (.inl hFast)
  · obtain ⟨old, hOld, rfl⟩ := Option.map_eq_some_iff.mp hStore
    rw [OrderedMap.get_set] at hGet
    split at hGet
    · rename_i hKey
      exact .inl ⟨hKey, (Option.some.inj hGet).symm⟩
    · exact .inr (.inr ⟨old, hOld, hGet⟩)

/-- What `execute` answers from was stored under the key. -/
theorem execute_deduped {k : Text} {r : Request ρ} {stored : StoredResult ρ}
    (h : (x.execute k r).2 = .deduped stored) : x.Holds k stored := by
  unfold execute at h
  split at h
  · rename_i cached hFast
    cases h
    exact .inl hFast
  · split at h
    · rename_i found hDurable
      cases h
      obtain ⟨store, hStore, hGet⟩ := Option.bind_eq_some_iff.mp hDurable
      exact .inr ⟨store, hStore, hGet⟩
    · split at h <;> cases h

/-- What is stored after `execute` was stored before, or is the request's own. -/
theorem holds_execute {k k' : Text} {r : Request ρ} {stored : StoredResult ρ}
    (h : (x.execute k' r).1.Holds k stored) :
    (k = k' ∧ stored.message = r.message) ∨ x.Holds k stored := by
  unfold execute at h
  split at h
  · exact .inr h
  · split at h
    · rename_i found hDurable
      obtain ⟨rfl, rfl⟩ | hOld := holds_remember h
      · obtain ⟨store, hStore, hGet⟩ := Option.bind_eq_some_iff.mp hDurable
        exact .inr (.inr ⟨store, hStore, hGet⟩)
      · exact .inr hOld
    · split at h
      · exact .inr h
      · obtain ⟨rfl, rfl⟩ | hOld := holds_complete h
        · exact .inl ⟨rfl, rfl⟩
        · obtain ⟨rfl, rfl⟩ | hOld := holds_remember hOld
          · exact .inl ⟨rfl, rfl⟩
          · exact .inr hOld

def KeysApart (key : Request ρ → Text) (rs : List (Request ρ)) : Prop :=
  rs.Pairwise fun r r' => r.message ≠ r'.message → key r ≠ key r'

theorem KeysApart.of_mem {rs : List (Request ρ)} (h : KeysApart key rs)
    {r r' : Request ρ} (hr : r ∈ rs) (hr' : r' ∈ rs) (hOther : r.message ≠ r'.message) :
    key r ≠ key r' := by
  have hSymm : Std.Symm fun r r' : Request ρ => r.message ≠ r'.message → key r ≠ key r' :=
    ⟨fun _ _ h hOther hKey => h hOther.symm hKey.symm⟩
  exact List.Pairwise.forall_of_forall (fun _ _ hOther => absurd rfl hOther) h hr hr' hOther

/-- As long as keys are apart, no request is answered from the result of another message. -/
theorem answers_own {rs : List (Request ρ)} (hApart : KeysApart key rs)
    (hStored : ∀ k stored, x.Holds k stored → ∀ r ∈ rs, key r = k → r.message = stored.message) :
    ∀ e ∈ answers key x rs, ∀ stored, e.2 = .deduped stored → stored.message = e.1.message := by
  induction rs generalizing x with
  | nil =>
    intro e he
    cases he
  | cons r rs ih =>
    obtain ⟨hHead, hTail⟩ := List.pairwise_cons.mp hApart
    intro e he stored hAnswer
    cases he with
    | head => exact (hStored _ stored (execute_deduped hAnswer) r List.mem_cons_self rfl).symm
    | tail _ he =>
      refine ih hTail ?_ e he stored hAnswer
      intro k stored hHolds r' hr' hKey
      obtain ⟨rfl, hOwn⟩ | hOld := holds_execute hHolds
      · rw [hOwn]
        by_contra hOther
        exact hHead r' hr' (Ne.symm hOther) hKey.symm
      · exact hStored k stored hOld r' (List.mem_cons_of_mem _ hr') hKey

end ToolExecutor

section Life

open RunCounters ToolExecutor

variable {ρ : Type}

/-- In a run, no two requests of different messages share a key, and none is answered from the
stored result of another message. -/
structure KeysPerMessage (sha : Text → Text) (runId : String) (durable : Bool)
    (rs : List (Request ρ)) : Prop where
  apart : KeysApart (Request.key sha runId) rs
  own : ∀ e ∈ answers (Request.key sha runId) (blank durable) rs, ∀ stored,
    e.2 = .deduped stored → stored.message = e.1.message

variable {sha : Text → Text} {maxSteps : Nat} {episodes : List (EpisodeRequests ρ)}

theorem numbersApart_of_keysApart (hSha : ∀ t, ':' ∉ sha t) {runId : String}
    (h : KeysApart (Request.key sha runId) (requestsOf maxSteps episodes)) :
    NumbersApart sha maxSteps episodes := by
  obtain ⟨-, -, hRequests⟩ := run_spec maxSteps episodes
  intro i j e e' hij hi hj hStart number call call' hAsks hAsks' hName hArguments
  have hFirst : ⟨messageOf (episodes.take (i + 1)), number, call⟩ ∈ requestsOf maxSteps episodes :=
    (hRequests _).mpr ⟨i, e, hi, rfl, hAsks⟩
  have hSecond : ⟨messageOf (episodes.take (j + 1)), number, call'⟩ ∈ requestsOf maxSteps episodes :=
    (hRequests _).mpr ⟨j, e', hj, rfl, hAsks'⟩
  refine h.of_mem hFirst hSecond (fun hSame => ?_) ((key_eq_iff hSha).mpr ⟨hName, hArguments, rfl⟩)
  rw [(messageOf_eq_iff episodes hij).mp hSame] at hStart
  cases hStart

theorem keysApart_of_numbersApart (hSha : ∀ t, ':' ∉ sha t) (runId : String)
    (h : NumbersApart sha maxSteps episodes) :
    KeysApart (Request.key sha runId) (requestsOf maxSteps episodes) := by
  obtain ⟨-, -, hRequests⟩ := run_spec maxSteps episodes
  have hStart {i j : Nat} (hij : i < j) (hOther : messageOf (episodes.take (i + 1)) ≠
      messageOf (episodes.take (j + 1))) :
      ((episodes.take (j + 1)).drop (i + 1)).any (fun m => m.entry.isStart) = true :=
    Bool.not_eq_false _ |>.mp fun hNone => hOther ((messageOf_eq_iff episodes hij).mpr hNone)
  refine List.pairwise_of_forall_mem_list fun r hr r' hr' hOther hKey => ?_
  obtain ⟨hName, hArguments, hStep⟩ := (key_eq_iff hSha).mp hKey
  obtain ⟨i, e, hi, hMessage, hAsks⟩ := (hRequests r).mp hr
  obtain ⟨j, e', hj, hMessage', hAsks'⟩ := (hRequests r').mp hr'
  rw [hMessage, hMessage'] at hOther
  rw [← hStep] at hAsks'
  obtain hij | rfl | hji := Nat.lt_trichotomy i j
  · exact h i j e e' hij hi hj (hStart hij hOther) _ _ _ hAsks hAsks' hName hArguments
  · exact hOther rfl
  · exact h j i e' e hji hj hi (hStart hji hOther.symm) _ _ _ hAsks' hAsks hName.symm hArguments.symm

/-- The keys of the messages of a run are apart if and only if no two of its episodes that work for
different messages ask, in steps of one number, for one tool with arguments of one digest. -/
theorem keysPerMessage_iff (hSha : ∀ t, ':' ∉ sha t) (runId : String) (durable : Bool)
    (maxSteps : Nat) (episodes : List (EpisodeRequests ρ)) :
    KeysPerMessage sha runId durable (requestsOf maxSteps episodes) ↔
      NumbersApart sha maxSteps episodes := by
  refine ⟨fun h => numbersApart_of_keysApart hSha h.apart, fun h => ?_⟩
  have hApart := keysApart_of_numbersApart hSha runId h
  refine ⟨hApart, answers_own hApart ?_⟩
  rintro k stored (hFast | ⟨store, hStore, hGet⟩)
  · cases hFast
  · cases durable with
    | false => cases hStore
    | true =>
      cases hStore
      cases hGet

/-- The episodes of a run that is started once and retried any number of times are apart. -/
theorem numbersApart_of_retries (first : EpisodeRequests ρ) {retries : List (EpisodeRequests ρ)}
    (hRetries : ∀ e ∈ retries, e.entry.isStart = false) :
    NumbersApart sha maxSteps (first :: retries) := by
  intro i j e e' _ _ _ hStart
  obtain ⟨m, hMem, hOpens⟩ := List.any_eq_true.mp hStart
  rw [List.take_succ_cons, List.drop_succ_cons] at hMem
  rw [hRetries m (List.mem_of_mem_take (List.mem_of_mem_drop hMem))] at hOpens
  cases hOpens

/-- A continuation that asks in some step for what the first episode asked for in its step of the
same number is not. -/
theorem not_numbersApart_of_repeated {first second : List (StepRequests ρ)} {p : Nat}
    {a b : StepRequests ρ} (ha : first[p]? = some a) (hb : second[p]? = some b)
    (hBound : p < maxSteps) {call call' : ToolCall ρ} (hCall : call ∈ a.calls)
    (hCall' : call' ∈ b.calls) (hName : call.name = call'.name)
    (hArguments : hashParams sha call.arguments = hashParams sha call'.arguments) :
    ¬ NumbersApart sha maxSteps [⟨.start, first⟩, ⟨.start, second⟩] := by
  intro h
  have hAsks {c : Cursor} (hStart : c.startStep = 0) {steps : List (StepRequests ρ)}
      {asked : StepRequests ρ} (hGet : steps[p]? = some asked) {call : ToolCall ρ}
      (hCall : call ∈ asked.calls) : c.Asks maxSteps steps (p + 1) call :=
    ⟨p, asked, hGet, by omega, .inl ⟨hCall, by omega⟩⟩
  exact h 0 1 _ _ Nat.zero_lt_one rfl rfl rfl (p + 1) call call' (hAsks rfl ha hCall)
    (hAsks rfl hb hCall') hName hArguments

def emptyDigest (_ : Text) : Text :=
  "44136fa355b3678a1146ad16f7e8649e94fb4fc21fe77e8310c060f61caaff8a".toList

def askStatus (outcome : String) : List (StepRequests String) :=
  [⟨[[⟨"git_status", none, true, some outcome⟩]], none⟩]

def askLog (outcome : String) : List (StepRequests String) :=
  [⟨[[⟨"git_log", none, true, some outcome⟩]], none⟩]

def fromFirstStep : RecoveryResult :=
  recover (.refused .missing "Checkpoint not found") none none none none none (.ok ())

/-- The status for one message, once more after a retry, and the log for the next message. -/
def statusThenLog : List (EpisodeRequests String) :=
  [⟨.start, askStatus "clean"⟩, ⟨.retry fromFirstStep true false, askStatus "clean"⟩,
    ⟨.start, askLog "one commit"⟩]

theorem asks_one {c : Cursor} {name outcome : String} {number : Nat} {call : ToolCall String}
    (h : c.Asks maxSteps [⟨[[⟨name, none, true, some outcome⟩]], none⟩] number call) :
    call.name = name := by
  obtain ⟨p, asked, hGet, -, ⟨hCall, -⟩ | ⟨hAssist, -⟩⟩ := h
  · obtain rfl := List.mem_singleton.mp (List.mem_of_getElem? hGet)
    rw [List.mem_singleton.mp (show call ∈ [_] from hCall)]
  · obtain rfl := List.mem_singleton.mp (List.mem_of_getElem? hGet)
    cases hAssist

theorem keysPerMessage_two_messages :
    KeysPerMessage emptyDigest "run-1" true (requestsOf 20 statusThenLog) := by
  refine (keysPerMessage_iff (fun _ => by unfold emptyDigest; decide) "run-1" true 20 _).mpr ?_
  intro i j e e' hij hi hj hStart number call call' hAsks hAsks' hName
  have hLast : j < 3 := (List.getElem?_eq_some_iff.mp hj).1
  obtain rfl | rfl : j = 1 ∨ j = 2 := by omega
  · obtain rfl : i = 0 := by omega
    cases hStart
  · have hLog : call'.name = "git_log" := by
      cases hj
      exact asks_one hAsks'
    have hStatus : call.name = "git_status" := by
      obtain rfl | rfl : i = 0 ∨ i = 1 := by omega
      · cases hi
        exact asks_one hAsks
      · cases hi
        exact asks_one hAsks
    rw [hStatus, hLog] at hName
    exact absurd hName (by decide)

/-- The status asked for after a second message is the one that was stored after the first. -/
theorem status_answered_from_before :
    ¬ KeysPerMessage emptyDigest "run-1" false
        (requestsOf 20 [⟨.start, askStatus "clean"⟩, ⟨.start, askStatus "one file changed"⟩]) ∧
      (answers (Request.key emptyDigest "run-1") (blank false)
        (requestsOf 20 [⟨.start, askStatus "clean"⟩, ⟨.start, askStatus "one file changed"⟩])).map
          (fun e => (e.1.message, match e.2 with
            | .deduped stored => some (stored.message, stored.result)
            | .executed _ => none)) = [(1, none), (2, some (1, "clean"))] := by
  constructor
  · intro h
    exact absurd ((List.pairwise_cons.mp h.apart).1 ⟨2, 1, ⟨"git_status", none, true,
      some "one file changed"⟩⟩ (by exact List.mem_singleton.mpr rfl) (by decide)) (by decide +kernel)
  · decide +kernel

end Life

end OrchestraAI.Execution
