import OrchestraAI.Frontend.EventStream

/-! # What the page shows

The page shows the log up to its cursor as long as every snapshot that arrives is at least as new as
the cursor, and every event that is applied is the next one, a coalesced delta all the next ones.
Nothing but the order of the schedule ensures this: the cursor is not compared when a snapshot is
set, nor while deltas are coalesced, nor with the event before.
-/

namespace OrchestraAI.Frontend

open LabelledSystem

variable {ε : Type} {runId : String}

section Log

def shownAt (log : List (Payload ε)) (q : Nat) : List (Char ⊕ ε) :=
  (log[q - 1]?).elim [] Payload.shows

def content (log : List (Payload ε)) (n : Nat) : List (Char ⊕ ε) :=
  (log.take n).flatMap Payload.shows

variable {log more : List (Payload ε)} {payload : Payload ε} {n q : Nat}

theorem shownAt_of_getElem {i : Nat} (h : log[i]? = some payload) :
    shownAt log (i + 1) = payload.shows := by
  rw [shownAt, Nat.add_sub_cancel, h]
  rfl

theorem shownAt_append (hq : 1 ≤ q) (h : q ≤ log.length) :
    shownAt (log ++ more) q = shownAt log q := by
  rw [shownAt, List.getElem?_append_left (by omega)]
  rfl

theorem flatMap_shownAt_append {qs : List Nat} (h : ∀ q ∈ qs, 1 ≤ q ∧ q ≤ log.length) :
    qs.flatMap (shownAt (log ++ more)) = qs.flatMap (shownAt log) :=
  List.flatMap_congr fun q hq => shownAt_append (h q hq).1 (h q hq).2

theorem content_eq (h : n ≤ log.length) :
    content log n = (List.range' 1 n).flatMap (shownAt log) := by
  induction n with
  | zero => rfl
  | succ n ih =>
    have hGet : log[n]? = some log[n] := List.getElem?_eq_getElem h
    rw [content, List.take_add_one, hGet, List.flatMap_append, List.range'_1_concat,
      List.flatMap_append, Nat.add_comm 1 n, ← ih (Nat.le_of_succ_le h), List.flatMap_singleton,
      shownAt_of_getElem hGet]
    exact congrArg (content log n ++ ·) (List.append_nil _)

end Log

section Property

variable (runId)

def Store.Ours (s : Store ε) : Prop := ∃ snap, s.snapshot = some snap ∧ snap.runId = runId

/-- The applied state reflects each event up to the cursor once, and its texts are those that the
server has sent. -/
def Right (log : List (Payload ε)) (s : Store ε) : Prop :=
  ∀ snap, s.snapshot = some snap → snap.runId = runId →
    snap.reflects = List.range' 1 s.lastSeq ∧ snap.shown = content log s.lastSeq

def Faithful (s : Session ε) (l : Label ε) : Prop :=
  ∀ t, step runId s l = some t →
    Right runId t.log t.store ∧ (s.store.Ours runId → s.store.lastSeq ≤ t.store.lastSeq)

def Store.Takes (s : Store ε) (env : Envelope ε) : Prop :=
  s.Ours env.runId ∧ s.lastSeq < env.seq

def Next (s : Store ε) : Action ε → Prop
  | .snapSet snap => s.Ours runId → s.lastSeq ≤ snap.lastSeq
  | .eventApply env =>
    s.Takes env → env.carries = List.range' (s.lastSeq + 1) (env.seq - s.lastSeq)

def AllNext : Store ε → List (Action ε) → Prop
  | _, [] => True
  | s, a :: as => Next runId s a ∧ AllNext (reducer s a) as

def ComesNext (cursor : Nat) (qs : List Nat) : Prop :=
  ∀ q ∈ qs.getLast?, cursor < q → qs = List.range' (cursor + 1) (q - cursor)

def BufferComesNext (s : Session ε) : Prop :=
  s.store.Ours runId → ComesNext s.store.lastSeq s.hook.carried

def EventComesNext (s : Session ε) (i : Nat) : Prop :=
  ∀ event, s.log[i]? = some (.other event) → BufferComesNext runId s ∧
    (s.store.Ours runId →
      ComesNext (max s.store.lastSeq (s.hook.carried.getLast?.getD 0)) [i + 1])

/-- Everything that is applied in the step comes next, and a snapshot that arrives is not older than
the cursor. -/
def InOrder (s : Session ε) : Label ε → Prop
  | .flush => BufferComesNext runId s
  | .deliver => ∀ i, s.stream = some i → s.gap = false → EventComesNext runId s i
  | .again i => (∃ n, s.stream = some n ∧ i < n) → EventComesNext runId s i
  | .arrive i =>
    ∀ a, s.answers[i]? = some a → s.store.Ours runId → s.store.lastSeq ≤ a.2.lastSeq
  | _ => True

end Property

section Actions

variable {log : List (Payload ε)} {s : Store ε} {env : Envelope ε}

structure Genuine (runId : String) (log : List (Payload ε)) (env : Envelope ε) : Prop where
  run : env.runId = runId
  last : env.carries.getLast? = some env.seq
  known : ∀ q ∈ env.carries, 1 ≤ q ∧ q ≤ log.length
  shows : env.payload.shows = env.carries.flatMap (shownAt log)

structure Taken (runId : String) (log : List (Payload ε)) (snap : RuntimeSnapshot ε) : Prop where
  run : snap.runId = runId
  known : snap.lastSeq ≤ log.length
  reflects : snap.reflects = List.range' 1 snap.lastSeq
  shown : snap.shown = content log snap.lastSeq

structure Kept (runId : String) (log : List (Payload ε)) (s : Store ε) : Prop where
  known : s.Ours runId → s.lastSeq ≤ log.length
  reflects : ∀ snap, s.snapshot = some snap → snap.runId = runId →
    ∀ q ∈ snap.reflects, 1 ≤ q ∧ q ≤ log.length
  shown : ∀ snap, s.snapshot = some snap → snap.runId = runId →
    snap.shown = snap.reflects.flatMap (shownAt log)

theorem reducer_of_not_takes (h : ¬ s.Takes env) : reducer s (.eventApply env) = s := by
  unfold reducer
  cases hSnapshot : s.snapshot with
  | none => rfl
  | some snap =>
    dsimp only
    split_ifs with hRun hStale
    · rfl
    · rfl
    · exact absurd ⟨⟨snap, hSnapshot, (not_ne_iff.mp hRun).symm⟩, Nat.not_le.mp hStale⟩ h

theorem reducer_of_takes (h : s.Takes env) : ∃ snap, s.snapshot = some snap ∧
    snap.runId = env.runId ∧
    reducer s (.eventApply env) = ⟨some (applyEventToSnapshot snap env), env.seq⟩ := by
  obtain ⟨⟨snap, hSnapshot, hRun⟩, hSeq⟩ := h
  refine ⟨snap, hSnapshot, hRun, ?_⟩
  unfold reducer
  rw [hSnapshot]
  dsimp only
  rw [if_neg (not_not.mpr hRun.symm), if_neg (Nat.not_le.mpr hSeq)]

theorem kept_snapSet {snap : RuntimeSnapshot ε} (h : Taken runId log snap) :
    Kept runId log (reducer s (.snapSet snap)) where
  known _ := h.known
  reflects _ hSnap _ q hq := by
    cases hSnap
    have hKnown := h.known
    rw [h.reflects, List.mem_range'_1] at hq
    omega
  shown _ hSnap _ := by
    cases hSnap
    rw [h.shown, content_eq h.known, h.reflects]

theorem Genuine.seq_known (h : Genuine runId log env) : 1 ≤ env.seq ∧ env.seq ≤ log.length :=
  h.known env.seq (List.mem_of_getLast? h.last)

theorem kept_eventApply (hs : Kept runId log s) (h : Genuine runId log env) :
    Kept runId log (reducer s (.eventApply env)) := by
  by_cases hTakes : s.Takes env
  · obtain ⟨snap, hSnapshot, hRun, hStore⟩ := reducer_of_takes hTakes
    rw [hStore]
    constructor
    · exact fun _ => h.seq_known.2
    · rintro _ ⟨⟩ _ q hq
      obtain hOld | hNew := List.mem_append.mp hq
      · exact hs.reflects snap hSnapshot (hRun.trans h.run) q hOld
      · exact h.known q hNew
    · rintro _ ⟨⟩ _
      rw [applyEventToSnapshot, List.flatMap_append, h.shows,
        hs.shown snap hSnapshot (hRun.trans h.run)]
  · rwa [reducer_of_not_takes hTakes]

theorem le_lastSeq (s : Store ε) (env : Envelope ε) :
    s.lastSeq ≤ (reducer s (.eventApply env)).lastSeq := by
  by_cases hTakes : s.Takes env
  · obtain ⟨snap, -, -, hStore⟩ := reducer_of_takes hTakes
    rw [hStore]
    exact hTakes.2.le
  · rw [reducer_of_not_takes hTakes]

theorem right_eventApply (hs : Kept runId log s) (hRight : Right runId log s)
    (h : Genuine runId log env) (hNext : Next runId s (.eventApply env)) :
    Right runId log (reducer s (.eventApply env)) := by
  by_cases hTakes : s.Takes env
  · have hKept := kept_eventApply hs h
    obtain ⟨snap, hSnapshot, hRun, hStore⟩ := reducer_of_takes hTakes
    rw [hStore] at hKept ⊢
    rintro _ ⟨⟩ hOurs
    have hReflects : (applyEventToSnapshot snap env).reflects = List.range' 1 env.seq := by
      calc snap.reflects ++ env.carries
          = List.range' 1 s.lastSeq ++
              List.range' (1 + s.lastSeq) (env.seq - s.lastSeq) := by
            rw [(hRight snap hSnapshot hOurs).1, hNext hTakes, Nat.add_comm 1]
        _ = List.range' 1 env.seq := by
            rw [List.range'_append_1, Nat.add_sub_cancel' hTakes.2.le]
    refine ⟨hReflects, ?_⟩
    rw [hKept.shown _ rfl hOurs, hReflects, content_eq h.seq_known.2]
  · rwa [reducer_of_not_takes hTakes]

theorem next_eventApply (h : Genuine runId log env) :
    Next runId s (.eventApply env) ↔ (s.Ours runId → ComesNext s.lastSeq env.carries) := by
  unfold ComesNext
  simp only [Next, Store.Takes, h.run, h.last]
  constructor
  · rintro hNext hOurs _ ⟨⟩ hNew
    exact hNext ⟨hOurs, hNew⟩
  · rintro hNext ⟨hOurs, hNew⟩
    exact hNext hOurs _ rfl hNew

theorem ours_eventApply (s : Store ε) (env : Envelope ε) :
    (reducer s (.eventApply env)).Ours runId ↔ s.Ours runId := by
  by_cases hTakes : s.Takes env
  · obtain ⟨snap, hSnapshot, -, hStore⟩ := reducer_of_takes hTakes
    rw [hStore, Store.Ours, Store.Ours, hSnapshot]
    constructor
    · rintro ⟨_, ⟨⟩, hRun⟩
      exact ⟨snap, rfl, hRun⟩
    · rintro ⟨_, ⟨⟩, hRun⟩
      exact ⟨_, rfl, hRun⟩
  · rw [reducer_of_not_takes hTakes]

theorem lastSeq_eventApply (h : Genuine runId log env) (hOurs : s.Ours runId) :
    (reducer s (.eventApply env)).lastSeq = max s.lastSeq env.seq := by
  by_cases hTakes : s.Takes env
  · obtain ⟨snap, -, -, hStore⟩ := reducer_of_takes hTakes
    rw [hStore, Nat.max_eq_right hTakes.2.le]
  · rw [reducer_of_not_takes hTakes, Nat.max_eq_left]
    apply Nat.not_lt.mp
    exact fun hNew => hTakes ⟨h.run.symm ▸ hOurs, hNew⟩

theorem allNext_append {acts acts' : List (Action ε)} :
    AllNext runId s (acts ++ acts') ↔
      AllNext runId s acts ∧ AllNext runId (acts.foldl reducer s) acts' := by
  induction acts generalizing s with
  | nil => exact (true_and _).symm ▸ Iff.rfl
  | cons a acts ih =>
    rw [List.cons_append, AllNext, AllNext, ih, and_assoc]
    rfl

theorem reflects_prefix {acts : List (Action ε)} {snap : RuntimeSnapshot ε}
    (hActs : ∀ a ∈ acts, ∃ env, a = .eventApply env) (h : s.snapshot = some snap) :
    ∃ snap', (acts.foldl reducer s).snapshot = some snap' ∧ snap'.runId = snap.runId ∧
      snap.reflects <+: snap'.reflects := by
  induction acts generalizing s snap with
  | nil => exact ⟨snap, h, rfl, List.prefix_rfl⟩
  | cons a acts ih =>
    obtain ⟨⟨env, rfl⟩, hRest⟩ := List.forall_mem_cons.mp hActs
    rw [List.foldl_cons]
    by_cases hTakes : s.Takes env
    · obtain ⟨snap₁, hSnapshot, -, hStore⟩ := reducer_of_takes hTakes
      cases h.symm.trans hSnapshot
      rw [hStore]
      obtain ⟨snap', hLast, hRun, hPrefix⟩ := ih hRest (s := ⟨some _, env.seq⟩) rfl
      exact ⟨snap', hLast, hRun, (List.prefix_append _ _).trans hPrefix⟩
    · rw [reducer_of_not_takes hTakes]
      exact ih hRest h

theorem eq_range'_of_prefix {l : List Nat} {a n L : Nat}
    (h : List.range' a n ++ l <+: List.range' a L) : l = List.range' (a + n) l.length := by
  have hTake := List.prefix_iff_eq_take.mp h
  have hLength := h.length_le
  rw [List.length_append, List.length_range', List.length_range'] at hLength
  rw [List.length_append, List.length_range', List.take_range'_of_length_ge hLength,
    ← List.range'_append_1] at hTake
  exact List.append_cancel_left hTake

theorem allNext_of_right {acts : List (Action ε)} (hs : Kept runId log s)
    (hRight : Right runId log s)
    (hActs : ∀ a ∈ acts, ∃ env, a = .eventApply env ∧ Genuine runId log env)
    (h : Right runId log (acts.foldl reducer s)) : AllNext runId s acts := by
  induction acts generalizing s with
  | nil => trivial
  | cons a acts ih =>
    obtain ⟨⟨env, rfl, hEnv⟩, hRest⟩ := List.forall_mem_cons.mp hActs
    have hNext : Next runId s (.eventApply env) := by
      intro hTakes
      obtain ⟨snap, hSnapshot, hRun, hStore⟩ := reducer_of_takes hTakes
      have hOurs := hRun.trans hEnv.run
      rw [List.foldl_cons, hStore] at h
      obtain ⟨snap', hLast, hSame, hPrefix⟩ := reflects_prefix (s := ⟨some _, env.seq⟩)
        (fun a ha => (hRest a ha).imp fun _ h => h.1) rfl
      rw [(h snap' hLast (hSame.trans hOurs)).1] at hPrefix
      change snap.reflects ++ env.carries <+: _ at hPrefix
      rw [(hRight snap hSnapshot hOurs).1] at hPrefix
      have hCarries : env.carries = List.range' (1 + s.lastSeq) env.carries.length :=
        eq_range'_of_prefix hPrefix
      have hSeq : env.seq = s.lastSeq + env.carries.length := by
        have hLastSeq := hEnv.last
        rw [hCarries, List.getLast?_range'] at hLastSeq
        split_ifs at hLastSeq with hNone
        have hSome := Option.some.inj hLastSeq
        omega
      rw [hSeq, Nat.add_sub_cancel_left, Nat.add_comm s.lastSeq 1]
      exact hCarries
    refine ⟨hNext, ih (kept_eventApply hs hEnv) ?_ hRest h⟩
    exact right_eventApply hs hRight hEnv hNext

theorem right_of_allNext {acts : List (Action ε)} (hs : Kept runId log s)
    (hRight : Right runId log s)
    (hActs : ∀ a ∈ acts, ∃ env, a = .eventApply env ∧ Genuine runId log env)
    (h : AllNext runId s acts) :
    Right runId log (acts.foldl reducer s) ∧ Kept runId log (acts.foldl reducer s) := by
  induction acts generalizing s with
  | nil => exact ⟨hRight, hs⟩
  | cons a acts ih =>
    obtain ⟨⟨env, rfl, hEnv⟩, hRest⟩ := List.forall_mem_cons.mp hActs
    exact ih (kept_eventApply hs hEnv) (right_eventApply hs hRight hEnv h.1) hRest h.2

theorem le_lastSeq_foldl {acts : List (Action ε)} (s : Store ε)
    (hActs : ∀ a ∈ acts, ∃ env, a = .eventApply env) :
    s.lastSeq ≤ (acts.foldl reducer s).lastSeq := by
  induction acts generalizing s with
  | nil => exact Nat.le_refl _
  | cons a acts ih =>
    obtain ⟨⟨env, rfl⟩, hRest⟩ := List.forall_mem_cons.mp hActs
    exact (le_lastSeq s env).trans (ih _ hRest)

end Actions

section Steps

variable {log more : List (Payload ε)} {h : Hook ε} {s t : Session ε} {l : Label ε}
  {r : Session ε × List (Action ε)}

structure Fed (runId : String) (log : List (Payload ε)) (h : Hook ε) : Prop where
  env : ∀ env, h.bufferedDeltaEnv = some env →
    Genuine runId log { env with payload := .delta h.bufferedDelta }
  empty : h.bufferedDeltaEnv = none → h.bufferedDelta = []

def Events (runId : String) (log : List (Payload ε)) (acts : List (Action ε)) : Prop :=
  ∀ a ∈ acts, ∃ env, a = .eventApply env ∧ Genuine runId log env

theorem genuine_envelope {i : Nat} {payload : Payload ε} (hGet : log[i]? = some payload) :
    Genuine runId log (envelope runId i payload) where
  run := rfl
  last := rfl
  known q hq := by
    rw [List.mem_singleton.mp hq]
    exact ⟨Nat.le_add_left 1 i, (List.getElem?_eq_some_iff.mp hGet).1⟩
  shows := by
    rw [envelope, List.flatMap_singleton, shownAt_of_getElem hGet]

theorem flushDelta_fed (hFed : Fed runId log h) :
    Fed runId log h.flushDelta.1 ∧ Events runId log h.flushDelta.2 := by
  unfold Hook.flushDelta
  cases hEnv : h.bufferedDeltaEnv with
  | none => exact ⟨hFed, fun _ h => (List.not_mem_nil h).elim⟩
  | some env =>
    refine ⟨⟨fun _ h => (nomatch h), fun _ => rfl⟩, ?_⟩
    intro a ha
    exact ⟨_, List.mem_singleton.mp ha, hFed.env env hEnv⟩

theorem receive_fed {env : Envelope ε} (hFed : Fed runId log h) (hEnv : Genuine runId log env) :
    Fed runId log (h.receive env).1 ∧ Events runId log (h.receive env).2 := by
  unfold Hook.receive
  cases hPayload : env.payload with
  | other event =>
    obtain ⟨hRest, hActs⟩ := flushDelta_fed hFed
    refine ⟨hRest, fun a ha => ?_⟩
    obtain hOld | hNew := List.mem_append.mp ha
    · exact hActs a hOld
    · exact ⟨env, List.mem_singleton.mp hNew, hEnv⟩
  | delta text =>
    refine ⟨⟨?_, fun h => (nomatch h)⟩, fun _ h => (List.not_mem_nil h).elim⟩
    rintro _ ⟨⟩
    have hShows := hEnv.shows
    rw [hPayload] at hShows
    have hBuffer : (∀ q ∈ h.carried, 1 ≤ q ∧ q ≤ log.length) ∧
        h.bufferedDelta.map Sum.inl = h.carried.flatMap (shownAt log) := by
      unfold Hook.carried
      cases hOld : h.bufferedDeltaEnv with
      | none =>
        rw [hFed.empty hOld]
        exact ⟨fun _ h => (List.not_mem_nil h).elim, rfl⟩
      | some old => exact ⟨(hFed.env old hOld).known, (hFed.env old hOld).shows⟩
    constructor
    · exact hEnv.run
    · rw [List.getLast?_append, hEnv.last]
      rfl
    · exact fun q hq => (List.mem_append.mp hq).elim (hBuffer.1 q) (hEnv.known q)
    · change (h.bufferedDelta ++ text).map Sum.inl = _
      rw [List.map_append, List.flatMap_append, hBuffer.2, ← hShows]
      rfl

theorem content_append {n : Nat} (hn : n ≤ log.length) :
    content (log ++ more) n = content log n := by
  rw [content, List.take_append_of_le_length hn]
  rfl

theorem Genuine.append {env : Envelope ε} (hEnv : Genuine runId log env) :
    Genuine runId (log ++ more) env where
  run := hEnv.run
  last := hEnv.last
  known q hq := ⟨(hEnv.known q hq).1, (hEnv.known q hq).2.trans (by simp)⟩
  shows := by rw [flatMap_shownAt_append hEnv.known, hEnv.shows]

theorem Taken.append {snap : RuntimeSnapshot ε} (hSnap : Taken runId log snap) :
    Taken runId (log ++ more) snap where
  run := hSnap.run
  known := hSnap.known.trans (by simp)
  reflects := hSnap.reflects
  shown := by rw [content_append hSnap.known, hSnap.shown]

theorem Kept.append {s : Store ε} (hs : Kept runId log s) : Kept runId (log ++ more) s where
  known hOurs := (hs.known hOurs).trans (by simp)
  reflects snap hSnapshot hRun q hq := by
    obtain ⟨hFirst, hLast⟩ := hs.reflects snap hSnapshot hRun q hq
    exact ⟨hFirst, hLast.trans (by simp)⟩
  shown snap hSnapshot hRun := by
    rw [flatMap_shownAt_append (hs.reflects snap hSnapshot hRun), hs.shown snap hSnapshot hRun]

theorem Right.append {s : Store ε} (hs : Kept runId log s) (h : Right runId log s) :
    Right runId (log ++ more) s := by
  intro snap hSnapshot hRun
  obtain ⟨hReflects, hShown⟩ := h snap hSnapshot hRun
  exact ⟨hReflects, by rw [content_append (hs.known ⟨snap, hSnapshot, hRun⟩), hShown]⟩

theorem taken_takeSnapshot (log : List (Payload ε)) : Taken runId log (takeSnapshot runId log) where
  run := rfl
  known := Nat.le_refl _
  reflects := rfl
  shown := by
    rw [takeSnapshot, content, List.take_length]

/-- What every session keeps to, whether its view is right or not. -/
structure Sound (runId : String) (s : Session ε) : Prop where
  buffer : Fed runId s.log s.hook
  answers : ∀ a ∈ s.answers, Taken runId s.log a.2

theorem react_sound (hs : Sound runId s) (hr : react runId s l = some r) :
    Sound runId r.1 ∧ (∃ more, r.1.log = s.log ++ more) ∧ (Events runId r.1.log r.2 ∨
      ∃ snap, r.2 = [.snapSet snap] ∧ Taken runId r.1.log snap) := by
  have hNothing (log : List (Payload ε)) : Events runId log [] :=
    fun _ h => (List.not_mem_nil h).elim
  have hSame : ∃ more, s.log = s.log ++ more := ⟨[], (List.append_nil s.log).symm⟩
  cases l with
  | emit payload =>
    cases hr
    refine ⟨⟨⟨?_, hs.buffer.empty⟩, fun a ha => (hs.answers a ha).append⟩,
      ⟨[payload], rfl⟩, .inl (hNothing _)⟩
    exact fun env hEnv => (hs.buffer.env env hEnv).append
  | connect start =>
    simp only [react] at hr
    split_ifs at hr
    cases hr
    exact ⟨⟨hs.buffer, hs.answers⟩, hSame, .inl (hNothing _)⟩
  | deliver =>
    simp only [react] at hr
    split at hr
    · obtain ⟨payload, hGet, rfl⟩ := Option.map_eq_some_iff.mp hr
      obtain ⟨hFed, hActs⟩ := receive_fed hs.buffer (genuine_envelope hGet)
      exact ⟨⟨hFed, hs.answers⟩, hSame, .inl hActs⟩
    · cases hr
  | again i =>
    simp only [react] at hr
    split at hr
    · split_ifs at hr
      obtain ⟨payload, hGet, rfl⟩ := Option.map_eq_some_iff.mp hr
      obtain ⟨hFed, hActs⟩ := receive_fed hs.buffer (genuine_envelope hGet)
      exact ⟨⟨hFed, hs.answers⟩, hSame, .inl hActs⟩
    · cases hr
  | gapFrame =>
    simp only [react] at hr
    split_ifs at hr
    · cases hr
      exact ⟨⟨hs.buffer, hs.answers⟩, hSame, .inl (hNothing _)⟩
    · cases hr
      exact ⟨⟨⟨hs.buffer.env, hs.buffer.empty⟩, hs.answers⟩, hSame, .inl (hNothing _)⟩
  | flush =>
    cases hr
    obtain ⟨hFed, hActs⟩ := flushDelta_fed hs.buffer
    exact ⟨⟨hFed, hs.answers⟩, hSame, .inl hActs⟩
  | fail =>
    cases hr
    exact ⟨⟨hs.buffer, hs.answers⟩, hSame, .inl (hNothing _)⟩
  | sync =>
    cases hr
    exact ⟨⟨⟨hs.buffer.env, hs.buffer.empty⟩, hs.answers⟩, hSame, .inl (hNothing _)⟩
  | answer i =>
    obtain ⟨source, -, rfl⟩ := Option.map_eq_some_iff.mp hr
    refine ⟨⟨hs.buffer, fun a ha => ?_⟩, hSame, .inl (hNothing _)⟩
    obtain hOld | hNew := List.mem_append.mp ha
    · exact hs.answers a hOld
    · rw [List.mem_singleton.mp hNew]
      exact taken_takeSnapshot s.log
  | arrive i =>
    obtain ⟨answer, hGet, rfl⟩ := Option.map_eq_some_iff.mp hr
    have hTaken := hs.answers answer (List.mem_of_getElem? hGet)
    refine ⟨⟨?_, fun a ha => hs.answers a (List.mem_of_mem_eraseIdx ha)⟩, hSame,
      .inr ⟨_, rfl, hTaken⟩⟩
    obtain ⟨_ | _, snap⟩ := answer
    · exact hs.buffer
    · exact ⟨hs.buffer.env, hs.buffer.empty⟩
  | lose i =>
    obtain ⟨source, -, rfl⟩ := Option.map_eq_some_iff.mp hr
    refine ⟨⟨?_, hs.answers⟩, hSame, .inl (hNothing _)⟩
    cases source with
    | load => exact hs.buffer
    | resync => exact ⟨hs.buffer.env, hs.buffer.empty⟩

theorem allNext_flushDelta (hFed : Fed runId s.log s.hook) :
    AllNext runId s.store s.hook.flushDelta.2 ↔ BufferComesNext runId s := by
  unfold BufferComesNext Hook.flushDelta Hook.carried
  cases hEnv : s.hook.bufferedDeltaEnv with
  | none => exact iff_of_true trivial fun _ q hq => (nomatch hq)
  | some env =>
    have hGenuine := hFed.env env hEnv
    exact (and_iff_left trivial).trans (next_eventApply hGenuine)

theorem ours_flushDelta : (s.hook.flushDelta.2.foldl reducer s.store).Ours runId ↔
    s.store.Ours runId := by
  unfold Hook.flushDelta
  cases hEnv : s.hook.bufferedDeltaEnv with
  | none => rfl
  | some env => exact ours_eventApply s.store _

theorem lastSeq_flushDelta (hFed : Fed runId s.log s.hook) (hOurs : s.store.Ours runId) :
    (s.hook.flushDelta.2.foldl reducer s.store).lastSeq =
      max s.store.lastSeq (s.hook.carried.getLast?.getD 0) := by
  unfold Hook.flushDelta Hook.carried
  cases hEnv : s.hook.bufferedDeltaEnv with
  | none => exact (Nat.max_zero _).symm
  | some env =>
    have hGenuine := hFed.env env hEnv
    have hLast : env.carries.getLast? = some env.seq := hGenuine.last
    rw [Option.elim_some, hLast]
    exact lastSeq_eventApply hGenuine hOurs

theorem allNext_receive {i : Nat} {payload : Payload ε} (hFed : Fed runId s.log s.hook)
    (hGet : s.log[i]? = some payload) :
    AllNext runId s.store (s.hook.receive (envelope runId i payload)).2 ↔
      EventComesNext runId s i := by
  unfold EventComesNext
  cases payload with
  | delta text =>
    refine iff_of_true trivial ?_
    exact fun event hOther => (nomatch hGet.symm.trans hOther)
  | other event =>
    have hNext : AllNext runId s.store (s.hook.flushDelta.2 ++
        [.eventApply (envelope runId i (.other event))]) ↔ _ := allNext_append
    have hGenuine : Genuine runId s.log (envelope runId i (.other event)) := genuine_envelope hGet
    have hEvent := next_eventApply (s := s.hook.flushDelta.2.foldl reducer s.store) hGenuine
    rw [ours_flushDelta] at hEvent
    refine hNext.trans ?_
    rw [allNext_flushDelta hFed, AllNext, AllNext, and_true, hEvent]
    constructor
    · rintro ⟨hBuffer, hOwn⟩ _ -
      exact ⟨hBuffer, fun hOurs => lastSeq_flushDelta hFed hOurs ▸ hOwn hOurs⟩
    · intro h
      obtain ⟨hBuffer, hOwn⟩ := h event hGet
      exact ⟨hBuffer, fun hOurs => (lastSeq_flushDelta hFed hOurs).symm ▸ hOwn hOurs⟩

theorem allNext_react (hFed : Fed runId s.log s.hook) :
    (∀ r, react runId s l = some r → AllNext runId s.store r.2) ↔ InOrder runId s l := by
  have hQuiet (h : ∀ r, react runId s l = some r → r.2 = []) :
      ∀ r, react runId s l = some r → AllNext runId s.store r.2 := by
    intro r hr
    rw [h r hr]
    trivial
  cases l with
  | emit payload => exact iff_of_true (hQuiet fun _ hr => by cases hr; rfl) trivial
  | connect start =>
    refine iff_of_true (hQuiet fun _ hr => ?_) trivial
    simp only [react] at hr
    split_ifs at hr
    cases hr
    rfl
  | deliver =>
    unfold InOrder
    constructor
    · intro h i hStream hGap event hGet
      have hReact : react runId s .deliver =
          some ({ s with
            stream := some (i + 1)
            hook := (s.hook.receive (envelope runId i (.other event))).1 },
            (s.hook.receive (envelope runId i (.other event))).2) := by
        simp only [react, hStream, hGap, hGet, Option.map_some]
      exact (allNext_receive hFed hGet).mp (h _ hReact) event hGet
    · intro h r hr
      simp only [react] at hr
      split at hr
      · obtain ⟨payload, hGet, rfl⟩ := Option.map_eq_some_iff.mp hr
        exact (allNext_receive hFed hGet).mpr (h _ ‹_› ‹_›)
      · cases hr
  | again i =>
    unfold InOrder
    constructor
    · rintro h ⟨n, hStream, hBehind⟩ event hGet
      have hReact : react runId s (.again i) =
          some ({ s with hook := (s.hook.receive (envelope runId i (.other event))).1 },
            (s.hook.receive (envelope runId i (.other event))).2) := by
        simp only [react, hStream, if_pos hBehind, hGet, Option.map_some]
      exact (allNext_receive hFed hGet).mp (h _ hReact) event hGet
    · intro h r hr
      simp only [react] at hr
      split at hr
      · split_ifs at hr with hBehind
        obtain ⟨payload, hGet, rfl⟩ := Option.map_eq_some_iff.mp hr
        exact (allNext_receive hFed hGet).mpr (h ⟨_, ‹_›, hBehind⟩)
      · cases hr
  | gapFrame =>
    refine iff_of_true (hQuiet fun _ hr => ?_) trivial
    simp only [react] at hr
    split_ifs at hr <;> cases hr <;> rfl
  | flush =>
    refine Iff.trans ?_ (allNext_flushDelta hFed)
    constructor
    · exact fun h => h _ rfl
    · rintro h r ⟨⟩
      exact h
  | fail => exact iff_of_true (hQuiet fun _ hr => by cases hr; rfl) trivial
  | sync => exact iff_of_true (hQuiet fun _ hr => by cases hr; rfl) trivial
  | answer i =>
    refine iff_of_true (hQuiet fun _ hr => ?_) trivial
    obtain ⟨source, -, rfl⟩ := Option.map_eq_some_iff.mp hr
    rfl
  | arrive i =>
    constructor
    · intro h a hGet
      exact (h _ (congrArg (Option.map _) hGet)).1
    · intro h r hr
      obtain ⟨a, hGet, rfl⟩ := Option.map_eq_some_iff.mp hr
      exact ⟨h a hGet, trivial⟩
  | lose i =>
    refine iff_of_true (hQuiet fun _ hr => ?_) trivial
    obtain ⟨source, -, rfl⟩ := Option.map_eq_some_iff.mp hr
    rfl

end Steps

section Runs

variable {s t : Session ε} {l : Label ε} {ls : List (Label ε)}

structure Current (runId : String) (s : Session ε) : Prop where
  sound : Sound runId s
  kept : Kept runId s.log s.store
  right : Right runId s.log s.store

theorem Opened.current (h : Opened runId s) : Current runId s := by
  have hOther : ¬ s.store.Ours runId := by
    rintro ⟨snap, hSnapshot, hRun⟩
    exact h.store snap hSnapshot hRun
  constructor
  · constructor
    · exact ⟨fun env hEnv => (nomatch h.buffer.symm.trans hEnv), fun _ => h.text⟩
    · intro a ha
      rw [h.answers] at ha
      exact (List.not_mem_nil ha).elim
  · constructor
    · exact fun hOurs => (hOther hOurs).elim
    · exact fun snap hSnapshot hRun => (h.store snap hSnapshot hRun).elim
    · exact fun snap hSnapshot hRun => (h.store snap hSnapshot hRun).elim
  · exact fun snap hSnapshot hRun => (h.store snap hSnapshot hRun).elim

theorem right_snapSet {log : List (Payload ε)} {snap : RuntimeSnapshot ε} (store : Store ε)
    (h : Taken runId log snap) : Right runId log (reducer store (.snapSet snap)) := by
  rintro _ ⟨⟩ _
  exact ⟨h.reflects, h.shown⟩

/-- One step: the view stays right if and only if what is applied comes next, and then the session
goes on with a right view. -/
theorem Current.step (hs : Current runId s) :
    (Faithful runId s l ↔ InOrder runId s l) ∧
      ∀ t, step runId s l = some t → Faithful runId s l → Current runId t := by
  cases hReact : react runId s l with
  | none =>
    have hStep : Frontend.step runId s l = none := congrArg (Option.map _) hReact
    have hNever (t : Session ε) (ht : Frontend.step runId s l = some t) : False :=
      (nomatch hStep.symm.trans ht)
    have hInOrder : InOrder runId s l :=
      (allNext_react hs.sound.buffer).mp fun r hr => (nomatch hReact.symm.trans hr)
    exact ⟨iff_of_true (fun t ht => (hNever t ht).elim) hInOrder,
      fun t ht => (hNever t ht).elim⟩
  | some r =>
    obtain ⟨hSound, ⟨more, hLog⟩, hActs⟩ := react_sound hs.sound hReact
    have hStep : Frontend.step runId s l =
        some { r.1 with store := r.2.foldl reducer s.store } := congrArg (Option.map _) hReact
    have hKept : Kept runId r.1.log s.store := hLog ▸ hs.kept.append
    have hRight : Right runId r.1.log s.store := hLog ▸ hs.right.append hs.kept
    have hFaithful : Faithful runId s l ↔ Right runId r.1.log (r.2.foldl reducer s.store) ∧
        (s.store.Ours runId → s.store.lastSeq ≤ (r.2.foldl reducer s.store).lastSeq) := by
      constructor
      · exact fun h => h _ hStep
      · intro h t ht
        cases hStep.symm.trans ht
        exact h
    have hInOrder : InOrder runId s l ↔ AllNext runId s.store r.2 := by
      rw [← allNext_react hs.sound.buffer]
      constructor
      · exact fun h => h r hReact
      · intro h r' hr
        cases hReact.symm.trans hr
        exact h
    rw [hFaithful, hInOrder]
    obtain hEvents | ⟨snap, hSnap, hTaken⟩ := hActs
    · have hNext (h : Right runId r.1.log (r.2.foldl reducer s.store)) :=
        allNext_of_right hKept hRight hEvents h
      constructor
      · refine ⟨fun h => hNext h.1, fun h => ⟨(right_of_allNext hKept hRight hEvents h).1, ?_⟩⟩
        exact fun _ => le_lastSeq_foldl _ fun a ha => (hEvents a ha).imp fun _ h => h.1
      · rintro t ht ⟨h, -⟩
        cases hStep.symm.trans ht
        exact ⟨⟨hSound.buffer, hSound.answers⟩,
          (right_of_allNext hKept hRight hEvents (hNext h)).2, h⟩
    · rw [hSnap] at hStep ⊢
      have hNow : Right runId r.1.log ([.snapSet snap].foldl reducer s.store) :=
        right_snapSet s.store hTaken
      constructor
      · exact ⟨fun h => ⟨h.2, trivial⟩, fun h => ⟨hNow, h.1⟩⟩
      · rintro t ht -
        cases hStep.symm.trans ht
        exact ⟨⟨hSound.buffer, hSound.answers⟩, kept_snapSet (s := s.store) hTaken, hNow⟩

/-- The view stays right along a run if and only if everything that is applied comes next. -/
theorem faithful_iff_inOrder (hs : Opened runId s) (ls : List (Label ε)) :
    Along (step runId) (Faithful runId) s ls ↔ Along (step runId) (InOrder runId) s ls :=
  along_congr (I := Current runId) (fun _ _ hs => hs.step) hs.current ls

def opening : Session String where
  log := []
  stream := none
  gap := false
  asked := [.load]
  answers := []
  hook := ⟨0, [], none, false⟩
  store := ⟨none, 0⟩

theorem opened_opening : Opened "run" opening where
  stream := rfl
  asked := rfl
  answers := rfl
  buffer := rfl
  text := rfl
  store _ h := nomatch h

theorem faithful_iff_inOrder_of_deltas : Along (step "run") (Faithful "run") opening
    [.emit (.other "task.created"), .answer 0, .arrive 0, .sync, .connect 1,
      .emit (.delta ['a']), .emit (.delta ['b']), .deliver, .deliver, .flush] := by
  apply (faithful_iff_inOrder opened_opening _).mpr
  refine ⟨trivial, trivial, ?_, trivial, trivial, trivial, trivial, ?_, ?_, ?_, trivial⟩
  · rintro _ ⟨⟩ ⟨_, ⟨⟩, _⟩
  · rintro _ ⟨⟩ _ _ ⟨⟩
  · rintro _ ⟨⟩ _ _ ⟨⟩
  · rintro _ _ ⟨⟩ _
    rfl

/-- The snapshot was taken before the second event and arrives after it: the page never shows that
event. Another arrives after a newer snapshot: the cursor goes back. -/
theorem late_snapshot :
    ¬ Along (step "run") (Faithful "run") opening
      ([.emit (.other "task.created"), .connect 0, .answer 0, .emit (.other "plan.created"),
        .deliver, .deliver, .arrive 0, .emit (.other "task.updated")] ++ [.deliver]) ∧
    ¬ Along (step "run") (Faithful "run") opening
      ([.emit (.other "task.created"), .answer 0, .emit (.other "plan.created"), .connect 2,
        .gapFrame, .answer 0, .arrive 1] ++ [.arrive 0]) := by
  constructor
  · intro h
    obtain ⟨hRight, -⟩ := h.last rfl _ rfl
    exact absurd (hRight _ rfl rfl).1 (by decide)
  · intro h
    obtain ⟨-, hCursor⟩ := h.last rfl _ rfl
    exact absurd (hCursor ⟨_, rfl, rfl⟩) (by decide)

end Runs

end OrchestraAI.Frontend
