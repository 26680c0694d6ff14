import OrchestraAI.Execution.Constraints

/-! # What user constraints bind

The files that the commands of a run leave open, and the writes that the controller
lets through to others.
-/

namespace OrchestraAI.Execution

open Text (isSpace trim)
open WriteRequest

/-- The empty text, `.` and `..` are no names. -/
def PlainName (name : Text) : Prop := name ≠ [] ∧ name ≠ ['.'] ∧ name ≠ ['.', '.']

theorem resolve_below {base : Path} {f g : Text} (hf : f ≠ []) (hg : g.head? ≠ some '/') :
    resolve base (f ++ '/' :: g) = resolve (resolve base f) g := by
  have hHead : (f ++ '/' :: g).head? = f.head? := by
    cases f with
    | nil => exact absurd rfl hf
    | cons c f => rfl
  unfold resolve
  rw [List.splitOn_append_cons_self, List.foldl_append, hHead, if_neg hg]

theorem resolve_plain {base : Path} {p : Text} (hp : ∀ name ∈ p.splitOn '/', PlainName name) :
    resolve base p = base ++ p.splitOn '/' := by
  have hHead : p.head? ≠ some '/' := by
    cases p with
    | nil => simp
    | cons c p =>
      intro hSlash
      obtain rfl := Option.some.inj hSlash
      rw [List.splitOn_cons_eq_if_modifyHead, if_pos (by rfl)] at hp
      exact (hp [] List.mem_cons_self).1 rfl
  unfold resolve
  rw [if_neg hHead]
  generalize p.splitOn '/' = names at hp
  induction names generalizing base with
  | nil => simp
  | cons name names ih =>
    obtain ⟨hEmpty, hDot, hDots⟩ := hp name List.mem_cons_self
    rw [List.foldl_cons, if_neg (by simp [hEmpty, hDot]), if_neg hDots,
      ih fun name h => hp name (List.mem_cons_of_mem _ h), List.append_assoc, List.singleton_append]

/-- A path as the user names it: relative to the workspace and not out of it. -/
structure Relative (ws : Path) (f : Text) : Prop where
  nonempty : f ≠ []
  noRoot : f.head? ≠ some '/'
  noNul : '\x00' ∉ f
  inside : inside ws (resolve ws f)

theorem filter_noNul {p : Text} (h : '\x00' ∉ p) : p.filter (· ≠ '\x00') = p := by
  apply List.filter_eq_self.mpr
  intro c hc
  simp only [ne_eq, decide_eq_true_eq]
  rintro rfl
  exact h hc

theorem sandboxPath_relative {ws : Path} {f : Text} (h : Relative ws f) (hDot : f ≠ ['.']) :
    sandboxPath ws f = .ok (resolve ws f) := by
  have hRel : (f.dropWhile (· = '/')).filter (· ≠ '\x00') = f := by
    have hDrop : f.dropWhile (· = '/') = f := by
      cases hf : f with
      | nil => rfl
      | cons c r =>
        have hc : c ≠ '/' := by
          rintro rfl
          exact h.noRoot (by rw [hf]; rfl)
        simp [hc]
    rw [hDrop, filter_noNul h.noNul]
  unfold sandboxPath
  simp only
  rw [hRel, if_neg (by simp [h.nonempty, hDot]), if_pos h.inside]

theorem target_relative {ws : Path} {f : Text} (h : Relative ws f) (hDot : f ≠ ['.'])
    (hFile : resolve ws f ≠ ws) : target ws f = some (resolve ws f) := by
  unfold target
  rw [sandboxPath_relative h hDot]
  simp only
  rw [if_neg hFile]

section Scope

variable (messages : List (String × Text)) (runId : String)

def OnlyCommand (rest : Text) : Prop :=
  ∃ m ∈ messages, m.1 = runId ∧ onlyObject (trim m.2) = some rest

def NeverCommand (rest : Text) : Prop :=
  ∃ m ∈ messages, m.1 = runId ∧ neverObject (trim m.2) = some rest

def Open (ws abs : Path) : Prop :=
  ((∃ rest, OnlyCommand messages runId rest) → ∃ rest, OnlyCommand messages runId rest ∧
    ∃ f ∈ splitPaths rest, resolve ws f <+: abs) ∧
  ∀ rest, NeverCommand messages runId rest → ∀ f ∈ splitPaths rest, ¬ resolve ws f <+: abs

variable {messages runId} {ws : Path}

theorem relative_below {f : Text} (h : Relative ws f) (hws : ws ≠ []) {name : Text}
    (hName : PlainName name) (hSlash : '/' ∉ name) (hNul : '\x00' ∉ name) :
    Relative ws (f ++ '/' :: name) ∧ resolve ws (f ++ '/' :: name) = resolve ws f ++ [name] := by
  have hHead : name.head? ≠ some '/' := by
    intro hHead
    exact hSlash (List.mem_of_mem_head? hHead)
  have hSplit : name.splitOn '/' = [name] := List.splitOn_eq_singleton hSlash
  have hResolve : resolve ws (f ++ '/' :: name) = resolve ws f ++ [name] := by
    rw [resolve_below h.nonempty hHead, resolve_plain (by rw [hSplit]; simpa using hName), hSplit]
  refine ⟨⟨?_, ?_, ?_, ?_⟩, hResolve⟩
  · simp
  · cases hf : f with
    | nil => exact absurd hf h.nonempty
    | cons c r => simpa [hf] using h.noRoot
  · simp only [List.mem_append, List.mem_cons, not_or]
    exact ⟨h.noNul, by decide, hNul⟩
  · rw [hResolve, inside_iff hws]
    exact ((inside_iff hws).mp h.inside).trans (List.prefix_append _ _)

theorem relative_name (hws : ws ≠ []) {name : Text} (hName : PlainName name) (hSlash : '/' ∉ name)
    (hNul : '\x00' ∉ name) : Relative ws name ∧ resolve ws name = ws ++ [name] := by
  have hSplit : name.splitOn '/' = [name] := List.splitOn_eq_singleton hSlash
  have hResolve : resolve ws name = ws ++ [name] := by
    rw [resolve_plain (by rw [hSplit]; simpa using hName), hSplit]
  refine ⟨⟨hName.1, ?_, hNul, ?_⟩, hResolve⟩
  · intro hHead
    exact hSlash (List.mem_of_mem_head? hHead)
  · rw [hResolve, inside_iff hws]
    exact List.prefix_append _ _

end Scope

namespace Constraints

def PlainPath (p : Text) : Prop := ∀ name ∈ p.splitOn '/', PlainName name

def Spelled (f p : Text) : Prop := p = f ∨ (f ++ ['/']) <+: p ∨ f <:+ p

/-- The spelling of a path shows that it is forbidden, or that it is none of those to stay in. -/
def ShutOut (c : Constraints) (p : Text) : Prop :=
  (∃ f ∈ c.forbidPaths, Spelled f p) ∨
    c.onlyPaths ≠ [] ∧ ∀ f ∈ c.onlyPaths, ¬ Spelled f p ∧ ¬ p <:+ f

end Constraints

def Unspaced (f : Text) : Prop := f ≠ [] ∧ ∀ c ∈ f, isSpace c = false

theorem not_mem_of_splitOnP {p : Char → Bool} {t piece : Text} (h : piece ∈ t.splitOnP p) :
    ∀ c ∈ piece, p c = false := by
  induction t generalizing piece with
  | nil =>
    obtain rfl := List.mem_singleton.mp h
    intro c hc
    cases hc
  | cons a t ih =>
    rw [List.splitOnP_cons_eq_if_modifyHead] at h
    split at h
    · cases h with
      | head =>
        intro c hc
        cases hc
      | tail _ h => exact ih h
    · rename_i ha
      cases hPieces : t.splitOnP p with
      | nil => exact absurd hPieces (List.splitOnP_ne_nil _ _)
      | cons first rest =>
        rw [hPieces, List.modifyHead_cons] at h
        cases h with
        | head =>
          intro c hc
          cases hc with
          | head => exact Bool.eq_false_iff.mpr ha
          | tail _ hc => exact ih (hPieces ▸ List.mem_cons_self) c hc
        | tail _ h => exact ih (hPieces ▸ List.mem_cons_of_mem _ h)

theorem splitPaths_unspaced {rest f : Text} (h : f ∈ splitPaths rest) : Unspaced f := by
  obtain ⟨hPiece, hNonempty⟩ := List.mem_filter.mp h
  constructor
  · exact of_decide_eq_true hNonempty
  · intro c hc
    have hSeparator := not_mem_of_splitOnP hPiece c hc
    simp only [Bool.or_eq_false_iff] at hSeparator
    exact hSeparator.2

theorem mem_addPaths {old paths : List Text} {f : Text} (h : f ∈ Constraints.addPaths old paths) :
    f ∈ old ∨ f ∈ paths := by
  have hAll := List.mem_of_mem_take h
  rw [List.mem_eraseDups] at hAll
  exact List.mem_append.mp hAll

/-- What the messages to a run have put into its constraints. -/
structure Stored (messages : List (String × Text)) (runId : String) (c : Constraints) : Prop where
  forbidden : ∀ f ∈ c.forbidPaths, Unspaced f
  only : ∀ f ∈ c.onlyPaths, ∃ rest, OnlyCommand messages runId rest ∧ f ∈ splitPaths rest

theorem Stored.more {messages : List (String × Text)} {runId : String} {c : Constraints}
    (h : Stored messages runId c) (more : List (String × Text)) : Stored (messages ++ more) runId c where
  forbidden := h.forbidden
  only f hf := by
    obtain ⟨rest, ⟨m, hm, hRest⟩, hPath⟩ := h.only f hf
    exact ⟨rest, ⟨m, List.mem_append_left _ hm, hRest⟩, hPath⟩

namespace ConstraintStore

theorem userMessage_constraints (s : ConstraintStore) (runId r : String) (text : Text) :
    (s.userMessage runId text).constraints r = s.constraints r ∨
      r = runId ∧ (s.userMessage runId text).constraints r =
        (s.constraints r).applyCommand (parseRuntimeCommand text) := by
  have hSet (c : Constraints) : ConstraintStore.constraints (s.set runId c) r =
      if r = runId then c else s.constraints r := by
    unfold ConstraintStore.constraints
    rw [OrderedMap.get_set]
    split <;> rfl
  unfold userMessage
  cases parseRuntimeCommand text with
  | constrainPaths paths | forbidPaths paths | useBranch branch =>
    simp only [hSet]
    by_cases hr : r = runId
    · rw [if_pos hr, hr]
      exact .inr ⟨rfl, rfl⟩
    · rw [if_neg hr]
      exact .inl rfl
  | _ => exact .inl rfl

theorem parse_constrain {text : Text} {paths : List Text}
    (h : parseRuntimeCommand text = .constrainPaths paths) :
    ∃ rest, onlyObject (trim text) = some rest ∧ paths = (splitPaths rest).take 20 := by
  unfold parseRuntimeCommand at h
  simp only at h
  split_ifs at h
  split at h
  · rename_i rest hRest
    cases h
    exact ⟨rest, hRest, rfl⟩
  · split at h
    · cases h
    · split at h <;> cases h

theorem parse_forbid {text : Text} {paths : List Text}
    (h : parseRuntimeCommand text = .forbidPaths paths) :
    ∃ rest, paths = (splitPaths rest).take 20 := by
  unfold parseRuntimeCommand at h
  simp only at h
  split_ifs at h
  split at h
  · cases h
  · split at h
    · rename_i rest hRest
      cases h
      exact ⟨rest, rfl⟩
    · split at h <;> cases h

theorem stored_after (messages : List (String × Text)) (runId : String) :
    Stored messages runId ((after messages).constraints runId) := by
  induction messages using List.reverseRecOn with
  | nil =>
    constructor
    · intro f hf
      cases hf
    · intro f hf
      cases hf
  | append_singleton messages m ih =>
    have hSnoc : after (messages ++ [m]) = (after messages).userMessage m.1 m.2 := by
      unfold after
      rw [List.foldl_append]
      rfl
    rw [hSnoc]
    have hMore := ih.more [m]
    obtain hSame | ⟨rfl, hChanged⟩ := userMessage_constraints (after messages) m.1 runId m.2
    · rw [hSame]
      exact hMore
    rw [hChanged]
    cases hCommand : parseRuntimeCommand m.2 with
    | constrainPaths paths =>
      obtain ⟨rest, hRest, rfl⟩ := parse_constrain hCommand
      constructor
      · exact hMore.forbidden
      · intro f hf
        obtain hOld | hNew := mem_addPaths hf
        · exact hMore.only f hOld
        · exact ⟨rest, ⟨m, by simp, rfl, hRest⟩, List.mem_of_mem_take hNew⟩
    | forbidPaths paths =>
      obtain ⟨rest, rfl⟩ := parse_forbid hCommand
      constructor
      · intro f hf
        obtain hOld | hNew := mem_addPaths hf
        · exact hMore.forbidden f hOld
        · exact splitPaths_unspaced (List.mem_of_mem_take hNew)
      · exact hMore.only
    | _ => exact ⟨hMore.forbidden, hMore.only⟩

end ConstraintStore

section Bound

variable (messages : List (String × Text)) (runId : String) (ws : Path)

def constraintsAfter : Constraints := (ConstraintStore.after messages).constraints runId

/-- A patch and the stored paths are spelled plainly, and every path that a command names is
stored. -/
structure PlainPatch (p : Text) : Prop where
  path : Constraints.PlainPath p
  noNul : '\x00' ∉ p
  forbidden : ∀ f ∈ (constraintsAfter messages runId).forbidPaths, Constraints.PlainPath f
  only : ∀ f ∈ (constraintsAfter messages runId).onlyPaths, Constraints.PlainPath f
  neverStored : ∀ rest, NeverCommand messages runId rest →
    ∀ f ∈ splitPaths rest, f ∈ (constraintsAfter messages runId).forbidPaths
  onlyStored : ∀ rest, OnlyCommand messages runId rest →
    ∀ f ∈ splitPaths rest, f ∈ (constraintsAfter messages runId).onlyPaths

/-- A plain path lies in one of the paths to stay in, or in a forbidden one, or a forbidden one is
the end of its spelling, or none of those to stay in ends as it does. -/
def WithinScope (p : Text) : Prop :=
  ((∀ rest, ¬ OnlyCommand messages runId rest) ∨
      ∃ f ∈ (constraintsAfter messages runId).onlyPaths, resolve ws f <+: resolve ws p) ∨
    (∃ f ∈ (constraintsAfter messages runId).forbidPaths,
      resolve ws f <+: resolve ws p ∨ f <:+ p) ∨
    (constraintsAfter messages runId).onlyPaths ≠ [] ∧
      ∀ f ∈ (constraintsAfter messages runId).onlyPaths, ¬ f <:+ p ∧ ¬ p <:+ f

/-- When a write stays in the open, by its route. A changeset is as its files are. `git add` may also
have a path whose spelling shows it to be outside, where there are paths to stay in. Of a patch the
plain spelling decides, and any other must itself show what it leads to. -/
def Bound : WriteRequest → Prop
  | .applyPatch path => ∀ abs, target ws path = some abs →
      (PlainPatch messages runId (path.dropWhile (· = '/')) →
        WithinScope messages runId ws (path.dropWhile (· = '/'))) ∧
      (¬ PlainPatch messages runId (path.dropWhile (· = '/')) →
        Open messages runId ws abs ∨
          Constraints.ShutOut (constraintsAfter messages runId) (path.dropWhile (· = '/')))
  | .applyChangeset paths =>
      ∀ abs ∈ (paths.mapM (target ws)).getD [], Open messages runId ws abs
  | .gitAdd paths =>
      (paths.length ≤ 20 → ∀ abs ∈ (paths.mapM (staged ws)).getD [], Open messages runId ws abs) ∨
        (constraintsAfter messages runId).onlyPaths ≠ [] ∧
          ∃ p ∈ paths, Constraints.ShutOut (constraintsAfter messages runId) p

variable {messages runId ws}

end Bound

/-- A spelling that begins and ends with a blank is nothing that a command can name. -/
theorem forbids_blank {f middle : Text} (hf : Unspaced f) :
    Constraints.forbids f (' ' :: (middle ++ [' '])) = false := by
  obtain ⟨hNonempty, hSpace⟩ := hf
  have hBlank : ' ' ∉ f := by
    intro hMem
    have hNot := hSpace ' ' hMem
    exact absurd hNot (by decide)
  simp only [Constraints.forbids, Bool.or_eq_false_iff, decide_eq_false_iff_not]
  refine ⟨⟨?_, ?_⟩, ?_⟩
  · rintro rfl
    exact hBlank List.mem_cons_self
  · rw [Bool.eq_false_iff]
    intro hPrefix
    obtain ⟨rest, hRest⟩ := List.isPrefixOf_iff_prefix.mp hPrefix
    cases f with
    | nil => exact hNonempty rfl
    | cons c f =>
      obtain ⟨rfl, -⟩ := List.cons.inj hRest
      exact hBlank List.mem_cons_self
  · rw [Bool.eq_false_iff]
    intro hSuffix
    have hLast := (List.isSuffixOf_iff_suffix.mp hSuffix).getLast hNonempty
    have hEnd : (' ' :: (middle ++ [' '])).getLast (by simp) = ' ' := by
      simp only [← List.cons_append, List.getLast_append_singleton]
    rw [hEnd] at hLast
    exact hBlank (hLast ▸ List.getLast_mem hNonempty)

/-- Below a path that a run must never touch there is always a file that a patch may write, as
long as the run has not been told where to stay. -/
theorem never_bypassed {messages : List (String × Text)} {runId : String} {ws : Path}
    {rest f : Text} (hNever : NeverCommand messages runId rest) (hf : f ∈ splitPaths rest)
    (hRelative : Relative ws f) (hws : ws ≠ [])
    (hOnly : ∀ rest, ¬ OnlyCommand messages runId rest) :
    ∃ p abs, (WriteRequest.applyPatch p).denied
        ((ConstraintStore.after messages).constraints runId) = none ∧
      abs ∈ (WriteRequest.applyPatch p).written ws ∧ ¬ Open messages runId ws abs := by
  have hStored := ConstraintStore.stored_after messages runId
  generalize (ConstraintStore.after messages).constraints runId = c at hStored
  have hNoOnly : c.onlyPaths = [] := by
    by_contra hSome
    obtain ⟨f, hf⟩ := List.exists_mem_of_ne_nil _ hSome
    obtain ⟨rest, hRest, -⟩ := hStored.only f hf
    exact hOnly rest hRest
  have hBlank : PlainName [' '] := by
    unfold PlainName
    decide
  obtain ⟨hBelow, hResolve⟩ := relative_below hRelative hws hBlank (by decide) (by decide)
  obtain ⟨-, hName⟩ := relative_name hws hBlank (by decide) (by decide)
  have hInside := (inside_iff hws).mp hRelative.inside
  let p : Text := [' '] ++ '/' :: (['.', '.'] ++ '/' :: (f ++ '/' :: [' ']))
  have hBack : resolve ws p = resolve ws f ++ [[' ']] := by
    rw [resolve_below (by simp) (by simp), hName, resolve_below (by simp) hBelow.noRoot, ← hResolve]
    congr 1
    simp [resolve, List.splitOn_eq_singleton]
  have hSpelled : Relative ws p := by
    refine ⟨by simp [p], by simp [p], ?_, ?_⟩
    · have hNul := hRelative.noNul
      simp [p, hNul]
    · rw [hBack, inside_iff hws]
      exact hInside.trans (List.prefix_append _ _)
  have hFile : resolve ws f ++ [[' ']] ≠ ws := by
    intro hEq
    have hLength := congrArg List.length hEq
    rw [List.length_append, List.length_singleton] at hLength
    have hLonger := hInside.length_le
    omega
  have hTarget := target_relative hSpelled (by simp [p]) (by rwa [hBack])
  refine ⟨p, resolve ws p, ?_, by simp [written, hTarget], ?_⟩
  · have hDrop : p.dropWhile (· = '/') = ' ' :: (('/' :: (['.', '.'] ++ '/' :: (f ++ ['/']))) ++
        [' ']) := by
      simp [p]
    have hNone : c.forbidPaths.any (Constraints.forbids · (p.dropWhile (· = '/'))) = false := by
      rw [hDrop, List.any_eq_false]
      intro g hg
      rw [forbids_blank (hStored.forbidden g hg)]
      simp
    simp only [denied, Constraints.checkWrite, hNone, hNoOnly]
    simp
  · intro hOpen
    rw [hBack] at hOpen
    exact hOpen.2 rest hNever f hf (List.prefix_append _ _)

end OrchestraAI.Execution
