import OrchestraAI.Execution.CommandGuard

/-! # The guard and the copies of its checks

The sandbox worker and `environment.js` have checks of their own for commands. On one argument they
agree with the guard; the commands that they accept and the guard refuses differ in the program, in
the first argument and in the flags that are looked for.
-/

namespace OrchestraAI.Execution.CommandGuard

open Text (isSpace length_codeUnits)
open TextReplace (includes)
open SpacedWords (led)

variable {ws : Option Path} {a bin command line : Text} {args argv : List Text} {c : Command}
  {flags flags' : List (String × Bool)}

theorem redirects_iff : redirects flags line = true ↔
    ∃ x rest, x :: rest <:+ line ∧ isSpace x = true ∧ ∃ f ∈ flags, startsFlag f rest = true := by
  rw [redirects, List.any_eq_true]
  constructor
  · rintro ⟨t, ht, h⟩
    cases t with
    | nil => cases h
    | cons x rest =>
      rw [Bool.and_eq_true, List.any_eq_true] at h
      exact ⟨x, rest, (List.mem_tails _ _).mp ht, h⟩
  · rintro ⟨x, rest, hSuffix, hSpace, hFlag⟩
    refine ⟨x :: rest, (List.mem_tails _ _).mpr hSuffix, ?_⟩
    rw [Bool.and_eq_true, List.any_eq_true]
    exact ⟨hSpace, hFlag⟩

def Finds (flags flags' : List (String × Bool)) : Prop :=
  ∀ f ∈ flags, ∃ g ∈ flags', ∀ t, startsFlag f t = true → startsFlag g t = true

theorem Finds.of_subset (h : flags ⊆ flags') : Finds flags flags' :=
  fun f hf => ⟨f, h hf, fun _ ht => ht⟩

theorem Finds.redirects (h : Finds flags flags') (hLine : redirects flags line = true) :
    redirects flags' line = true := by
  obtain ⟨x, rest, hSuffix, hSpace, f, hf, hStarts⟩ := redirects_iff.mp hLine
  obtain ⟨g, hg, hFinds⟩ := h f hf
  exact redirects_iff.mpr ⟨x, rest, hSuffix, hSpace, g, hg, hFinds rest hStarts⟩

theorem redirects_append :
    redirects (flags ++ flags') line = (redirects flags line || redirects flags' line) := by
  rw [Bool.eq_iff_iff, Bool.or_eq_true, redirects_iff, redirects_iff, redirects_iff]
  constructor
  · rintro ⟨x, rest, hSuffix, hSpace, f, hf, hStarts⟩
    obtain hf | hf := List.mem_append.mp hf
    · exact .inl ⟨x, rest, hSuffix, hSpace, f, hf, hStarts⟩
    · exact .inr ⟨x, rest, hSuffix, hSpace, f, hf, hStarts⟩
  · rintro (⟨x, rest, hSuffix, hSpace, f, hf, hStarts⟩ | ⟨x, rest, hSuffix, hSpace, f, hf, hStarts⟩)
    · exact ⟨x, rest, hSuffix, hSpace, f, List.mem_append_left _ hf, hStarts⟩
    · exact ⟨x, rest, hSuffix, hSpace, f, List.mem_append_right _ hf, hStarts⟩

theorem redirects_of_suffix {line' : Text} (h : line <:+ line') (hLine : redirects flags line = true) :
    redirects flags line' = true := by
  obtain ⟨x, rest, hSuffix, hRest⟩ := redirects_iff.mp hLine
  exact redirects_iff.mpr ⟨x, rest, hSuffix.trans h, hRest⟩

/-- After `--cache` no letter follows. -/
theorem startsFlag_cache {t : Text} (h : startsFlag ("--cache-dir", true) t = true) :
    startsFlag ("--cache", false) t = true := by
  rw [startsFlag, Bool.and_eq_true] at h
  obtain ⟨r, rfl⟩ := List.isPrefixOf_iff_prefix.mp h.1
  rfl

def workerGaps : List (String × Bool) :=
  [("--workspaces", false), ("--unsafe-perm", false), ("-p", false)]

/-- The flags that only the guard looks for, of those that the environment looks for. -/
def environmentGaps : List (String × Bool) :=
  [("--cache", false), ("--userconfig", true), ("--global", false), ("--unsafe-perm", false),
    ("-p", false)]

theorem redirects_eq_or {gaps : List (String × Bool)} (hSubset : flags ++ gaps ⊆ redirectFlags)
    (hFinds : ∀ f ∈ redirectFlags, f = ("--cache-dir", true) ∨ f ∈ flags ++ gaps)
    (hCache : ("--cache", false) ∈ flags ++ gaps) :
    redirects redirectFlags line = (redirects flags line || redirects gaps line) := by
  rw [← redirects_append, Bool.eq_iff_iff]
  refine ⟨Finds.redirects ?_, Finds.redirects (Finds.of_subset hSubset)⟩
  intro f hf
  obtain rfl | hf := hFinds f hf
  · exact ⟨_, hCache, fun _ => startsFlag_cache⟩
  · exact ⟨f, hf, fun _ ht => ht⟩

theorem sandbox_redirects : Sandbox.redirects line = redirects Sandbox.redirectFlags line := rfl

theorem redirects_worker : redirects redirectFlags line =
    (Sandbox.redirects line || redirects workerGaps line) := by
  rw [sandbox_redirects]
  exact redirects_eq_or (by decide) (by decide) (by decide)

theorem redirects_environment : redirects redirectFlags line =
    (redirects commandRedirectFlags line || redirects environmentGaps line) :=
  redirects_eq_or (by decide) (by decide) (by decide)

theorem passed_of_worker (h : Sandbox.checkArg a = .ok ()) : Passed ws a := by
  unfold Sandbox.checkArg at h
  rw [length_codeUnits] at h
  split_ifs at h with hLength hMeta hAssigns hControls hDots hHost
  rw [not_or] at hLength
  have hControls : ¬ ('\x00' ∈ a ∨ '\n' ∈ a ∨ '\r' ∈ a) := hControls
  rw [Bool.not_eq_true, any_shellMeta hControls] at hMeta
  refine ⟨hLength.1, Nat.le_of_not_lt hLength.2, hControls, hMeta, Bool.eq_false_iff.mpr hAssigns,
    fun _ => hDots, ?_⟩
  intro w _ hAbsolute
  refine absurd ?_ hHost
  rw [isAbsolute] at hAbsolute
  rw [Sandbox.hostPath, hAbsolute]
  rfl

theorem worker_accepts (ws : Option Path) (h : Sandbox.validateCommand command args = .ok ()) :
    command ∈ Sandbox.ALLOWED_BINS ∧ args.length ≤ MAX_ARGS ∧ (∀ a ∈ args, Passed ws a) ∧
      containsSubstitution (spaced (command :: args)) = false ∧
      ¬ (command = "node".toList ∧ (args.headD []).head? = some '-') ∧
      Sandbox.redirects (' ' :: spaced args) = false := by
  unfold Sandbox.validateCommand at h
  dsimp only at h
  by_cases hBin : command ∈ Sandbox.ALLOWED_BINS
  · rw [if_neg (not_not.mpr hBin)] at h
    by_cases hMany : 20 < args.length
    · rw [if_pos hMany] at h
      cases h
    · rw [if_neg hMany, bind_ok_iff, forM_ok_iff] at h
      obtain ⟨hArgs, h⟩ := h
      split_ifs at h with hSubstitution hEmpty hNode hPython hRedirects
      refine ⟨hBin, Nat.le_of_not_lt hMany, fun a ha => passed_of_worker (hArgs a ha), ?_, hNode,
        Bool.eq_false_iff.mpr hRedirects⟩
      rw [containsSubstitution, Bool.eq_false_iff, Ne, Bool.or_eq_true, Bool.or_eq_true, or_assoc]
      exact hSubstitution
  · rw [if_pos hBin] at h
    cases h

theorem allowed_bins_bare : ∀ bin ∈ Sandbox.ALLOWED_BINS,
    isBare bin = true ∧ bin ∉ BLOCKED_BINS ∧ bin ≠ [] := by
  decide +kernel

theorem executed_cons (hBin : bin ≠ []) (hArgs : ∀ a ∈ args, a ≠ []) :
    executed (bin :: args) = bin :: args := by
  refine List.filter_eq_self.mpr ?_
  rw [List.forall_mem_cons]
  exact ⟨by simpa using hBin, fun a ha => by simpa using hArgs a ha⟩

/-- What the guard refuses of the commands that the worker accepts. -/
structure PastWorker (command : Text) (args : List Text) : Prop where
  inline : args.headD [] ∈ INLINE_CODE_FLAGS → command ∉ inlineBins
  unredirected : redirects workerGaps (' ' :: spaced args) = false

theorem isOk_iff {ε α : Type} {x : Except ε α} : x.isOk = true ↔ ∃ v, x = .ok v := by
  cases x with
  | error e => exact iff_of_false nofun fun h => nomatch h
  | ok v => exact iff_of_true rfl ⟨v, rfl⟩

theorem worker_iff (h : Sandbox.validateCommand command args = .ok ()) :
    (validateArgv ws (command :: args)).isOk = true ↔ PastWorker command args := by
  obtain ⟨hBin, hFew, hPassed, hLiteral, hNode, hRedirects⟩ := worker_accepts ws h
  obtain ⟨hBare, hBlocked, hNe⟩ := allowed_bins_bare command hBin
  have hExecuted : executed (command :: args) = command :: args :=
    executed_cons hNe fun a ha => (hPassed a ha).ne_nil
  rw [isOk_iff]
  constructor
  · rintro ⟨c, hc⟩
    obtain ⟨hCommand, hAccepted⟩ := validateArgv_ok_iff.mp hc
    obtain ⟨rfl, rfl⟩ := List.cons.inj (hExecuted.symm.trans hCommand)
    refine ⟨fun hFirst hInline => hAccepted.first.inline ⟨hFirst, hInline⟩, ?_⟩
    have hUnredirected := hAccepted.unredirected
    rw [redirects_worker, hRedirects, Bool.false_or] at hUnredirected
    exact hUnredirected
  · intro hPast
    refine ⟨⟨command, args⟩, validateArgv_ok_iff.mpr ⟨hExecuted, ?_⟩⟩
    refine ⟨hBare, hBlocked, hFew, hPassed, hLiteral, ⟨hNode, ?_⟩, ?_⟩
    · rintro ⟨hFirst, hInline⟩
      exact hPast.inline hFirst hInline
    · rw [redirects_worker, hRedirects, hPast.unredirected, Bool.or_false]

/-- What occurs in a text and in what stands behind it occurs in the text, if the rest has none of
its characters. -/
theorem infix_append_iff {p rest : Text} (hp : p ≠ []) (h : ∀ x ∈ p, x ∉ rest) :
    p <:+: bin ++ rest ↔ p <:+: bin := by
  constructor
  · rintro ⟨before, after, hWhole⟩
    have hBegin : before ++ p <+: bin ++ rest := ⟨after, hWhole⟩
    obtain hWithin | ⟨r, hr, hRest⟩ := SpacedWords.prefix_append_cases hBegin
    · exact (List.suffix_append before p).isInfix.trans hWithin.isInfix
    · cases List.eq_nil_or_concat' r with
      | inl hNil =>
        rw [hNil, List.append_nil] at hr
        exact hr ▸ (List.suffix_append before p).isInfix
      | inr hLast =>
        -- the last character would stand in the rest
        obtain ⟨r, x, rfl⟩ := hLast
        obtain rfl | ⟨p, y, rfl⟩ := List.eq_nil_or_concat' p
        · exact absurd rfl hp
        · rw [← List.append_assoc, ← List.append_assoc] at hr
          obtain rfl : y = x := by simpa using (List.append_inj' hr rfl).2
          exact absurd (hRest.subset (by simp)) (h y (by simp))
  · exact fun hBin => hBin.trans (List.prefix_append bin rest).isInfix

theorem containsSubstitution_iff {t : Text} : containsSubstitution t = true ↔
    "$(".toList <:+: t ∨ "`".toList <:+: t ∨ ['$', '\x7b'] <:+: t := by
  rw [containsSubstitution, Bool.or_eq_true, Bool.or_eq_true, or_assoc, TextReplace.includes_iff,
    TextReplace.includes_iff, TextReplace.includes_iff]

theorem spaced_cons : spaced (bin :: args) = bin ++ led ' ' args := by
  have h : ' ' :: spaced (bin :: args) = led ' ' (bin :: args) := SpacedWords.cons_intercalate
  rw [SpacedWords.led_cons] at h
  exact (List.cons.inj h).2

theorem containsSubstitution_spaced (h : ∀ a ∈ args, Passed ws a) :
    containsSubstitution (spaced (bin :: args)) = containsSubstitution bin := by
  have hFree : ∀ x ∈ argMeta, x ∉ led ' ' args := by
    intro x hx hMem
    obtain ⟨a, ha, hxa⟩ := List.mem_flatMap.mp hMem
    obtain rfl | hxa := List.mem_cons.mp hxa
    · revert hx
      decide
    · have hAny := List.any_eq_false.mp (h a ha).characters x hxa
      exact hAny (decide_eq_true hx)
  rw [Bool.eq_iff_iff, containsSubstitution_iff, containsSubstitution_iff, spaced_cons,
    infix_append_iff (by decide) fun x hx => hFree x ((by decide : "$(".toList ⊆ argMeta) hx),
    infix_append_iff (by decide) fun x hx => hFree x ((by decide : "`".toList ⊆ argMeta) hx),
    infix_append_iff (by decide) fun x hx => hFree x ((by decide : ['$', '\x7b'] ⊆ argMeta) hx)]

structure PastEnvironment (c : Command) : Prop where
  bare : isBare c.bin = true
  unblocked : c.bin ∉ BLOCKED_BINS
  literal : containsSubstitution c.bin = false
  first : FirstPasses c.bin (c.args.headD [])
  unredirected : redirects environmentGaps (' ' :: spaced c.args) = false

/-- The line of all arguments but the first one has no flags that the whole line has not. -/
theorem redirects_tail (h : redirects commandRedirectFlags (' ' :: spaced (bin :: args)) = false) :
    redirects commandRedirectFlags (' ' :: spaced args) = false := by
  cases args with
  | nil => rfl
  | cons a args =>
    rw [Bool.eq_false_iff] at h ⊢
    refine fun hTail => h (redirects_of_suffix ?_ hTail)
    rw [spaced, spaced, SpacedWords.cons_intercalate, SpacedWords.cons_intercalate]
    exact (List.suffix_append bin _).trans (List.suffix_cons ' ' _)

theorem environment_iff (h : validateCommandArgs bin args ws = .ok ()) :
    (validateArgv ws (bin :: args)).isOk = true ↔
      ∃ c, executed (bin :: args) = c.bin :: c.args ∧ PastEnvironment c := by
  obtain ⟨hFew, hPassed, -, -, hRedirects⟩ := validateCommandArgs_ok_iff.mp h
  have hKept : executed args = args :=
    List.filter_eq_self.mpr fun a ha => by simpa using (hPassed a ha).ne_nil
  rw [isOk_iff]
  refine exists_congr fun c => ?_
  rw [validateArgv_ok_iff]
  refine and_congr_right fun hCommand => ?_
  -- without a program the first argument takes its place
  have hArgs : c.args.length ≤ MAX_ARGS ∧ (∀ a ∈ c.args, Passed ws a) ∧
      redirects commandRedirectFlags (' ' :: spaced c.args) = false := by
    by_cases hBin : bin = []
    · have hTail : args = c.bin :: c.args := by
        rw [← hKept, ← hCommand, hBin]
        rfl
      rw [hTail] at hFew hPassed hRedirects
      exact ⟨Nat.le_of_succ_le hFew, (List.forall_mem_cons.mp hPassed).2, redirects_tail hRedirects⟩
    · have hAll := executed_cons hBin fun a ha => (hPassed a ha).ne_nil
      obtain ⟨-, rfl⟩ := List.cons.inj (hAll.symm.trans hCommand)
      exact ⟨hFew, hPassed, hRedirects⟩
  obtain ⟨hFew, hPassed, hRedirects⟩ := hArgs
  constructor
  · intro hAccepted
    refine ⟨hAccepted.bare, hAccepted.unblocked, ?_, hAccepted.first, ?_⟩
    · rw [← containsSubstitution_spaced hPassed]
      exact hAccepted.literal
    · have hUnredirected := hAccepted.unredirected
      rw [redirects_environment, hRedirects, Bool.false_or] at hUnredirected
      exact hUnredirected
  · intro hPast
    refine ⟨hPast.bare, hPast.unblocked, hFew, hPassed, ?_, hPast.first, ?_⟩
    · rw [containsSubstitution_spaced hPassed]
      exact hPast.literal
    · rw [redirects_environment, hRedirects, hPast.unredirected, Bool.or_false]

/-- When the guard accepts what the worker accepts, and what the environment accepts. -/
theorem guard_accepts_iff (ws : Option Path) :
    (∀ command args, Sandbox.validateCommand command args = .ok () →
      ((validateArgv ws (command :: args)).isOk = true ↔ PastWorker command args)) ∧
    ∀ bin args, validateCommandArgs bin args ws = .ok () →
      ((validateArgv ws (bin :: args)).isOk = true ↔
        ∃ c, executed (bin :: args) = c.bin :: c.args ∧ PastEnvironment c) :=
  ⟨fun _ _ => worker_iff, fun _ _ => environment_iff⟩

theorem guard_accepts_iff_cargo :
    ((validateArgv (some [['w']]) ["cargo".toList, "test".toList]).isOk = true ↔
      PastWorker "cargo".toList ["test".toList]) ∧
    ((validateArgv (some [['w']]) ["cargo".toList, "test".toList]).isOk = true ↔
      ∃ c, executed ["cargo".toList, "test".toList] = c.bin :: c.args ∧ PastEnvironment c) :=
  ⟨(guard_accepts_iff (some [['w']])).1 _ _ rfl, (guard_accepts_iff (some [['w']])).2 _ _ rfl⟩

/-- A plugin of `pytest` passes the worker and the environment. -/
theorem guard_refuses_accepted :
    Sandbox.validateCommand "pytest".toList ["-p".toList, "x".toList] = .ok () ∧
    validateCommandArgs "pytest".toList ["-p".toList, "x".toList] (some [['w']]) = .ok () ∧
    (validateArgv (some [['w']]) ["pytest".toList, "-p".toList, "x".toList]).isOk = false := by
  refine ⟨by rfl, by rfl, by decide +kernel⟩

end OrchestraAI.Execution.CommandGuard
