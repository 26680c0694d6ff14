import OrchestraAI.Execution.CommandGuard

/-! # What an admitted command can name

The paths of an admitted command, the flags that move the root of a package or of the workspace, and
the denied commands of a policy, against the lines that empty arguments make of one command.
-/

namespace OrchestraAI.Execution.CommandGuard

open Sandbox (endsFlag)
open SpacedWords (led begins)

variable {ws : Option Path} {a v : Text} {args argv : List Text} {c : Command}

/-- The value of `flag=value`. -/
def valueOf (a : Text) : Option Text :=
  if a.head? = some '-' ∧ '=' ∈ a then some (a.dropWhile (· ≠ '=')).tail else none

structure Stays (ws : Option Path) (t : Text) : Prop where
  undotted : ['.', '.'] ∉ segments t
  below : isAbsolute t = true → ∃ w, ws = some w ∧ w <+: resolve [] t

/-- `isPath` says which texts the command takes for paths. -/
def Confined (isPath : Text → Prop) (ws : Option Path) (args : List Text) : Prop :=
  ∀ a ∈ args, (isPath a → Stays ws a) ∧ ∀ v, valueOf a = some v → isPath v → Stays ws v

/-- What the guard does not look at: arguments without a slash, absolute arguments when the root is
unknown, the beginning of a value, and all of a value that contains no slash or is absolute. -/
structure Overlooked (isPath : Text → Prop) (ws : Option Path) (args : List Text) : Prop where
  unslashed : ∀ a ∈ args, isPath a → '/' ∉ a → ['.', '.'] ∉ segments a
  rootless : ∀ a ∈ args, isPath a → isAbsolute a = true → ws ≠ none
  dotted : ∀ a ∈ args, ∀ v, valueOf a = some v → isPath v →
    if '/' ∈ a then (segments v).head? ≠ some ['.', '.'] else ['.', '.'] ∉ segments v
  absolute : ∀ a ∈ args, ∀ v, valueOf a = some v → isPath v → isAbsolute v = true →
    ∃ w, ws = some w ∧ w <+: resolve [] v

theorem isPrefix_of_inside {w abs : Path} (h : inside w abs = true) : w <+: abs := by
  rw [inside, Bool.or_eq_true] at h
  obtain hEq | hBelow := h
  · rw [of_decide_eq_true hEq]
  · exact List.isPrefixOf_iff_prefix.mp (Bool.and_eq_true _ _ ▸ hBelow).2

theorem segments_append_right (t : Text) {s : Text} (h : s ∈ (segments v).tail) :
    s ∈ (segments (t ++ v)).tail := by
  induction t with
  | nil => exact h
  | cons x t ih =>
    rw [segments, List.cons_append, List.splitOnP_cons_eq_if_modifyHead]
    split_ifs
    · exact List.mem_of_mem_tail ih
    · rwa [List.tail_modifyHead]

theorem eq_append_of_valueOf (h : valueOf a = some v) : ∃ flag, a = flag ++ v := by
  rw [valueOf] at h
  split_ifs at h
  obtain rfl := Option.some.inj h
  refine ⟨a.takeWhile (· ≠ '=') ++ (a.dropWhile (· ≠ '=')).take 1, ?_⟩
  rw [List.append_assoc, ← List.drop_one, List.take_append_drop, List.takeWhile_append_dropWhile]

theorem mem_head_or_tail {α : Type} {x : α} {l : List α} (h : x ∈ l) : l.head? = some x ∨ x ∈ l.tail := by
  cases l with
  | nil => cases h
  | cons y l =>
    obtain rfl | h := List.mem_cons.mp h
    · exact .inl rfl
    · exact .inr h

theorem confined_iff_overlooked {isPath : Text → Prop} (hPassed : ∀ a ∈ args, Passed ws a) :
    Confined isPath ws args ↔ Overlooked isPath ws args := by
  constructor
  · intro h
    refine ⟨fun a ha hPath _ => ((h a ha).1 hPath).undotted, ?_, ?_, ?_⟩
    · rintro a ha hPath hAbsolute rfl
      obtain ⟨w, hw, -⟩ := ((h a ha).1 hPath).below hAbsolute
      cases hw
    · intro a ha v hv hPath
      have hUndotted := ((h a ha).2 v hv hPath).undotted
      split_ifs
      · exact fun hHead => hUndotted (List.mem_of_mem_head? hHead)
      · exact hUndotted
    · exact fun a ha v hv hPath => ((h a ha).2 v hv hPath).below
  · intro h a ha
    constructor
    · intro hPath
      constructor
      · by_cases hSlash : '/' ∈ a
        · exact (hPassed a ha).traversal hSlash
        · exact h.unslashed a ha hPath hSlash
      · intro hAbsolute
        obtain ⟨w, hw⟩ := Option.ne_none_iff_exists'.mp (h.rootless a ha hPath hAbsolute)
        exact ⟨w, hw, isPrefix_of_inside ((hPassed a ha).confined w hw hAbsolute)⟩
    · intro v hv hPath
      refine ⟨fun hMem => ?_, h.absolute a ha v hv hPath⟩
      have hDotted := h.dotted a ha v hv hPath
      split_ifs at hDotted with hSlash
      · obtain hHead | hTail := mem_head_or_tail hMem
        · exact hDotted hHead
        · obtain ⟨flag, rfl⟩ := eq_append_of_valueOf hv
          exact (hPassed _ ha).traversal hSlash
            (List.mem_of_mem_tail (segments_append_right flag hTail))
      · exact hDotted hMem

abbrev ToolFlag := Text × Bool

def uses (flag : ToolFlag) (args : List Text) : Bool :=
  args.any (fun a => (flag.1 ++ ['=']).isPrefixOf a) ||
    if flag.2 then flag.1 ∈ args.dropLast else flag.1 ∈ args

def listed (flag : ToolFlag) : Bool :=
  redirectFlags.any fun f => f.1.toList = flag.1 && (!f.2 || flag.2)

theorem redirects_of_word {flags : List (String × Bool)} {f : String × Bool} (hf : f ∈ flags)
    {t : Text} {before after : List Text} (hEnds : endsFlag f.2 (t ++ led ' ' after).head? = true) :
    redirects flags (' ' :: spaced (before ++ (f.1.toList ++ t) :: after)) = true := by
  rw [spaced, SpacedWords.cons_intercalate_append, redirects, List.any_eq_true]
  refine ⟨_, (List.mem_tails _ _).mpr (List.suffix_append _ _), ?_⟩
  rw [Bool.and_eq_true, List.any_eq_true]
  refine ⟨rfl, f, hf, ?_⟩
  rw [startsFlag, Bool.and_eq_true, List.append_assoc, ← String.length_toList, List.drop_left]
  exact ⟨List.isPrefixOf_iff_prefix.mpr (List.prefix_append _ _), hEnds⟩

theorem uses_of_listed {flag : ToolFlag}
    (h : redirects redirectFlags (' ' :: spaced args) = false) (hListed : listed flag = true) :
    uses flag args = false := by
  rw [Bool.eq_false_iff]
  intro hUses
  obtain ⟨f, hf, hFlag⟩ := List.any_eq_true.mp hListed
  rw [Bool.and_eq_true, decide_eq_true_eq] at hFlag
  obtain ⟨hName, hValue⟩ := hFlag
  have hNever : ∀ (t : Text) (before after : List Text),
      args = before ++ (flag.1 ++ t) :: after → endsFlag f.2 (t ++ led ' ' after).head? = true →
      False := by
    rintro t before after rfl hEnds
    rw [← hName, redirects_of_word hf hEnds] at h
    cases h
  rw [uses, Bool.or_eq_true, List.any_eq_true] at hUses
  obtain ⟨a, ha, hPrefix⟩ | hWord := hUses
  · -- `flag=`
    obtain ⟨t, rfl⟩ := List.isPrefixOf_iff_prefix.mp hPrefix
    obtain ⟨before, after, rfl⟩ := List.append_of_mem ha
    refine hNever ('=' :: t) before after (by simp) ?_
    cases f.2 <;> rfl
  · cases hTakes : flag.2 with
    | true =>
      -- the value is the next argument
      rw [hTakes, if_pos rfl] at hWord
      obtain ⟨before, after, hAfter⟩ := List.append_of_mem (of_decide_eq_true hWord)
      obtain rfl | ⟨front, v, rfl⟩ := List.eq_nil_or_concat' args
      · cases before <;> cases hAfter
      · rw [List.dropLast_concat] at hAfter
        refine hNever [] before (after ++ [v]) (by simp [hAfter]) ?_
        cases f.2 <;> cases after <;> rfl
    | false =>
      rw [hTakes, if_neg (by decide)] at hWord
      obtain ⟨before, after, rfl⟩ := List.append_of_mem (of_decide_eq_true hWord)
      refine hNever [] before after (by simp) ?_
      rw [hTakes, Bool.or_false, Bool.not_eq_true'] at hValue
      rw [hValue]
      cases after <;> rfl

def Stable (policy : Option CommandPolicy) (argv : List Text) : Prop :=
  ∀ argv', executed argv' = executed argv → deniedBy policy argv' = deniedBy policy argv

theorem stable_iff {policy : Option CommandPolicy} (h : deniedBy policy argv = false) :
    Stable policy argv ↔ ∀ d ∈ policy.elim [] CommandPolicy.deniedCommands,
      begins ' ' (executed argv) d = false := by
  have hDenied : ∀ argv', deniedBy policy argv' = false ↔
      ∀ d ∈ policy.elim [] CommandPolicy.deniedCommands, ¬ d <+: spaced argv' := by
    intro argv'
    rw [deniedBy, List.any_eq_false]
    exact forall₂_congr fun d _ => not_congr List.isPrefixOf_iff_prefix
  constructor
  · intro hStable d hd
    rw [Bool.eq_false_iff]
    intro hBegins
    obtain ⟨argv', hExecuted, hPrefix⟩ :=
      (SpacedWords.begins_iff (executed_ne_nil argv)).mp hBegins
    exact (hDenied argv').mp ((hStable argv' hExecuted).trans h) d hd hPrefix
  · intro hBegins argv' hExecuted
    rw [h, hDenied]
    intro d hd hPrefix
    have hTrue : begins ' ' (executed argv) d = true :=
      (SpacedWords.begins_iff (executed_ne_nil argv)).mpr ⟨argv', hExecuted, hPrefix⟩
    rw [hBegins d hd] at hTrue
    cases hTrue

variable {resolveWorkspaceRoot : Option Text → Option Path} {policy : Option CommandPolicy}

theorem accepted_of_allowed
    (h : (assertCommandAllowed resolveWorkspaceRoot policy argv).allowed = true) :
    deniedBy policy argv = false ∧ ∃ c, executed argv = c.bin :: c.args ∧
      Accepted (resolveWorkspaceRoot (policy.bind CommandPolicy.workspaceRoot)) c := by
  unfold assertCommandAllowed at h
  dsimp only at h
  by_cases hFamily : (classifyArgv argv).family = none
  · rw [if_pos hFamily] at h
    cases h
  rw [if_neg hFamily] at h
  cases hValid : validateArgv (resolveWorkspaceRoot (policy.bind CommandPolicy.workspaceRoot)) argv with
  | error e =>
    rw [hValid] at h
    cases h
  | ok c =>
    rw [hValid] at h
    dsimp only at h
    split_ifs at h with hDenied
    exact ⟨Bool.eq_false_iff.mpr hDenied, c, validateArgv_ok_iff.mp hValid⟩

/-- The paths of an admitted command stay in the workspace up to what the guard overlooks, its flags
move no root up to flags that the guard has no rule for, and its policy denies no vector that is
executed alike up to rules that blanks complete. -/
theorem admitted_confined_iff (resolveWorkspaceRoot : Option Text → Option Path)
    (policy : Option CommandPolicy) (argv : List Text)
    (h : (assertCommandAllowed resolveWorkspaceRoot policy argv).allowed = true)
    (isPath : Text → Prop) (rootFlags : List ToolFlag) :
    (Confined isPath (resolveWorkspaceRoot (policy.bind CommandPolicy.workspaceRoot))
        (executed argv).tail ↔
      Overlooked isPath (resolveWorkspaceRoot (policy.bind CommandPolicy.workspaceRoot))
        (executed argv).tail) ∧
    ((∀ flag ∈ rootFlags, uses flag (executed argv).tail = false) ↔
      ∀ flag ∈ rootFlags, listed flag = false → uses flag (executed argv).tail = false) ∧
    (Stable policy argv ↔ ∀ d ∈ policy.elim [] CommandPolicy.deniedCommands,
      begins ' ' (executed argv) d = false) := by
  obtain ⟨hDenied, c, hCommand, hAccepted⟩ := accepted_of_allowed h
  refine ⟨?_, ?_, stable_iff hDenied⟩
  · rw [hCommand]
    exact confined_iff_overlooked hAccepted.passed
  · rw [hCommand]
    constructor
    · exact fun hUnused flag hFlag _ => hUnused flag hFlag
    · intro hUnlisted flag hFlag
      cases hListed : listed flag with
      | false => exact hUnlisted flag hFlag hListed
      | true => exact uses_of_listed hAccepted.unredirected hListed

/-- A policy that denies `git push`. -/
def noPush : CommandPolicy where
  workspaceRoot := none
  deniedCommands := ["git push".toList]
  allowedCommands := []

/-- `cargo test --manifest-path=../Cargo.toml`. -/
def parentTest : List Text := ["cargo", "test", "--manifest-path=../Cargo.toml"].map String.toList

/-- `git push`, with an empty argument in between. -/
def spacedPush : List Text := ["git", "", "push"].map String.toList

theorem admitted_confined_spacedPush :
    (Confined (fun _ => True) (some [['w']]) ["push".toList] ↔
      Overlooked (fun _ => True) (some [['w']]) ["push".toList]) ∧
    ((∀ flag ∈ [("-C".toList, true)], uses flag ["push".toList] = false) ↔
      ∀ flag ∈ [("-C".toList, true)], listed flag = false → uses flag ["push".toList] = false) ∧
    (Stable (some noPush) spacedPush ↔ ∀ d ∈ ["git push".toList],
      begins ' ' ["git".toList, "push".toList] d = false) :=
  admitted_confined_iff (fun _ => some [['w']]) (some noPush) spacedPush (by decide +kernel) _ _

/-- A manifest outside the workspace is admitted, and a denied command with an empty argument. -/
theorem admitted_unconfined :
    ((assertCommandAllowed (fun _ => some [['w']]) (some noPush) parentTest).allowed = true ∧
      ¬ Confined (· = "../Cargo.toml".toList) (some [['w']]) (executed parentTest).tail ∧
      ¬ ∀ flag ∈ [("--manifest-path".toList, true)], uses flag (executed parentTest).tail = false) ∧
    (assertCommandAllowed (fun _ => some [['w']]) (some noPush) spacedPush).allowed = true ∧
      ¬ Stable (some noPush) spacedPush := by
  refine ⟨⟨by decide +kernel, ?_, by decide +kernel⟩, by decide +kernel, ?_⟩
  · intro h
    have hValue : valueOf "--manifest-path=../Cargo.toml".toList = some "../Cargo.toml".toList := by
      decide +kernel
    exact ((h _ (by decide +kernel)).2 _ hValue rfl).undotted (by decide +kernel)
  · intro h
    have hDenied := h (["git", "push"].map String.toList) (by decide +kernel)
    revert hDenied
    decide +kernel

end OrchestraAI.Execution.CommandGuard
