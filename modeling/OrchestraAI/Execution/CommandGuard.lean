import OrchestraAI.Library.SpacedWords
import OrchestraAI.Recovery.ToolEffects
import OrchestraAI.Sandbox.ProtocolAgreement

/-! # The command guard

`execution/command-guard.js`: the checks of an argument vector, the family of a command and the gate
of the policy. Beside it `validateCommandArgs` of `execution/environment.js`, which writes most of
the checks out again.
-/

namespace OrchestraAI.Execution.CommandGuard

open Text (isSpace codeUnitCount sliceUnits)
open TextReplace (includes)
open Sandbox (SHELL_META isWordChar assignsVariable endsFlag)
open Recovery (RiskLevel)

def MAX_ARGS : Nat := 20
def MAX_ARG_LEN : Nat := 500

def denied (reason : Text) : FsError := ⟨reason, "denied"⟩

/-- `a.split(/[\\/]/)`. -/
def segments (a : Text) : List Text := a.splitOnP fun c => c = '\\' || c = '/'

def isAbsolute (a : Text) : Bool := a.head? = some '/'

/-- The check of an argument with a separator; no path is looked at when the root is unknown. -/
def checkPath (ws : Option Path) (a : Text) : Except FsError Unit :=
  if '/' ∉ a then .ok ()
  else if ['.', '.'] ∈ segments a then
    .error (denied "path traversal is not allowed in commands".toList)
  else if isAbsolute a ∧ ws.any (fun ws => !inside ws (resolve [] a)) then
    .error (denied "command path escapes workspace".toList)
  else .ok ()

def checkCharacters (shellMeta : Text) (ws : Option Path) (a : Text) : Except FsError Unit :=
  if '\x00' ∈ a ∨ '\n' ∈ a ∨ '\r' ∈ a then
    .error (denied "command argument contains control characters".toList)
  else if a.any (· ∈ shellMeta) then
    .error (denied ("command argument not allowed: ".toList ++ sliceUnits 60 a))
  else if assignsVariable a then
    .error (denied "environment assignments are not allowed in commands".toList)
  else checkPath ws a

def checkArg (ws : Option Path) (a : Text) : Except FsError Unit :=
  if a = [] then .error (denied "empty command argument".toList)
  else if MAX_ARG_LEN < codeUnitCount a then .error (denied "command argument too long".toList)
  else checkCharacters SHELL_META ws a

def BLOCKED_BINS : List Text :=
  ["sh", "bash", "zsh", "dash", "fish", "ksh", "powershell", "pwsh", "cmd", "cmd.exe", "curl", "wget",
    "nc", "ncat", "socat", "ssh", "scp", "ftp", "telnet", "ruby", "perl", "php", "lua", "r", "R",
    "java", "javac", "gradle", "mvn", "make", "cmake", "docker", "podman", "kubectl", "systemctl",
    "service", "sudo", "su", "chmod", "chown", "rm", "mv", "cp", "dd", "mkfs", "env", "export",
    "source", "eval", "exec", "xargs", "find"].map String.toList

def INLINE_CODE_FLAGS : List Text :=
  ["-c", "-e", "--eval", "--command", "-r", "--require"].map String.toList

/-- The flags of `WORKSPACE_REDIRECT_RES`, and whether only `=` or a blank may follow. -/
def redirectFlags : List (String × Bool) :=
  [("--prefix", false), ("--workspace", false), ("--workspaces", false), ("--node-options", true),
    ("--exec", false), ("--rootdir", true), ("--cache", false), ("--cache-dir", true),
    ("--userconfig", true), ("--global", false), ("--unsafe-perm", false), ("-p", false)]

def startsFlag (flag : String × Bool) (t : Text) : Bool :=
  flag.1.toList.isPrefixOf t && endsFlag flag.2 (t.drop flag.1.length).head?

def redirects (flags : List (String × Bool)) (line : Text) : Bool :=
  line.tails.any fun
    | c :: rest => isSpace c && flags.any fun flag => startsFlag flag rest
    | [] => false

def spaced (words : List Text) : Text := [' '].intercalate words

def containsSubstitution (t : Text) : Bool :=
  includes t "$(".toList || includes t "`".toList || includes t ['$', '\x7b']

/-- What `validateArgv` returns. -/
structure Command where
  bin : Text
  args : List Text
  deriving DecidableEq

def isBare (bin : Text) : Bool := bin.all fun c => c ≠ '/' && c ≠ '\\'

def pythonBins : List Text := ["python", "python3"].map String.toList

def inlineBins : List Text := ["node", "python", "python3", "pytest"].map String.toList

def checkFlags (bin : Text) (rest : List Text) : Except FsError Command :=
  let first := rest.headD []
  if containsSubstitution (spaced (bin :: rest)) then
    .error (denied "command substitution is not allowed".toList)
  else if bin = "node".toList ∧ first.head? = some '-' then
    .error (denied "node flags are not allowed; provide a workspace file path".toList)
  else if bin ∈ pythonBins ∧ (first = "-c".toList ∨ first = "--command".toList) then
    .error (denied "inline code execution is not allowed via python".toList)
  else if first ∈ INLINE_CODE_FLAGS ∧ bin ∈ inlineBins then
    .error (denied ("inline code flag not allowed: ".toList ++ first))
  else if redirects redirectFlags (' ' :: spaced rest) then
    .error (denied "workspace-redirecting flags are not allowed".toList)
  else .ok ⟨bin, rest⟩

def executed (argv : List Text) : List Text := argv.filter (· ≠ [])

/-- `ws` is what `resolveWorkspaceRoot` returns, if it returns. -/
def validateArgv (ws : Option Path) (argv : List Text) : Except FsError Command :=
  match executed argv with
  | [] => .error ⟨"empty command".toList, "bad_params"⟩
  | bin :: rest =>
    if bin = [] ∨ !isBare bin then
      .error (denied ("command binary must be a bare name: ".toList ++ sliceUnits 60 bin))
    else if bin ∈ BLOCKED_BINS then
      .error (denied ("interpreter/tool not allowlisted: ".toList ++ bin))
    else if MAX_ARGS < rest.length then .error (denied "too many command arguments".toList)
    else (rest.forM (checkArg ws)).bind fun _ => checkFlags bin rest

inductive Family
  | nodeTestFile
  | npmTest
  | pytest
  | cargoTest
  | goTest
  | gitReadonly
  | gitWrite
  deriving DecidableEq

def Family.name : Family → String
  | nodeTestFile => "node_test_file"
  | npmTest => "npm_test"
  | pytest => "pytest"
  | cargoTest => "cargo_test"
  | goTest => "go_test"
  | gitReadonly => "git_readonly"
  | gitWrite => "git_write"

structure Classification where
  family : Option Family
  risk : RiskLevel
  reason : Text
  deriving DecidableEq

/-- `/^run\s+(test|build|lint)$/`. -/
def runsScript (line : Text) : Bool :=
  line.take 3 = "run".toList &&
    (afterSpace (line.drop 3)).any (· ∈ ["test", "build", "lint"].map String.toList)

/-- `/^(npm|pip|pip3|yarn|pnpm|cargo|go)\b/` and `/install|add /`. -/
def installs (line : Text) : Bool :=
  ["npm", "pip", "pip3", "yarn", "pnpm", "cargo", "go"].any (fun bin => startsFlag (bin, false) line) &&
    (includes line "install".toList || includes line "add ".toList)

def classifyArgv (argv : List Text) : Classification :=
  match executed argv with
  | [] => ⟨none, .critical, "empty command".toList⟩
  | bin :: rest =>
    let first := rest.headD []
    let second := rest.tail.headD []
    if bin ∈ BLOCKED_BINS then
      ⟨none, .critical, "interpreter not allowlisted: ".toList ++ bin⟩
    else if bin = "node".toList ∧ first ≠ [] ∧ first.head? ≠ some '-' then
      ⟨some .nodeTestFile, .low, "node workspace file".toList⟩
    else if bin = "npm".toList ∧ (spaced rest = "test".toList ∨ runsScript (spaced rest)) then
      ⟨some .npmTest, .low, "npm test/build/lint".toList⟩
    else if bin = "pytest".toList ∨
        bin = "python".toList ∧ first = "-m".toList ∧ second = "pytest".toList then
      ⟨some .pytest, .low, "pytest".toList⟩
    else if bin = "python3".toList ∧ first = "-m".toList ∧ second = "pytest".toList then
      ⟨some .pytest, .low, "pytest".toList⟩
    else if bin = "cargo".toList ∧ first = "test".toList then
      ⟨some .cargoTest, .low, "cargo test".toList⟩
    else if bin = "go".toList ∧ first = "test".toList then
      ⟨some .goTest, .low, "go test".toList⟩
    else if bin = "git".toList ∧
        first ∈ ["status", "diff", "log", "branch", "show", "rev-parse"].map String.toList then
      ⟨some .gitReadonly, .low, "git read-only".toList⟩
    else if bin = "git".toList ∧ first ∈ ["add", "commit", "branch"].map String.toList then
      ⟨some .gitWrite, .medium, "git write".toList⟩
    else if bin = "git".toList ∧
        first ∈ ["push", "reset", "clean", "checkout"].map String.toList then
      ⟨some .gitWrite, .high, "git destructive".toList⟩
    else if installs (spaced (bin :: rest)) then
      ⟨none, .high, "package install is a separate capability".toList⟩
    else ⟨none, .critical, "command not allowlisted: ".toList ++ bin⟩

structure CommandPolicy where
  workspaceRoot : Option Text
  deniedCommands : List Text
  allowedCommands : List Text

structure Verdict extends Classification where
  allowed : Bool
  deriving DecidableEq

/-- `key` is the line of all arguments, the empty ones among them. -/
def deniedBy (policy : Option CommandPolicy) (argv : List Text) : Bool :=
  (policy.elim [] CommandPolicy.deniedCommands).any (·.isPrefixOf (spaced argv))

def listedBy (policy : Option CommandPolicy) (argv : List Text) (family : Option Family) : Bool :=
  let allowedList := policy.elim [] CommandPolicy.allowedCommands
  allowedList = [] || allowedList.any fun a =>
    a.isPrefixOf (spaced argv) || family.any (·.name.toList = a)

/-- `resolveWorkspaceRoot` is undefined where it throws. -/
def assertCommandAllowed (resolveWorkspaceRoot : Option Text → Option Path)
    (policy : Option CommandPolicy) (argv : List Text) : Verdict :=
  let classification := classifyArgv argv
  if classification.family = none then { classification with allowed := false }
  else
    match validateArgv (resolveWorkspaceRoot (policy.bind CommandPolicy.workspaceRoot)) argv with
    | .error e =>
      { family := classification.family, risk := .critical, reason := sliceUnits 200 e.message,
        allowed := false }
    | .ok _ =>
      if deniedBy policy argv then
        { classification with
          reason := "command denied by policy: ".toList ++ sliceUnits 120 (spaced argv)
          allowed := false }
      else if !listedBy policy argv classification.family then
        { classification with reason := "command not in policy allowlist".toList, allowed := false }
      else { classification with allowed := true }

/-- `SHELL_META` of `environment.js`. -/
def argMeta : Text := ";&|$`()\x7b\x7d<>*?!#~".toList

def checkCommandArg (ws : Option Path) (a : Text) : Except FsError Unit :=
  if a = [] ∨ 500 < codeUnitCount a then .error (denied "command argument too long".toList)
  else checkCharacters argMeta ws a

/-- The flags of the last check of `environment.js`. -/
def commandRedirectFlags : List (String × Bool) :=
  [("--prefix", false), ("--workspace", false), ("--workspaces", false), ("--node-options", true),
    ("--exec", false), ("--rootdir", true)]

def validateCommandArgs (bin : Text) (args : List Text) (ws : Option Path) : Except FsError Unit :=
  let first := args.headD []
  if 20 < args.length then .error (denied "too many command arguments".toList)
  else
    (args.forM (checkCommandArg ws)).bind fun _ =>
      if bin = "node".toList ∧ first.head? = some '-' then
        .error (denied "node flags are not allowed; provide a workspace file path".toList)
      else if bin = "python".toList ∧ (first = "-c".toList ∨ first = "--command".toList) then
        .error (denied "inline code execution is not allowed via python".toList)
      else if redirects commandRedirectFlags (' ' :: spaced args) then
        .error (denied "workspace-redirecting flags are not allowed".toList)
      else .ok ()

variable {ws : Option Path} {a bin : Text} {args argv : List Text} {c : Command}

structure Passed (ws : Option Path) (a : Text) : Prop where
  ne_nil : a ≠ []
  short : codeUnitCount a ≤ MAX_ARG_LEN
  controls : ¬ ('\x00' ∈ a ∨ '\n' ∈ a ∨ '\r' ∈ a)
  characters : a.any (· ∈ argMeta) = false
  assignment : assignsVariable a = false
  traversal : '/' ∈ a → ['.', '.'] ∉ segments a
  confined : ∀ w, ws = some w → isAbsolute a = true → inside w (resolve [] a) = true

theorem mem_of_isAbsolute (h : isAbsolute a = true) : '/' ∈ a :=
  List.mem_of_mem_head? (of_decide_eq_true h)

theorem checkPath_ok_iff : checkPath ws a = .ok () ↔ ('/' ∈ a → ['.', '.'] ∉ segments a) ∧
    ∀ w, ws = some w → isAbsolute a = true → inside w (resolve [] a) = true := by
  rw [checkPath]
  by_cases hSlash : '/' ∈ a
  · rw [if_neg (not_not.mpr hSlash)]
    split_ifs with hDots hOutside
    · exact iff_of_false nofun fun h => h.1 hSlash hDots
    · refine iff_of_false nofun fun h => ?_
      obtain ⟨w, rfl, hw⟩ := (Option.any_eq_true _ _).mp hOutside.2
      rw [h.2 w rfl hOutside.1] at hw
      cases hw
    · refine iff_of_true rfl ⟨fun _ => hDots, ?_⟩
      rintro w rfl hAbsolute
      by_contra hNot
      exact hOutside ⟨hAbsolute, by simpa using hNot⟩
  · rw [if_pos hSlash]
    exact iff_of_true rfl ⟨fun h => absurd h hSlash,
      fun _ _ h => absurd (mem_of_isAbsolute h) hSlash⟩

/-- The line ends that only the first of the two lists has are refused before it is read. -/
theorem any_shellMeta (h : ¬ ('\x00' ∈ a ∨ '\n' ∈ a ∨ '\r' ∈ a)) :
    a.any (· ∈ SHELL_META) = a.any (· ∈ argMeta) := by
  have hMeta : SHELL_META = argMeta ++ ['\n', '\r', '\x00'] := rfl
  rw [Bool.eq_iff_iff, List.any_eq_true, List.any_eq_true]
  constructor
  · rintro ⟨x, hx, hIn⟩
    refine ⟨x, hx, ?_⟩
    simp only [hMeta, List.mem_append, decide_eq_true_eq] at hIn ⊢
    obtain hIn | hIn := hIn
    · exact hIn
    · simp only [List.mem_cons, List.not_mem_nil, or_false] at hIn
      obtain rfl | rfl | rfl := hIn
      · exact absurd (.inr (.inl hx)) h
      · exact absurd (.inr (.inr hx)) h
      · exact absurd (.inl hx) h
  · rintro ⟨x, hx, hIn⟩
    refine ⟨x, hx, ?_⟩
    simp only [hMeta, List.mem_append, decide_eq_true_eq] at hIn ⊢
    exact .inl hIn

theorem checkCharacters_ok_iff {shellMeta : Text}
    (hMeta : ¬ ('\x00' ∈ a ∨ '\n' ∈ a ∨ '\r' ∈ a) →
      a.any (· ∈ shellMeta) = a.any (· ∈ argMeta)) (hNe : a ≠ [])
    (hShort : codeUnitCount a ≤ MAX_ARG_LEN) :
    checkCharacters shellMeta ws a = .ok () ↔ Passed ws a := by
  rw [checkCharacters]
  split_ifs with hControls hCharacters hAssigns
  · exact iff_of_false nofun fun h => h.controls hControls
  · refine iff_of_false nofun fun h => ?_
    rw [hMeta hControls, h.characters] at hCharacters
    cases hCharacters
  · refine iff_of_false nofun fun h => ?_
    rw [h.assignment] at hAssigns
    cases hAssigns
  · rw [checkPath_ok_iff]
    rw [hMeta hControls, Bool.not_eq_true] at hCharacters
    rw [Bool.not_eq_true] at hAssigns
    exact ⟨fun h => ⟨hNe, hShort, hControls, hCharacters, hAssigns, h.1, h.2⟩,
      fun h => ⟨h.traversal, h.confined⟩⟩

theorem checkArg_ok_iff : checkArg ws a = .ok () ↔ Passed ws a := by
  rw [checkArg]
  split_ifs with hEmpty hLong
  · exact iff_of_false nofun fun h => h.ne_nil hEmpty
  · exact iff_of_false nofun fun h => Nat.not_lt.mpr h.short hLong
  · exact checkCharacters_ok_iff any_shellMeta hEmpty (Nat.le_of_not_lt hLong)

theorem checkCommandArg_ok_iff : checkCommandArg ws a = .ok () ↔ Passed ws a := by
  rw [checkCommandArg]
  split_ifs with hLength
  · refine iff_of_false nofun fun h => ?_
    obtain hEmpty | hLong := hLength
    · exact h.ne_nil hEmpty
    · exact Nat.not_lt.mpr h.short hLong
  · rw [not_or] at hLength
    exact checkCharacters_ok_iff (fun _ => rfl) hLength.1 (Nat.le_of_not_lt hLength.2)

theorem bind_ok_iff {ε β : Type} {x : Except ε Unit} {f : Unit → Except ε β} {v : β} :
    x.bind f = .ok v ↔ x = .ok () ∧ f () = .ok v := by
  cases x with
  | error e => exact iff_of_false nofun fun h => nomatch h.1
  | ok u => exact ⟨fun h => ⟨rfl, h⟩, fun h => h.2⟩

theorem forM_ok_iff {α ε : Type} {f : α → Except ε Unit} {l : List α} :
    l.forM f = .ok () ↔ ∀ x ∈ l, f x = .ok () := by
  induction l with
  | nil => exact iff_of_true rfl nofun
  | cons x l ih =>
    rw [List.forall_mem_cons, ← ih]
    exact bind_ok_iff

structure FirstPasses (bin first : Text) : Prop where
  node : ¬ (bin = "node".toList ∧ first.head? = some '-')
  inline : ¬ (first ∈ INLINE_CODE_FLAGS ∧ bin ∈ inlineBins)

structure Accepted (ws : Option Path) (c : Command) : Prop where
  bare : isBare c.bin = true
  unblocked : c.bin ∉ BLOCKED_BINS
  few : c.args.length ≤ MAX_ARGS
  passed : ∀ a ∈ c.args, Passed ws a
  literal : containsSubstitution (spaced (c.bin :: c.args)) = false
  first : FirstPasses c.bin (c.args.headD [])
  unredirected : redirects redirectFlags (' ' :: spaced c.args) = false

theorem python_inline (hBin : bin ∈ pythonBins) (hFirst : a = "-c".toList ∨ a = "--command".toList) :
    a ∈ INLINE_CODE_FLAGS ∧ bin ∈ inlineBins := by
  have hSubset : pythonBins ⊆ inlineBins := by decide
  refine ⟨?_, hSubset hBin⟩
  obtain rfl | rfl := hFirst <;> decide

theorem checkFlags_ok_iff : checkFlags bin args = .ok c ↔
    c = ⟨bin, args⟩ ∧ containsSubstitution (spaced (bin :: args)) = false ∧
      FirstPasses bin (args.headD []) ∧ redirects redirectFlags (' ' :: spaced args) = false := by
  unfold checkFlags
  dsimp only
  split_ifs with hSubstitution hNode hPython hInline hRedirects
  · exact iff_of_false nofun fun h => nomatch hSubstitution.symm.trans h.2.1
  · exact iff_of_false nofun fun h => h.2.2.1.node hNode
  · exact iff_of_false nofun fun h => h.2.2.1.inline (python_inline hPython.1 hPython.2)
  · exact iff_of_false nofun fun h => h.2.2.1.inline hInline
  · exact iff_of_false nofun fun h => nomatch hRedirects.symm.trans h.2.2.2
  · rw [Bool.not_eq_true] at hSubstitution hRedirects
    constructor
    · rintro ⟨⟩
      exact ⟨rfl, hSubstitution, ⟨hNode, hInline⟩, hRedirects⟩
    · rintro ⟨rfl, -⟩
      rfl

theorem executed_ne_nil (argv : List Text) : ∀ a ∈ executed argv, a ≠ [] :=
  fun _ h => by simpa using (List.mem_filter.mp h).2

theorem validateArgv_ok_iff :
    validateArgv ws argv = .ok c ↔ executed argv = c.bin :: c.args ∧ Accepted ws c := by
  have hExecuted := executed_ne_nil argv
  unfold validateArgv
  split
  · next hNil =>
    rw [hNil]
    refine iff_of_false ?_ fun h => List.cons_ne_nil _ _ h.1.symm
    rintro ⟨⟩
  · next bin rest hCons =>
    rw [hCons] at hExecuted ⊢
    have hBin : bin ≠ [] := hExecuted bin List.mem_cons_self
    split_ifs with hBare hBlocked hMany
    · refine iff_of_false not_false ?_
      rintro ⟨⟨⟩, h⟩
      obtain hNil | hBare := hBare
      · exact hBin hNil
      · rw [h.bare] at hBare
        cases hBare
    · refine iff_of_false not_false ?_
      rintro ⟨⟨⟩, h⟩
      exact h.unblocked hBlocked
    · refine iff_of_false not_false ?_
      rintro ⟨⟨⟩, h⟩
      exact Nat.not_lt.mpr h.few hMany
    · rw [bind_ok_iff, forM_ok_iff, checkFlags_ok_iff]
      constructor
      · rintro ⟨hPassed, rfl, hLiteral, hFirst, hRedirects⟩
        refine ⟨rfl, by simpa [hBin] using hBare, hBlocked, Nat.le_of_not_lt hMany, ?_, hLiteral,
          hFirst, hRedirects⟩
        exact fun a ha => checkArg_ok_iff.mp (hPassed a ha)
      · rintro ⟨⟨⟩, h⟩
        exact ⟨fun a ha => checkArg_ok_iff.mpr (h.passed a ha), rfl, h.literal, h.first,
          h.unredirected⟩

theorem validateCommandArgs_ok_iff : validateCommandArgs bin args ws = .ok () ↔
    args.length ≤ MAX_ARGS ∧ (∀ a ∈ args, Passed ws a) ∧
      ¬ (bin = "node".toList ∧ (args.headD []).head? = some '-') ∧
      ¬ (bin = "python".toList ∧
        (args.headD [] = "-c".toList ∨ args.headD [] = "--command".toList)) ∧
      redirects commandRedirectFlags (' ' :: spaced args) = false := by
  have hPassed : (∀ a ∈ args, checkCommandArg ws a = .ok ()) ↔ ∀ a ∈ args, Passed ws a :=
    forall₂_congr fun _ _ => checkCommandArg_ok_iff
  unfold validateCommandArgs
  dsimp only
  rw [← hPassed, ← forM_ok_iff]
  split_ifs with hMany hNode hPython hRedirects
  · exact iff_of_false nofun fun h => Nat.not_lt.mpr h.1 hMany
  · rw [bind_ok_iff]
    exact iff_of_false (fun h => nomatch h.2) fun h => h.2.2.1 hNode
  · rw [bind_ok_iff]
    exact iff_of_false (fun h => nomatch h.2) fun h => h.2.2.2.1 hPython
  · rw [bind_ok_iff]
    exact iff_of_false (fun h => nomatch h.2) fun h => nomatch hRedirects.symm.trans h.2.2.2.2
  · rw [Bool.not_eq_true] at hRedirects
    rw [bind_ok_iff]
    exact ⟨fun h => ⟨Nat.le_of_not_lt hMany, h.1, hNode, hPython, hRedirects⟩,
      fun h => ⟨h.2.1, rfl⟩⟩

end OrchestraAI.Execution.CommandGuard
