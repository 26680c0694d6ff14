import Mathlib.Tactic.Linarith
import OrchestraAI.Sandbox.Protocol

/-! # Agreement of the client and the worker

The two sides have the same rules for paths and the same limits on numbers of files, and the
worker's answers keep to every check of the client except one: the client reads one megabyte.
-/

namespace OrchestraAI.Sandbox

open OrchestraAI.Execution (Path)

theorem exists_map_ok {ε α β : Type} {x : Except ε α} {g : α → β} :
    (∃ v, x.map g = .ok v) ↔ ∃ a, x = .ok a := by
  cases x with
  | error e => exact iff_of_false (fun h => nomatch h) fun h => nomatch h
  | ok a => exact iff_of_true ⟨_, rfl⟩ ⟨a, rfl⟩

theorem exists_bind_ok {ε α β : Type} {x : Except ε α} {g : α → Except ε β} :
    (∃ v, x.bind g = .ok v) ↔ ∃ a, x = .ok a ∧ ∃ v, g a = .ok v := by
  cases x with
  | error e => exact iff_of_false (fun h => nomatch h) fun h => nomatch h
  | ok a =>
    constructor
    · exact fun h => ⟨a, rfl, h⟩
    · rintro ⟨_, ⟨⟩, h⟩
      exact h

section Requests

variable {decode : Text → Bytes} {numeral : ℚ → Numeral} {b : Body}

theorem client_path_iff {p norm : Text} :
    Client.assertWorkspaceRelPath p = .ok norm ↔ assertWorkspaceRelPath p = .ok norm := by
  unfold Client.assertWorkspaceRelPath assertWorkspaceRelPath
  dsimp only
  split_ifs <;> simp

theorem mapM_ok_of_ok {α β ε ε' : Type} {f : α → Except ε β} {g : α → Except ε' β}
    (hStep : ∀ a b, f a = .ok b → g a = .ok b) {l : List α} {bs : List β}
    (h : l.mapM f = .ok bs) : l.mapM g = .ok bs := by
  induction l generalizing bs with
  | nil =>
    cases h
    rfl
  | cons a l ih =>
    rw [List.mapM_cons] at h ⊢
    cases hFirst : f a with
    | error e =>
      rw [hFirst] at h
      cases h
    | ok b =>
      cases hRest : l.mapM f with
      | error e =>
        rw [hFirst, hRest] at h
        cases h
      | ok rest =>
        rw [hFirst, hRest] at h
        cases h
        rw [hStep a b hFirst, ih hRest]
        rfl

theorem collect_accepted {collect : List Text} (h : Client.validateCollect collect = .ok ()) :
    ∃ norms, validateCollect collect = .ok norms := by
  unfold Client.validateCollect at h
  unfold validateCollect
  split at h
  · cases h
  · rename_i hFew
    rw [if_neg hFew]
    cases hNorms : collect.mapM Client.assertWorkspaceRelPath with
    | error e =>
      rw [hNorms] at h
      cases h
    | ok norms => exact ⟨norms, mapM_ok_of_ok (fun _ _ => client_path_iff.mp) hNorms⟩

theorem validateFiles_cons (decode : Text → Bytes) (total : Nat) (f : Text × Text)
    (files : List (Text × Text)) : validateFiles decode total (f :: files) =
      (assertWorkspaceRelPath f.1).bind fun rel =>
        if !f.2.all isBase64 then
          .error (badParams "workspace file content must be base64")
        else if WS_MAX_FILE_BYTES < (decode f.2).length then
          .error (denied ("workspace file too large: " ++ String.ofList (Text.sliceUnits 80 rel)))
        else if WS_MAX_TOTAL_BYTES < total + (decode f.2).length then
          .error (denied "workspace snapshot exceeds total byte cap")
        else (validateFiles decode (total + (decode f.2).length) files).map
          (⟨rel, decode f.2⟩ :: ·) := by
  rw [validateFiles]
  cases assertWorkspaceRelPath f.1 with
  | error e => rfl
  | ok rel =>
    dsimp only [bind, Except.bind]
    cases f.2.all isBase64 with
    | false => rfl
    | true =>
      by_cases hFile : WS_MAX_FILE_BYTES < (decode f.2).length
      · simp only [if_pos hFile]
        rfl
      · simp only [if_neg hFile]
        by_cases hTotal : WS_MAX_TOTAL_BYTES < total + (decode f.2).length
        · simp only [if_pos hTotal]
          rfl
        · simp only [if_neg hTotal]
          cases validateFiles decode (total + (decode f.2).length) files <;> rfl

theorem client_files_cons {total : Nat} {f : Text × Text} {files : List (Text × Text)}
    (h : Client.validateFiles total (f :: files) = .ok ()) :
    (∃ rel, assertWorkspaceRelPath f.1 = .ok rel) ∧ f.2.all isBase64 = true ∧
      Client.validateFiles (total + f.2.length) files = .ok () := by
  rw [Client.validateFiles] at h
  cases hPath : Client.assertWorkspaceRelPath f.1 with
  | error e =>
    rw [hPath] at h
    cases h
  | ok rel =>
    rw [hPath] at h
    dsimp only [Except.bind] at h
    split_ifs at h with hText hFile hTotal
    exact ⟨⟨rel, client_path_iff.mp hPath⟩, by simpa using hText, h⟩

/-- Of the files that the client sends, the worker refuses those that are too large for it. -/
theorem files_accepted_iff {files : List (Text × Text)} {sent total : Nat}
    (hSent : Client.validateFiles sent files = .ok ()) (hTotal : total ≤ WS_MAX_TOTAL_BYTES) :
    (∃ out, validateFiles decode total files = .ok out) ↔
      (∀ f ∈ files, (decode f.2).length ≤ WS_MAX_FILE_BYTES) ∧
        total + (files.map fun f => (decode f.2).length).sum ≤ WS_MAX_TOTAL_BYTES := by
  induction files generalizing sent total with
  | nil =>
    refine iff_of_true ⟨[], rfl⟩ ⟨fun _ h => (List.not_mem_nil h).elim, ?_⟩
    exact hTotal
  | cons f files ih =>
    obtain ⟨⟨rel, hPath⟩, hText, hRest⟩ := client_files_cons hSent
    rw [validateFiles_cons, hPath, hText, List.forall_mem_cons, List.map_cons, List.sum_cons,
      ← Nat.add_assoc]
    dsimp only [Except.bind]
    rw [if_neg (by decide)]
    split_ifs with hFile hSum
    · exact iff_of_false (fun h => nomatch h) fun h => Nat.not_le.mpr hFile h.1.1
    · refine iff_of_false (fun h => nomatch h) fun h => ?_
      exact Nat.not_le.mpr hSum (Nat.le_of_add_right_le h.2)
    · rw [exists_map_ok, ih hRest (Nat.not_lt.mp hSum), and_iff_right (Nat.not_lt.mp hFile)]

theorem looksSecret_mono {words words' : List String} (h : words ⊆ words') {key : String}
    (hKey : looksSecret words' key = false) : looksSecret words key = false := by
  rw [looksSecret, List.any_eq_false] at hKey ⊢
  exact fun word hWord => hKey word (h hWord)

theorem findSecretKeys_mono {words words' : List String} (h : words ⊆ words') {levels : Nat}
    {v : Json} (hNone : findSecretKeys words' levels v = []) : findSecretKeys words levels v = [] := by
  induction levels generalizing v with
  | zero => cases v <;> rfl
  | succ levels ih =>
    cases v with
    | obj fields =>
      rw [findSecretKeys, List.dedup_eq_nil, List.flatMap_eq_nil_iff] at hNone ⊢
      intro f hf
      obtain ⟨hKey, hValue⟩ := List.append_eq_nil_iff.mp (hNone f hf)
      have hPlain : looksSecret words' f.1 = false := by
        cases hLooks : looksSecret words' f.1 with
        | false => rfl
        | true =>
          rw [hLooks] at hKey
          cases hKey
      rw [looksSecret_mono h hPlain, ih hValue]
      rfl
    | arr elems =>
      rw [findSecretKeys, List.dedup_eq_nil, List.flatMap_eq_nil_iff] at hNone ⊢
      exact fun e he => ih (hNone e he)
    | _ => rfl

structure Sent (numeral : ℚ → Numeral) (b : Body) : Prop where
  runId : b.runId ≠ []
  command : b.command ≠ []
  timeoutMs : 0 < b.timeoutMs
  maxOutputBytes : 0 < b.maxOutputBytes
  networkMode : b.networkMode ∈ Client.networkModes
  secrets : findSecretKeys secretEnvWords 5 (b.json numeral) = []
  workspace : b.workspace.elim (.ok ()) Client.validateWorkspaceSnapshot = .ok ()
  collect : b.collect.elim (.ok ()) Client.validateCollect = .ok ()

theorem sent_of_ok (h : Client.validateExecuteRequest numeral b = .ok ()) : Sent numeral b := by
  unfold Client.validateExecuteRequest at h
  dsimp only at h
  split_ifs at h with hRun hCommand hTimeout hOutput hMode hHost hSecrets
  obtain ⟨_, hWorkspace, hCollect⟩ := exists_bind_ok.mp ⟨_, h⟩
  refine ⟨hRun, hCommand, hTimeout, hOutput, hMode, not_ne_iff.mp hSecrets, hWorkspace, ?_⟩
  exact hCollect.choose_spec

/-- What the worker asks for beyond the checks of the client. -/
structure WorkerTakes (decode : Text → Bytes) (numeral : ℚ → Numeral) (b : Body) : Prop where
  size : (b.json numeral).byteSize ≤ MAX_BODY_BYTES
  command : validateCommand b.command b.args = .ok ()
  networkMode : b.networkMode ≠ "enabled".toList
  files : ∀ files ∈ b.workspace, ∀ f ∈ files, (decode f.2).length ≤ WS_MAX_FILE_BYTES
  total : ∀ files ∈ b.workspace,
    (files.map fun f => (decode f.2).length).sum ≤ WS_MAX_TOTAL_BYTES

theorem workspace_accepted_iff (h : Sent numeral b) :
    (∃ out, b.workspace.elim (.ok []) (validateWorkspaceSnapshot decode) = .ok out) ↔
      (∀ files ∈ b.workspace, ∀ f ∈ files, (decode f.2).length ≤ WS_MAX_FILE_BYTES) ∧
      ∀ files ∈ b.workspace,
        (files.map fun f => (decode f.2).length).sum ≤ WS_MAX_TOTAL_BYTES := by
  have hClient := h.workspace
  cases hWorkspace : b.workspace with
  | none => exact iff_of_true ⟨[], rfl⟩ ⟨fun _ h => (nomatch h), fun _ h => (nomatch h)⟩
  | some files =>
    rw [hWorkspace, Option.elim_some, Client.validateWorkspaceSnapshot] at hClient
    split_ifs at hClient with hCount
    have hFiles : (∃ out, validateFiles decode 0 files = .ok out) ↔ _ :=
      files_accepted_iff hClient (Nat.zero_le _)
    rw [Nat.zero_add] at hFiles
    rw [Option.elim_some, validateWorkspaceSnapshot,
      if_neg (show ¬ WS_MAX_FILES < files.length from hCount), hFiles]
    simp only [Option.mem_some_iff, forall_eq']

theorem collect_elim_accepted (h : Sent numeral b) :
    ∃ norms, b.collect.elim (.ok []) validateCollect = .ok norms := by
  have hClient := h.collect
  cases hCollect : b.collect with
  | none => exact ⟨[], rfl⟩
  | some collect =>
    rw [hCollect] at hClient
    exact collect_accepted hClient

theorem networkMode_kept (h : Sent numeral b) :
    textOr (some b.networkMode) "disabled" = b.networkMode := by
  have hNonempty : b.networkMode ≠ [] := by
    rintro hNil
    exact absurd (hNil ▸ h.networkMode) (by decide)
  rw [textOr, orNull, Option.filter_some, if_pos (by simpa using hNonempty), Option.getD_some]

theorem secrets_none (h : Sent numeral b) :
    ¬ findSecretKeys secretKeyWords 5 (b.json numeral) ≠ [] :=
  not_ne_iff.mpr (findSecretKeys_mono (List.subset_append_left _ _) h.secrets)

theorem receive_of_takes (h : Sent numeral b) (hTakes : WorkerTakes decode numeral b) :
    b.receive decode numeral =
      (validateRequest decode b.workspace b.collect).map b.validated := by
  unfold Body.receive Body.validateRequest
  dsimp only
  rw [if_neg (Nat.not_lt.mpr hTakes.size), if_neg h.runId, if_neg h.command,
    if_neg (secrets_none h), hTakes.command, networkMode_kept h, if_neg (not_not.mpr h.networkMode)]
  dsimp only [Except.bind]
  rw [if_neg hTakes.networkMode]

theorem receive_ok_iff (h : Sent numeral b) :
    (∃ v, b.receive decode numeral = .ok v) ↔ WorkerTakes decode numeral b := by
  constructor
  · intro hAccepted
    unfold Body.receive Body.validateRequest at hAccepted
    dsimp only at hAccepted
    rw [if_neg h.runId, if_neg h.command, if_neg (secrets_none h), networkMode_kept h,
      if_neg (not_not.mpr h.networkMode)] at hAccepted
    split_ifs at hAccepted with hSize hMode
    · exact nomatch hAccepted
    · obtain ⟨-, -, hNone⟩ := exists_bind_ok.mp hAccepted
      exact nomatch hNone
    · obtain ⟨_, hCommand, hRest⟩ := exists_bind_ok.mp hAccepted
      obtain ⟨files, hFiles, -⟩ := exists_bind_ok.mp (exists_map_ok.mp hRest)
      obtain ⟨hEach, hTotal⟩ := (workspace_accepted_iff h).mp ⟨files, hFiles⟩
      exact ⟨Nat.not_lt.mp hSize, hCommand, hMode, hEach, hTotal⟩
  · intro hTakes
    rw [receive_of_takes h hTakes]
    obtain ⟨files, hFiles⟩ := (workspace_accepted_iff h).mpr ⟨hTakes.files, hTakes.total⟩
    obtain ⟨collect, hCollect⟩ := collect_elim_accepted h
    exact exists_map_ok.mpr
      (exists_bind_ok.mpr ⟨files, hFiles, exists_map_ok.mpr ⟨collect, hCollect⟩⟩)

end Requests

section Responses

variable {decode : Text → Bytes} {numeral : ℚ → Numeral} {b : Body} {v : Validated}

def slashed (p : Text) : Text := p.map fun c => if c = '\\' then '/' else c

theorem slashed_idem (p : Text) : slashed (slashed p) = slashed p := by
  rw [slashed, slashed, List.map_map]
  apply List.map_congr_left
  intro c _
  obtain rfl | hOther := eq_or_ne c '\\'
  · decide
  · simp only [Function.comp_apply, if_neg hOther]

theorem slashed_units (p : Text) : (codeUnits (String.ofList (slashed p))).length =
    (codeUnits (String.ofList p)).length := by
  simp only [codeUnits, slashed, String.toList_ofList, List.flatMap_map, List.length_flatMap]
  congr 1
  apply List.map_congr_left
  intro c _
  obtain rfl | hOther := eq_or_ne c '\\'
  · decide
  · rw [if_neg hOther]

theorem mem_slashed {p : Text} {c : Char} (hc : c ≠ '/') (h : c ∈ slashed p) : c ∈ p := by
  obtain ⟨d, hd, hSame⟩ := List.mem_map.mp h
  split_ifs at hSame
  · exact absurd hSame.symm hc
  · exact hSame ▸ hd

theorem assertWorkspaceRelPath_eq (p : Text) : assertWorkspaceRelPath p =
    if p = [] ∨ 500 < (codeUnits (String.ofList p)).length then
      .error (denied "bad workspace path length")
    else if '\x00' ∈ p ∨ '\n' ∈ p ∨ '\r' ∈ p then
      .error (denied "control characters are not allowed in workspace paths")
    else if (slashed p).head? = some '/' ∨ startsWithDrive (slashed p) = true then
      .error (denied "workspace paths must be relative")
    else if ['.', '.'] ∈ (slashed p).splitOn '/' then
      .error (denied "path traversal is not allowed in workspace paths")
    else .ok (slashed p) := rfl

theorem assertWorkspaceRelPath_idem {p norm : Text} (h : assertWorkspaceRelPath p = .ok norm) :
    assertWorkspaceRelPath norm = .ok norm := by
  rw [assertWorkspaceRelPath_eq] at h
  split_ifs at h with hLength hControl hRelative hTraversal
  obtain rfl : slashed p = norm := Except.ok.inj h
  have hUnits : ¬ (slashed p = [] ∨ 500 < (codeUnits (String.ofList (slashed p))).length) := by
    rwa [slashed_units, slashed, List.map_eq_nil_iff]
  have hPlain : ¬ ('\x00' ∈ slashed p ∨ '\n' ∈ slashed p ∨ '\r' ∈ slashed p) := by
    refine mt ?_ hControl
    apply Or.imp (mem_slashed (by decide))
    exact Or.imp (mem_slashed (by decide)) (mem_slashed (by decide))
  rw [assertWorkspaceRelPath_eq, slashed_idem, if_neg hUnits, if_neg hPlain, if_neg hRelative,
    if_neg hTraversal]

theorem mapM_norms {collect norms : List Text}
    (h : collect.mapM assertWorkspaceRelPath = .ok norms) :
    norms.length = collect.length ∧ ∀ rel ∈ norms, assertWorkspaceRelPath rel = .ok rel := by
  induction collect generalizing norms with
  | nil =>
    cases h
    exact ⟨rfl, fun _ h => (List.not_mem_nil h).elim⟩
  | cons p collect ih =>
    rw [List.mapM_cons] at h
    cases hFirst : assertWorkspaceRelPath p with
    | error e =>
      rw [hFirst] at h
      cases h
    | ok rel =>
      cases hRest : collect.mapM assertWorkspaceRelPath with
      | error e =>
        rw [hFirst, hRest] at h
        cases h
      | ok rest =>
        rw [hFirst, hRest] at h
        cases h
        obtain ⟨hLength, hAll⟩ := ih hRest
        refine ⟨congrArg (· + 1) hLength, ?_⟩
        exact List.forall_mem_cons.mpr ⟨assertWorkspaceRelPath_idem hFirst, hAll⟩

theorem validateCollect_norms {collect norms : List Text}
    (h : validateCollect collect = .ok norms) :
    norms.length ≤ COLLECT_MAX_PATHS ∧
      ∀ rel ∈ norms, assertWorkspaceRelPath rel = .ok rel := by
  unfold validateCollect at h
  split_ifs at h with hFew
  obtain ⟨hLength, hAll⟩ := mapM_norms h
  exact ⟨hLength ▸ Nat.not_lt.mp hFew, hAll⟩

theorem artifactOf_path {dir : Path} {t : FileTree} {rel : Text} {a : Artifact}
    (h : artifactOf dir t rel = some a) : a.path = rel := by
  unfold artifactOf at h
  dsimp only at h
  split_ifs at h
  obtain ⟨size, -, h⟩ := Option.bind_eq_some_iff.mp h
  split_ifs at h
  obtain ⟨file, -, h⟩ := Option.bind_eq_some_iff.mp h
  split_ifs at h
  cases h
  rfl

structure Bounded (total : Nat) (collect : List Text) (as : List Artifact) : Prop where
  length : as.length ≤ collect.length
  paths : ∀ a ∈ as, a.path ∈ collect
  bytes : total + (as.map fun a => a.content.length).sum ≤ COLLECT_MAX_TOTAL_BYTES

theorem collectArtifacts_bounded (dir : Path) (t : FileTree) {total : Nat} (collect : List Text)
    (hTotal : total ≤ COLLECT_MAX_TOTAL_BYTES) :
    Bounded total collect (collectArtifacts dir t total collect) := by
  induction collect generalizing total with
  | nil => exact ⟨Nat.le_refl 0, fun _ h => (List.not_mem_nil h).elim, hTotal⟩
  | cons rel collect ih =>
    rw [collectArtifacts]
    cases hFound : artifactOf dir t rel with
    | none =>
      have hRest := ih hTotal
      exact ⟨hRest.length.trans (Nat.le_succ _),
        fun a ha => List.mem_cons_of_mem rel (hRest.paths a ha), hRest.bytes⟩
    | some a =>
      dsimp only
      split_ifs with hFull
      · exact ⟨Nat.zero_le _, fun _ h => (List.not_mem_nil h).elim, hTotal⟩
      · have hRest := ih (Nat.not_lt.mp hFull)
        refine ⟨Nat.succ_le_succ hRest.length, ?_, ?_⟩
        · intro b hb
          obtain rfl | hb := List.mem_cons.mp hb
          · exact artifactOf_path hFound ▸ List.mem_cons_self
          · exact List.mem_cons_of_mem rel (hRest.paths b hb)
        · rw [List.map_cons, List.sum_cons, ← Nat.add_assoc]
          exact hRest.bytes

theorem isBase64_encode (bs : Bytes) : (Base64.encode bs).all isBase64 = true := by
  rw [List.all_eq_true]
  intro c hc
  obtain rfl | hc := Base64.mem_encode hc
  · decide
  · exact List.all_eq_true.mp (by decide : Base64.alphabet.all isBase64 = true) c hc

theorem sum_encode (l : List Bytes) : 3 * (l.map fun bs => (Base64.encode bs).length).sum ≤
    4 * (l.map List.length).sum + 8 * l.length := by
  induction l with
  | nil => exact Nat.le_refl 0
  | cons bs l ih =>
    simp only [List.map_cons, List.sum_cons, List.length_cons, Base64.length_encode] at ih ⊢
    omega

theorem validateArtifacts_ok {l : List (Text × Text)} {total : Nat}
    (hPaths : ∀ a ∈ l, assertWorkspaceRelPath a.1 = .ok a.1)
    (hText : ∀ a ∈ l, a.2.all isBase64 = true)
    (hBytes : 3 * (total + (l.map fun a => a.2.length).sum) ≤ 4 * COLLECT_MAX_TOTAL_BYTES + 3072) :
    Client.validateArtifacts total l = .ok () := by
  induction l generalizing total with
  | nil => rfl
  | cons a l ih =>
    obtain ⟨hPath, hPaths⟩ := List.forall_mem_cons.mp hPaths
    obtain ⟨hFirst, hText⟩ := List.forall_mem_cons.mp hText
    rw [List.map_cons, List.sum_cons, ← Nat.add_assoc] at hBytes
    have hCap : ¬ (COLLECT_MAX_TOTAL_BYTES : ℚ) * 4 / 3 + 1024 < (total + a.2.length : Nat) := by
      have hNat : 3 * (total + a.2.length) ≤ 4 * COLLECT_MAX_TOTAL_BYTES + 3072 := by omega
      have hRat : (3 : ℚ) * (total + a.2.length : Nat) ≤ 4 * COLLECT_MAX_TOTAL_BYTES + 3072 := by
        exact_mod_cast hNat
      linarith
    rw [Client.validateArtifacts, client_path_iff.mpr hPath]
    dsimp only [Except.bind]
    rw [hFirst, if_neg (by simp), if_neg hCap]
    exact ih hPaths hText hBytes

mutual

theorem length_manifestEntries {out : List ManifestEntry} (rel : Text)
    (entries : List (Text × Node)) (h : out.length ≤ MANIFEST_MAX_ENTRIES) :
    (manifestEntries out rel entries).length ≤ MANIFEST_MAX_ENTRIES := by
  cases entries with
  | nil => exact h
  | cons entry entries =>
    obtain ⟨name, node⟩ := entry
    rw [manifestEntries]
    split_ifs with hFull
    · exact h
    · apply length_manifestEntries
      exact length_manifestNode _ node (Nat.not_le.mp hFull)

theorem length_manifestNode {out : List ManifestEntry} (relPath : Text) (node : Node)
    (h : out.length < MANIFEST_MAX_ENTRIES) :
    (manifestNode out relPath node).length ≤ MANIFEST_MAX_ENTRIES := by
  cases node with
  | dir entries => exact length_manifestEntries relPath entries h.le
  | _ =>
    rw [manifestNode, List.length_append]
    exact h

end

theorem validateExecuteResponse_ok (hLength : v.request.collect.length ≤ COLLECT_MAX_PATHS)
    (hNorms : ∀ rel ∈ v.request.collect, assertWorkspaceRelPath rel = .ok rel) (e : Ended) :
    Client.validateExecuteResponse (v.respond e) = .ok () := by
  have hBounded := collectArtifacts_bounded e.dir e.left v.request.collect (Nat.zero_le _)
  have hArtifacts : ¬ COLLECT_MAX_PATHS < (v.respond e).artifacts.length := by
    apply Nat.not_lt.mpr
    exact (List.length_map ..).trans_le (hBounded.length.trans hLength)
  have hValid : Client.validateArtifacts 0
      ((v.respond e).artifacts.map fun a => (a.1, Base64.encode a.2)) = .ok () := by
    apply validateArtifacts_ok
    · intro a ha
      obtain ⟨_, hMem, rfl⟩ := List.mem_map.mp ha
      obtain ⟨found, hFound, rfl⟩ := List.mem_map.mp hMem
      exact hNorms found.path (hBounded.paths found hFound)
    · intro a ha
      obtain ⟨_, -, rfl⟩ := List.mem_map.mp ha
      exact isBase64_encode _
    · have hSum := sum_encode ((collectArtifacts e.dir e.left 0 v.request.collect).map
        Artifact.content)
      have hBytes := hBounded.bytes
      have hCount := hBounded.length.trans hLength
      simp only [Validated.respond, List.map_map, Function.comp_def, List.length_map] at hSum ⊢
      have hPaths : COLLECT_MAX_PATHS = 20 := rfl
      omega
  have hManifest : ¬ 200 < (v.respond e).workspaceManifest.length := by
    have hEntries : (manifestEntries [] [] e.entries).length ≤ MANIFEST_MAX_ENTRIES :=
      length_manifestEntries [] e.entries (Nat.zero_le _)
    exact Nat.not_lt.mpr (hEntries.trans (by decide))
  have hIsolated : ¬ (v.respond e).isolated ≠ true := fun h => h rfl
  rw [Client.validateExecuteResponse, if_neg hIsolated, if_neg hArtifacts, hValid]
  dsimp only [Except.bind]
  rw [if_neg hManifest]

end Responses

section Crowd

def nest (entries : List (Text × Node)) : List Text → List (Text × Node)
  | [] => entries
  | d :: ds => [(d, .dir (nest entries ds))]

theorem manifestEntries_nest {out : List ManifestEntry} (h : out.length < MANIFEST_MAX_ENTRIES)
    (entries : List (Text × Node)) (rel : Text) (ds : List Text) :
    manifestEntries out rel (nest entries ds) =
      manifestEntries out (ds.foldl joinRel rel) entries := by
  induction ds generalizing rel with
  | nil => rfl
  | cons d ds ih =>
    rw [nest, manifestEntries, if_neg (Nat.not_le.mpr h), manifestNode, manifestEntries, ih]
    rfl

theorem manifestEntries_files {out : List ManifestEntry} (rel : Text) {names : List Text}
    (h : out.length + names.length ≤ MANIFEST_MAX_ENTRIES) :
    manifestEntries out rel (names.map fun name => (name, .file 0)) =
      out ++ names.map fun name => ⟨joinRel rel name, some 0⟩ := by
  induction names generalizing out with
  | nil => exact (List.append_nil out).symm
  | cons name names ih =>
    rw [List.length_cons] at h
    rw [List.map_cons, manifestEntries, if_neg (by omega), manifestNode, ih, List.append_assoc]
    · rfl
    · rw [List.length_append, List.length_singleton]
      omega

def escapedLength (t : Text) : Nat := (t.map fun c => (escapeChar c).length).sum

theorem escapedLength_joinRel (rel name : Text) :
    escapedLength rel + escapedLength name ≤ escapedLength (joinRel rel name) := by
  unfold joinRel
  split_ifs with hNil
  · rw [hNil]
    exact (Nat.zero_add _).le
  · simp only [escapedLength, List.map_append, List.map_cons, List.sum_append, List.sum_cons]
    omega

theorem escapedLength_foldl (rel : Text) (ds : List Text) :
    escapedLength rel + (ds.map escapedLength).sum ≤ escapedLength (ds.foldl joinRel rel) := by
  induction ds generalizing rel with
  | nil => exact Nat.le_refl _
  | cons d ds ih =>
    have hStep := escapedLength_joinRel rel d
    have hRest := ih (joinRel rel d)
    rw [List.map_cons, List.sum_cons, List.foldl_cons]
    omega

/-- A hundred files, each eight directories deep. A name has at most 250 characters, all of them
control characters. -/
def crowd : List (Text × Node) :=
  nest (((List.range 100).map fun n => List.replicate (n + 1) 'a').map fun name => (name, .file 0))
    (List.replicate 8 (List.replicate 250 '\x01'))

def crowdPath : Text := (List.replicate 8 (List.replicate 250 '\x01')).foldl joinRel []

theorem crowdPath_long : 12000 ≤ escapedLength crowdPath := by
  have hName : escapedLength (List.replicate 250 '\x01') = 1500 := by
    rw [escapedLength, List.map_replicate, List.sum_replicate]
    rfl
  have hPath := escapedLength_foldl [] (List.replicate 8 (List.replicate 250 '\x01'))
  rw [List.map_replicate, hName, List.sum_replicate] at hPath
  exact hPath

theorem manifest_crowd : manifestEntries [] [] crowd =
    ((List.range 100).map fun n => List.replicate (n + 1) 'a').map fun name =>
      ⟨joinRel crowdPath name, some 0⟩ := by
  rw [crowd, manifestEntries_nest (by decide), manifestEntries_files, List.nil_append]
  · rfl
  · simp only [List.length_map, List.length_range]
    decide

theorem size_entryJson (m : ManifestEntry) : escapedLength m.path ≤ (entryJson m).size := by
  have hField : (("path", textJson m.path) : String × Json) ∈
      [("path", textJson m.path), ("size", m.size.elim .null natJson)] := List.mem_cons_self
  have hText := Json.size_str (String.ofList m.path)
  rw [String.toList_ofList] at hText
  exact hText.trans (Json.size_le_size_obj hField)

theorem crowd_large {r : Response} (h : r.workspaceManifest = manifestEntries [] [] crowd) :
    Client.MAX_RESPONSE_BYTES < r.json.byteSize := by
  have hEntry : ∀ n ∈ (r.workspaceManifest.map entryJson).map Json.size, 12000 ≤ n := by
    intro n hn
    obtain ⟨entry, hEntry, rfl⟩ := List.mem_map.mp hn
    obtain ⟨m, hm, rfl⟩ := List.mem_map.mp hEntry
    rw [h, manifest_crowd] at hm
    obtain ⟨name, -, rfl⟩ := List.mem_map.mp hm
    have hLong : 12000 ≤ escapedLength (joinRel crowdPath name) :=
      crowdPath_long.trans ((Nat.le_add_right _ _).trans (escapedLength_joinRel crowdPath name))
    exact hLong.trans (size_entryJson ⟨joinRel crowdPath name, some 0⟩)
  have hCount : ((r.workspaceManifest.map entryJson).map Json.size).length = 100 := by
    rw [h, manifest_crowd]
    simp only [List.length_map, List.length_range]
  have hField : (("workspaceManifest", .arr (r.workspaceManifest.map entryJson)) : String × Json) ∈
      r.fields :=
    List.mem_of_mem_drop (i := 8) (List.mem_cons_of_mem _ List.mem_cons_self)
  have hSum := List.card_nsmul_le_sum _ 12000 hEntry
  rw [hCount] at hSum
  calc Client.MAX_RESPONSE_BYTES < 100 • 12000 := by decide
    _ ≤ ((r.workspaceManifest.map entryJson).map Json.size).sum := hSum
    _ ≤ (Json.arr (r.workspaceManifest.map entryJson)).size := Json.sum_le_size_arr _
    _ ≤ r.json.size := Json.size_le_size_obj hField
    _ ≤ r.json.byteSize := Json.size_le_byteSize _

end Crowd

section Agreement

variable {decode : Text → Bytes} {numeral : ℚ → Numeral} {r : ExecutionRequest} {b : Body}
  {v : Validated}

theorem accepted_request (hSent : Sent numeral b) (h : b.receive decode numeral = .ok v) :
    ∃ request, validateRequest decode b.workspace b.collect = .ok request ∧
      b.validated request = v := by
  rw [receive_of_takes hSent ((receive_ok_iff hSent).mp ⟨v, h⟩)] at h
  cases hRequest : validateRequest decode b.workspace b.collect with
  | error e =>
    rw [hRequest] at h
    cases h
  | ok request =>
    rw [hRequest] at h
    exact ⟨request, rfl, Except.ok.inj h⟩

theorem collect_norms {workspace : Option (List (Text × Text))} {collect : Option (List Text)}
    {request : Request} (h : validateRequest decode workspace collect = .ok request) :
    request.collect.length ≤ COLLECT_MAX_PATHS ∧
      ∀ rel ∈ request.collect, assertWorkspaceRelPath rel = .ok rel := by
  rw [validateRequest] at h
  cases hFiles : workspace.elim (.ok []) (validateWorkspaceSnapshot decode) with
  | error e =>
    rw [hFiles] at h
    cases h
  | ok files =>
    cases collect with
    | none =>
      rw [hFiles] at h
      cases h
      exact ⟨Nat.zero_le _, fun _ h => (List.not_mem_nil h).elim⟩
    | some collect =>
      rw [hFiles, Option.elim_some] at h
      cases hNorms : validateCollect collect with
      | error e =>
        rw [hNorms] at h
        cases h
      | ok norms =>
        rw [hNorms] at h
        cases h
        exact validateCollect_norms hNorms

theorem receive_response_iff (hSent : Sent numeral b) (h : b.receive decode numeral = .ok v)
    (e : Ended) : Client.receive (v.respond e) = .ok () ↔
      (v.respond e).json.byteSize ≤ Client.MAX_RESPONSE_BYTES := by
  obtain ⟨request, hRequest, rfl⟩ := accepted_request hSent h
  obtain ⟨hLength, hNorms⟩ := collect_norms hRequest
  unfold Client.receive
  split_ifs with hLarge
  · exact iff_of_false (fun h => nomatch h) (Nat.not_le.mpr hLarge)
  · exact iff_of_true (validateExecuteResponse_ok hLength hNorms e) (Nat.not_lt.mp hLarge)

theorem waits_iff (hSent : Sent numeral b) (h : b.receive decode numeral = .ok v)
    (hMost : b.timeoutMs ≤ 180000) : v.killMs ≤ Client.waitMs b ↔ b.timeoutMs ≤ 118000 := by
  have hNumber : numberOr (.value (some b.timeoutMs)) DEFAULT_TIMEOUT_MS = b.timeoutMs :=
    if_neg hSent.timeoutMs.ne'
  have hPos := hSent.timeoutMs
  obtain ⟨request, -, rfl⟩ := accepted_request hSent h
  rw [Validated.killMs, Body.validated, clamp, hNumber, Client.waitMs, MAX_TIMEOUT_MS]
  constructor
  · intro hWait
    have hLeft : b.timeoutMs ≤ min (max b.timeoutMs 1000) 180000 :=
      le_min (le_max_left _ _) hMost
    have hRight := hWait.trans (min_le_right _ _)
    linarith
  · intro hShort
    have hClamp : min (max b.timeoutMs 1000) 180000 ≤ max b.timeoutMs 1000 := min_le_left _ _
    have hMax : max b.timeoutMs 1000 ≤ 118000 := max_le hShort (by norm_num)
    have hSum : max b.timeoutMs 1000 ≤ b.timeoutMs + 3000 :=
      max_le (by linarith) (by linarith)
    refine le_min (le_min ?_ ?_) ?_ <;> linarith

/-- The worker accepts the request, the client accepts whatever the worker answers, and it waits for
as long as the worker may take. -/
structure Agrees (decode : Text → Bytes) (numeral : ℚ → Numeral) (b : Body) : Prop where
  accepted : ∃ v, b.receive decode numeral = .ok v
  answered : ∀ v, b.receive decode numeral = .ok v →
    ∀ e, Client.receive (v.respond e) = .ok ()
  awaited : ∀ v, b.receive decode numeral = .ok v → v.killMs ≤ Client.waitMs b

def crowded : Ended := ⟨[], LinkedTree.Tree.bare, crowd, none, [], [], 0⟩

theorem respond_manifest (v : Validated) (e : Ended) :
    (v.respond e).workspaceManifest = manifestEntries [] [] e.entries := rfl

/-- The two sides agree on no request: the list of the files that a command leaves may be too large
for the client. The worker accepts the requests that keep to its own caps, and the client waits long
enough for those that may take less than two minutes. -/
theorem executeIsolated_agreement
    (h : Client.validateExecuteRequest numeral r.body = .ok ()) :
    ¬ Agrees decode numeral r.body ∧
      ((∃ v, r.body.receive decode numeral = .ok v) ↔ WorkerTakes decode numeral r.body) ∧
      ∀ v, r.body.receive decode numeral = .ok v →
        (∀ e, Client.receive (v.respond e) = .ok () ↔
          (v.respond e).json.byteSize ≤ Client.MAX_RESPONSE_BYTES) ∧
        (∃ e, Client.MAX_RESPONSE_BYTES < (v.respond e).json.byteSize) ∧
        (v.killMs ≤ Client.waitMs r.body ↔ r.body.timeoutMs ≤ 118000) := by
  have hSent := sent_of_ok h
  have hCrowd (v : Validated) : ∃ e, Client.MAX_RESPONSE_BYTES < (v.respond e).json.byteSize :=
    ⟨crowded, crowd_large (respond_manifest v crowded)⟩
  refine ⟨fun hAgrees => ?_, receive_ok_iff hSent, fun v hv => ⟨?_, hCrowd v, ?_⟩⟩
  · obtain ⟨v, hv⟩ := hAgrees.accepted
    obtain ⟨e, hLarge⟩ := hCrowd v
    have hSmall := (receive_response_iff hSent hv e).mp (hAgrees.answered v hv e)
    exact Nat.not_le.mpr hLarge hSmall
  · exact receive_response_iff hSent hv
  · exact waits_iff hSent hv (min_le_right _ _)

def testRun (timeoutMs : ℚ) : ExecutionRequest where
  runId := "run-1".toList
  tenantId := none
  projectId := none
  workspaceId := none
  command := "pytest".toList
  args := ["tests".toList]
  cwd := none
  timeoutMs := .value (some timeoutMs)
  maxOutputBytes := .undefined
  networkMode := none
  networkAllowlist := []
  workspace := none
  collect := none

def natural (q : ℚ) : Numeral := .ofNat ⌊q⌋₊

theorem executeIsolated_agreement_pytest :
    ¬ Agrees (fun _ => []) natural (testRun 30000).body ∧
      ((∃ v, (testRun 30000).body.receive (fun _ => []) natural = .ok v) ↔
        WorkerTakes (fun _ => []) natural (testRun 30000).body) ∧
      ∀ v, (testRun 30000).body.receive (fun _ => []) natural = .ok v →
        (∀ e, Client.receive (v.respond e) = .ok () ↔
          (v.respond e).json.byteSize ≤ Client.MAX_RESPONSE_BYTES) ∧
        (∃ e, Client.MAX_RESPONSE_BYTES < (v.respond e).json.byteSize) ∧
        (v.killMs ≤ Client.waitMs (testRun 30000).body ↔
          (testRun 30000).body.timeoutMs ≤ 118000) :=
  executeIsolated_agreement (by decide +kernel)

/-- The worker may take three minutes for a command, and the client waits for two. -/
theorem client_gives_up :
    Client.validateExecuteRequest natural (testRun 180000).body = .ok () ∧
      ¬ Agrees (fun _ => []) natural (testRun 180000).body := by
  have hOk : Client.validateExecuteRequest natural (testRun 180000).body = .ok () := by
    decide +kernel
  refine ⟨hOk, fun hAgrees => ?_⟩
  obtain ⟨v, hv⟩ := hAgrees.accepted
  have hWaits := (waits_iff (sent_of_ok hOk) hv (by decide +kernel)).mp (hAgrees.awaited v hv)
  exact absurd hWaits (by decide +kernel)

end Agreement

end OrchestraAI.Sandbox
