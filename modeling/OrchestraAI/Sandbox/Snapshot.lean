import OrchestraAI.Sandbox.ProtocolAgreement

/-! # Snapshots of a workspace

`snapshotWorkspace` of `isolated-executor.js`, over what is found below the root. The walk passes over
names of some forms; the checks of what it has collected refuse others.
-/

namespace OrchestraAI.Sandbox.Snapshot

/-- A word of the list stands in the name, behind its start or a character that opens it and before its
end or a character that closes it. -/
def hasWord (opens closes : Char → Bool) (words : List String) (name : Text) : Bool :=
  (List.range (name.length + 1)).any fun i =>
    (i = 0 || (name[i - 1]?).any opens) &&
      words.any fun w => w.toList.isPrefixOf (name.drop i) && (name.drop (i + w.length)).head?.all closes

/-- `SNAPSHOT_SKIP_BASENAME_RE`. -/
def skipsBasename (name : Text) : Bool :=
  let lower := name.map Char.toLower
  hasWord (· = '.') (· = '.')
      ["env", "secret", "secrets", "credential", "credentials", "passwd", "shadow"] lower ||
    hasWord (fun c => c = '_' || c = '-') (fun c => c = '_' || c = '.' || c = '-')
      ["key", "keys", "token", "private", "id_rsa", "id_ed25519", "pem", "p12", "pfx", "keystore"] lower

/-- `SNAPSHOT_SKIP_SUFFIX_RE`. -/
def skipsSuffix (name : Text) : Bool :=
  [".pem", ".key", ".p12", ".pfx", ".jks", ".keystore", ".sqlite", ".sqlite3", ".db"].any fun s =>
    s.toList.isSuffixOf (name.map Char.toLower)

def isLineTerminator (c : Char) : Bool := c = '\n' || c = '\r' || c.toNat = 0x2028 || c.toNat = 0x2029

/-- `SNAPSHOT_SKIP_PREFIX_RE`; a dot takes no line terminator. -/
def skipsPrefix (name : Text) : Bool :=
  ".runtime-data".toList.isPrefixOf name ||
    (List.range name.length).any fun i =>
      (name.take i).all (!isLineTerminator ·) && ".corrupt-".toList.isPrefixOf (name.drop i)

/-- `SNAPSHOT_SKIP_RUNTIME_RE`. -/
def skipsRuntime (name : Text) : Bool :=
  [".events.json", ".snapshot.json", ".billing.json"].any fun s => s.toList.isSuffixOf name

def skipDirs : List Text :=
  ["node_modules", ".git", "dist", ".vite", "__pycache__", ".venv", "venv", "target"].map String.toList

/-- What `lstat` finds, and what is in a file or a directory. -/
inductive Found
  | file (content : Bytes)
  | dir (entries : List (Text × Found))
  | link
  | other

structure Caps where
  maxFiles : Nat
  maxTotalBytes : Nat
  maxFileBytes : Nat
  files_le : maxFiles ≤ WS_MAX_FILES
  total_le : maxTotalBytes ≤ WS_MAX_TOTAL_BYTES
  file_le : maxFileBytes ≤ WS_MAX_FILE_BYTES

def Caps.usual : Caps := ⟨WS_MAX_FILES, WS_MAX_TOTAL_BYTES, WS_MAX_FILE_BYTES, le_rfl, le_rfl, le_rfl⟩

structure Skipped where
  dirs : Nat
  secrets : Nat
  oversized : Nat
  count : Nat

/-- What the walk has collected: paths with contents in base 64. -/
structure Collected where
  files : List (Text × Text)
  bytes : Nat
  skipped : Skipped

def Collected.start : Collected := ⟨[], 0, ⟨0, 0, 0, 0⟩⟩

def Collected.skipCount (s : Collected) : Collected :=
  { s with skipped := { s.skipped with count := s.skipped.count + 1 } }

def Collected.skipDir (s : Collected) : Collected :=
  { s with skipped := { s.skipped with dirs := s.skipped.dirs + 1 } }

def Collected.skipSecret (s : Collected) : Collected :=
  { s with skipped := { s.skipped with secrets := s.skipped.secrets + 1 } }

def Collected.skipOversized (s : Collected) : Collected :=
  { s with skipped := { s.skipped with oversized := s.skipped.oversized + 1 } }

def takeFile (caps : Caps) (s : Collected) (name relPath : Text) (content : Bytes) : Collected :=
  if skipsBasename name || skipsSuffix name then s.skipSecret
  else if caps.maxFileBytes < content.length then s.skipOversized
  else if caps.maxTotalBytes < s.bytes + content.length then s.skipCount
  else { s with bytes := s.bytes + content.length, files := s.files ++ [(relPath, Base64.encode content)] }

mutual

/-- The loop of `walk` over the names of a directory. -/
def walkEntries (caps : Caps) (s : Collected) (rel : Text) : List (Text × Found) → Collected
  | [] => s
  | (name, found) :: entries =>
    if caps.maxFiles ≤ s.files.length ∨ caps.maxTotalBytes ≤ s.bytes then
      walkEntries caps s.skipCount rel entries
    else if skipsPrefix name || skipsRuntime name then walkEntries caps s.skipCount rel entries
    else walkEntries caps (walkFound caps s name (joinRel rel name) found) rel entries

def walkFound (caps : Caps) (s : Collected) (name relPath : Text) : Found → Collected
  | .link => s.skipCount
  | .dir entries => if name ∈ skipDirs then s.skipDir else walkEntries caps s relPath entries
  | .other => s.skipCount
  | .file content => takeFile caps s name relPath content

end

def snapshotWorkspace (caps : Caps) (root : List (Text × Found)) : Collected :=
  walkEntries caps .start [] root

mutual

/-- The files below a directory whose names are not passed over, in the order of the walk. -/
def filesOf (rel : Text) : List (Text × Found) → List (Text × Bytes)
  | [] => []
  | (name, found) :: entries =>
    (if skipsPrefix name || skipsRuntime name then [] else filesOfFound name (joinRel rel name) found) ++
      filesOf rel entries

def filesOfFound (name relPath : Text) : Found → List (Text × Bytes)
  | .link => []
  | .dir entries => if name ∈ skipDirs then [] else filesOf relPath entries
  | .other => []
  | .file content => if skipsBasename name || skipsSuffix name then [] else [(relPath, content)]

end

structure Used where
  files : Nat
  bytes : Nat

def Used.fits (caps : Caps) (u : Used) (f : Text × Bytes) : Bool :=
  u.files < caps.maxFiles && u.bytes < caps.maxTotalBytes && f.2.length ≤ caps.maxFileBytes &&
    u.bytes + f.2.length ≤ caps.maxTotalBytes

def Used.add (caps : Caps) (u : Used) (f : Text × Bytes) : Used :=
  if u.fits caps f then ⟨u.files + 1, u.bytes + f.2.length⟩ else u

def usedBy (caps : Caps) (before : List (Text × Bytes)) : Used := before.foldl (Used.add caps) ⟨0, 0⟩

/-- A regular file below the entries, with its path and its content. -/
inductive Regular : List (Text × Found) → Text → Text → Bytes → Prop
  | file {entries : List (Text × Found)} {rel name : Text} {content : Bytes}
      (h : (name, .file content) ∈ entries) : Regular entries rel (joinRel rel name) content
  | dir {entries inner : List (Text × Found)} {rel name path : Text} {content : Bytes}
      (h : (name, .dir inner) ∈ entries) (hInner : Regular inner (joinRel rel name) path content) :
      Regular entries rel path content

/-- A path of at most 500 code units and without line ends that, with its backslashes read as slashes, is
relative, names no drive and has no segment that goes up. -/
structure Sendable (p : Text) : Prop where
  length : p ≠ [] ∧ (codeUnits (String.ofList p)).length ≤ 500
  plain : '\x00' ∉ p ∧ '\n' ∉ p ∧ '\r' ∉ p
  relative : (slashed p).head? ≠ some '/' ∧ startsWithDrive (slashed p) = false
  inside : ['.', '.'] ∉ (slashed p).splitOn '/'

/-- The snapshot keeps to its caps, has only regular files as they are, and both sides accept it. -/
structure Transmissible (caps : Caps) (root : List (Text × Found)) : Prop where
  count : (snapshotWorkspace caps root).files.length ≤ caps.maxFiles
  bytes : ((snapshotWorkspace caps root).files.map fun f => (Base64.decode f.2).length).sum ≤ caps.maxTotalBytes
  regular : ∀ f ∈ (snapshotWorkspace caps root).files, ∃ content, Regular root [] f.1 content ∧
    f.2 = Base64.encode content ∧ Base64.decode f.2 = content ∧ content.length ≤ caps.maxFileBytes
  client : Client.validateWorkspaceSnapshot (snapshotWorkspace caps root).files = .ok ()
  worker : ∃ out, validateWorkspaceSnapshot Base64.decode (snapshotWorkspace caps root).files = .ok out

def FilesSendable (caps : Caps) (root : List (Text × Found)) : Prop :=
  ∀ before f after, filesOf [] root = before ++ f :: after → (usedBy caps before).fits caps f = true →
    Sendable f.1

def room (taken : List (Text × Bytes)) : Used := ⟨taken.length, (taken.map fun f => f.2.length).sum⟩

def ship (caps : Caps) (taken : List (Text × Bytes)) (f : Text × Bytes) : List (Text × Bytes) :=
  if (room taken).fits caps f then taken ++ [f] else taken

def shipped (caps : Caps) (fs : List (Text × Bytes)) : List (Text × Bytes) := fs.foldl (ship caps) []

def encoded (f : Text × Bytes) : Text × Text := (f.1, Base64.encode f.2)

def Has (s : Collected) (taken : List (Text × Bytes)) : Prop :=
  s.files = taken.map encoded ∧ s.bytes = (room taken).bytes

variable {caps : Caps} {s : Collected} {taken fs : List (Text × Bytes)} {f : Text × Bytes}
  {root : List (Text × Found)}

theorem room_append (taken : List (Text × Bytes)) (f : Text × Bytes) :
    room (taken ++ [f]) = ⟨(room taken).files + 1, (room taken).bytes + f.2.length⟩ := by
  simp [room]

theorem Has.length (h : Has s taken) : s.files.length = (room taken).files := by
  rw [h.1, List.length_map, room]

theorem foldl_ship_full (h : caps.maxFiles ≤ (room taken).files ∨ caps.maxTotalBytes ≤ (room taken).bytes)
    (fs : List (Text × Bytes)) : fs.foldl (ship caps) taken = taken := by
  induction fs with
  | nil => rfl
  | cons f fs ih =>
    have hNot : (room taken).fits caps f = false := by
      rw [← Bool.not_eq_true, Used.fits]
      simp only [Bool.and_eq_true, decide_eq_true_iff]
      omega
    rw [List.foldl_cons, ship, hNot]
    exact ih

theorem has_takeFile (h : Has s taken) (name relPath : Text) (content : Bytes)
    (hRoom : ¬ (caps.maxFiles ≤ s.files.length ∨ caps.maxTotalBytes ≤ s.bytes)) :
    Has (takeFile caps s name relPath content)
      ((filesOfFound name relPath (.file content)).foldl (ship caps) taken) := by
  rw [takeFile, filesOfFound]
  split
  · exact h
  · rw [List.foldl_cons, List.foldl_nil, ship]
    rw [h.length, h.2] at hRoom
    have hFits : (room taken).fits caps (relPath, content) = true ↔
        content.length ≤ caps.maxFileBytes ∧ (room taken).bytes + content.length ≤ caps.maxTotalBytes := by
      rw [Used.fits]
      simp only [Bool.and_eq_true, decide_eq_true_iff]
      omega
    split
    · rename_i hLarge
      rw [if_neg fun hFit => Nat.not_le.mpr hLarge (hFits.mp hFit).1]
      exact h
    · rename_i hSmall
      split
      · rename_i hTotal
        rw [h.2] at hTotal
        rw [if_neg fun hFit => Nat.not_le.mpr hTotal (hFits.mp hFit).2]
        exact h
      · rename_i hTotal
        rw [h.2] at hTotal
        rw [if_pos (hFits.mpr ⟨Nat.not_lt.mp hSmall, Nat.not_lt.mp hTotal⟩)]
        refine ⟨?_, ?_⟩
        · dsimp only
          rw [h.1, List.map_append, List.map_singleton, encoded]
        · dsimp only
          rw [h.2, room_append]

mutual

theorem has_walkEntries {s : Collected} {taken : List (Text × Bytes)} (h : Has s taken) (rel : Text)
    (entries : List (Text × Found)) :
    Has (walkEntries caps s rel entries) ((filesOf rel entries).foldl (ship caps) taken) := by
  match entries with
  | [] => exact h
  | (name, found) :: entries =>
    rw [walkEntries, filesOf, List.foldl_append]
    split
    · rename_i hFull
      rw [h.length, h.2] at hFull
      rw [foldl_ship_full hFull, foldl_ship_full hFull]
      have hRest := has_walkEntries (s := s.skipCount) h rel entries
      rwa [foldl_ship_full hFull] at hRest
    · rename_i hRoom
      split
      · exact has_walkEntries (s := s.skipCount) h rel entries
      · exact has_walkEntries (has_walkFound h name (joinRel rel name) hRoom found) rel entries

theorem has_walkFound {s : Collected} {taken : List (Text × Bytes)} (h : Has s taken) (name relPath : Text)
    (hRoom : ¬ (caps.maxFiles ≤ s.files.length ∨ caps.maxTotalBytes ≤ s.bytes)) (found : Found) :
    Has (walkFound caps s name relPath found)
      ((filesOfFound name relPath found).foldl (ship caps) taken) := by
  match found with
  | .link => exact h
  | .other => exact h
  | .file content => exact has_takeFile h name relPath content hRoom
  | .dir entries =>
    rw [walkFound, filesOfFound]
    split
    · exact h
    · exact has_walkEntries h relPath entries

end

theorem has_snapshot (caps : Caps) (root : List (Text × Found)) :
    Has (snapshotWorkspace caps root) (shipped caps (filesOf [] root)) :=
  has_walkEntries ⟨rfl, rfl⟩ [] root

theorem shipped_append (caps : Caps) (fs : List (Text × Bytes)) (f : Text × Bytes) :
    shipped caps (fs ++ [f]) =
      if (room (shipped caps fs)).fits caps f then shipped caps fs ++ [f] else shipped caps fs := by
  rw [shipped, List.foldl_append]
  rfl

theorem usedBy_append (caps : Caps) (fs : List (Text × Bytes)) (f : Text × Bytes) :
    usedBy caps (fs ++ [f]) = (usedBy caps fs).add caps f := by
  rw [usedBy, List.foldl_append]
  rfl

theorem room_shipped (caps : Caps) (fs : List (Text × Bytes)) : room (shipped caps fs) = usedBy caps fs := by
  induction fs using List.reverseRecOn with
  | nil => rfl
  | append_singleton fs f ih =>
    rw [shipped_append, usedBy_append, Used.add, ← ih]
    split
    · exact room_append _ _
    · rfl

theorem mem_shipped_iff : f ∈ shipped caps fs ↔
    ∃ before after, fs = before ++ f :: after ∧ (usedBy caps before).fits caps f = true := by
  induction fs using List.reverseRecOn with
  | nil =>
    refine iff_of_false List.not_mem_nil ?_
    rintro ⟨before, after, hSplit, -⟩
    exact List.append_ne_nil_of_right_ne_nil _ (List.cons_ne_nil _ _) hSplit.symm
  | append_singleton fs g ih =>
    rw [shipped_append, room_shipped]
    have hOld (h : f ∈ shipped caps fs) :
        ∃ before after, fs ++ [g] = before ++ f :: after ∧ (usedBy caps before).fits caps f = true := by
      obtain ⟨before, after, rfl, hFits⟩ := ih.mp h
      exact ⟨before, after ++ [g], by simp, hFits⟩
    constructor
    · intro h
      split at h
      · rename_i hFits
        obtain h | h := List.mem_append.mp h
        · exact hOld h
        · obtain rfl := List.mem_singleton.mp h
          exact ⟨fs, [], rfl, hFits⟩
      · exact hOld h
    · rintro ⟨before, after, hSplit, hFits⟩
      obtain rfl | ⟨after, last, rfl⟩ := after.eq_nil_or_concat
      · obtain ⟨rfl, hLast⟩ := List.append_inj' hSplit rfl
        obtain rfl := List.singleton_inj.mp hLast
        rw [if_pos hFits]
        exact List.mem_append_right _ List.mem_cons_self
      · rw [List.concat_eq_append, ← List.cons_append, ← List.append_assoc] at hSplit
        obtain ⟨rfl, -⟩ := List.append_inj' hSplit rfl
        have hMem := ih.mpr ⟨before, after, rfl, hFits⟩
        split
        · exact List.mem_append_left _ hMem
        · exact hMem

theorem usedBy_le (caps : Caps) (fs : List (Text × Bytes)) :
    (usedBy caps fs).files ≤ caps.maxFiles ∧ (usedBy caps fs).bytes ≤ caps.maxTotalBytes := by
  induction fs using List.reverseRecOn with
  | nil => exact ⟨Nat.zero_le _, Nat.zero_le _⟩
  | append_singleton fs f ih =>
    rw [usedBy_append, Used.add]
    split
    · rename_i hFits
      simp only [Used.fits, Bool.and_eq_true, decide_eq_true_iff] at hFits
      exact ⟨hFits.1.1.1, hFits.2⟩
    · exact ih

theorem fits_file {u : Used} (h : u.fits caps f = true) : f.2.length ≤ caps.maxFileBytes := by
  simp only [Used.fits, Bool.and_eq_true, decide_eq_true_iff] at h
  exact h.1.2

theorem Regular.cons {entries : List (Text × Found)} {rel path : Text} {content : Bytes}
    (h : Regular entries rel path content) (e : Text × Found) : Regular (e :: entries) rel path content := by
  cases h with
  | file h => exact .file (List.mem_cons_of_mem _ h)
  | dir h hInner => exact .dir (List.mem_cons_of_mem _ h) hInner

mutual

theorem regular_filesOf (rel : Text) (entries : List (Text × Found)) :
    ∀ f ∈ filesOf rel entries, Regular entries rel f.1 f.2 := by
  match entries with
  | [] => exact fun f hf => absurd hf List.not_mem_nil
  | (name, found) :: entries =>
    intro f hf
    rw [filesOf] at hf
    obtain hf | hf := List.mem_append.mp hf
    · split at hf
      · cases hf
      · exact regular_filesOfFound List.mem_cons_self hf
    · exact (regular_filesOf rel entries f hf).cons _

theorem regular_filesOfFound {entries : List (Text × Found)} {rel name : Text} {found : Found}
    (hEntry : (name, found) ∈ entries) {f : Text × Bytes} (hf : f ∈ filesOfFound name (joinRel rel name) found) :
    Regular entries rel f.1 f.2 := by
  match found with
  | .link => cases hf
  | .other => cases hf
  | .file content =>
    rw [filesOfFound] at hf
    split at hf
    · cases hf
    · obtain rfl := List.mem_singleton.mp hf
      exact .file hEntry
  | .dir inner =>
    rw [filesOfFound] at hf
    split at hf
    · cases hf
    · exact .dir hEntry (regular_filesOf (joinRel rel name) inner f hf)

end

theorem sendable_iff {p : Text} : Sendable p ↔ ∃ rel, assertWorkspaceRelPath p = .ok rel := by
  rw [assertWorkspaceRelPath_eq]
  constructor
  · intro h
    rw [if_neg (by rintro (hNil | hLong) <;> [exact h.length.1 hNil; exact Nat.not_le.mpr hLong h.length.2]),
      if_neg (by rintro (hChar | hChar | hChar) <;>
        [exact h.plain.1 hChar; exact h.plain.2.1 hChar; exact h.plain.2.2 hChar]),
      if_neg (by rintro (hRoot | hDrive) <;>
        [exact h.relative.1 hRoot; exact Bool.noConfusion (h.relative.2.symm.trans hDrive)]),
      if_neg h.inside]
    exact ⟨_, rfl⟩
  · rintro ⟨rel, h⟩
    split_ifs at h with hLength hControl hRelative hTraversal
    simp only [not_or] at hLength hControl hRelative
    exact ⟨⟨hLength.1, Nat.not_lt.mp hLength.2⟩, hControl,
      ⟨hRelative.1, Bool.eq_false_iff.mpr hRelative.2⟩, hTraversal⟩

theorem client_files_paths {total : Nat} {files : List (Text × Text)}
    (h : Client.validateFiles total files = .ok ()) : ∀ f ∈ files, ∃ rel, assertWorkspaceRelPath f.1 = .ok rel := by
  induction files generalizing total with
  | nil => exact fun f hf => absurd hf List.not_mem_nil
  | cons f files ih =>
    obtain ⟨hPath, -, hRest⟩ := client_files_cons h
    exact List.forall_mem_cons.mpr ⟨hPath, ih hRest⟩

theorem client_files_ok {l : List (Text × Bytes)} {total : Nat} (hPaths : ∀ f ∈ l, Sendable f.1)
    (hFile : ∀ f ∈ l, f.2.length ≤ WS_MAX_FILE_BYTES)
    (hTotal : 3 * (total + (l.map fun f => (Base64.encode f.2).length).sum) ≤ 4 * WS_MAX_TOTAL_BYTES + 3072) :
    Client.validateFiles total (l.map encoded) = .ok () := by
  induction l generalizing total with
  | nil => rfl
  | cons f l ih =>
    obtain ⟨hPath, hPaths⟩ := List.forall_mem_cons.mp hPaths
    obtain ⟨hFirst, hFile⟩ := List.forall_mem_cons.mp hFile
    rw [List.map_cons, List.sum_cons, ← Nat.add_assoc] at hTotal
    obtain ⟨rel, hRel⟩ := sendable_iff.mp hPath
    have hLength : (Base64.encode f.2).length ≤ 4 * ((WS_MAX_FILE_BYTES + 2) / 3) := by
      rw [Base64.length_encode]
      have := Nat.div_le_div_right (c := 3) (Nat.add_le_add_right hFirst 2)
      omega
    have hSmall : ¬ Client.SNAPSHOT_MAX_FILE_BYTES * 4 / 3 + 64 < ((Base64.encode f.2).length : ℚ) := by
      have hRat : ((Base64.encode f.2).length : ℚ) ≤ (4 * ((WS_MAX_FILE_BYTES + 2) / 3) : Nat) := by
        exact_mod_cast hLength
      have hCap : ((4 * ((WS_MAX_FILE_BYTES + 2) / 3) : Nat) : ℚ) ≤ Client.SNAPSHOT_MAX_FILE_BYTES * 4 / 3 + 64 := by
        norm_num [WS_MAX_FILE_BYTES, Client.SNAPSHOT_MAX_FILE_BYTES]
      exact not_lt.mpr (hRat.trans hCap)
    have hSum : ¬ Client.SNAPSHOT_MAX_TOTAL_BYTES * 4 / 3 + 1024 < (total + (Base64.encode f.2).length : Nat) := by
      have hNat : 3 * (total + (Base64.encode f.2).length) ≤ 4 * WS_MAX_TOTAL_BYTES + 3072 := by omega
      have hRat : (3 : ℚ) * (total + (Base64.encode f.2).length : Nat) ≤ 4 * WS_MAX_TOTAL_BYTES + 3072 := by
        exact_mod_cast hNat
      norm_num [WS_MAX_TOTAL_BYTES, Client.SNAPSHOT_MAX_TOTAL_BYTES] at hRat ⊢
      linarith
    rw [List.map_cons, encoded, Client.validateFiles, client_path_iff.mpr hRel]
    dsimp only [Except.bind]
    rw [isBase64_encode, if_neg (by simp), if_neg hSmall, if_neg hSum]
    exact ih hPaths hFile hTotal

theorem files_snapshot (caps : Caps) (root : List (Text × Found)) :
    (snapshotWorkspace caps root).files = (shipped caps (filesOf [] root)).map encoded :=
  (has_snapshot caps root).1

theorem count_snapshot (caps : Caps) (root : List (Text × Found)) :
    (snapshotWorkspace caps root).files.length ≤ caps.maxFiles := by
  rw [(has_snapshot caps root).length, room_shipped]
  exact (usedBy_le caps _).1

theorem sum_snapshot (caps : Caps) (root : List (Text × Found)) :
    ((snapshotWorkspace caps root).files.map fun f => (Base64.decode f.2).length).sum ≤ caps.maxTotalBytes := by
  have hSame : ((snapshotWorkspace caps root).files.map fun f => (Base64.decode f.2).length) =
      (shipped caps (filesOf [] root)).map fun f => f.2.length := by
    rw [files_snapshot, List.map_map]
    exact List.map_congr_left fun f _ => congrArg List.length (Base64.decode_encode f.2)
  have hBytes := (usedBy_le caps (filesOf [] root)).2
  rw [← room_shipped] at hBytes
  rw [hSame]
  exact hBytes

theorem small_shipped (hf : f ∈ shipped caps fs) : f.2.length ≤ caps.maxFileBytes := by
  obtain ⟨before, after, -, hFits⟩ := mem_shipped_iff.mp hf
  exact fits_file hFits

theorem regular_snapshot (caps : Caps) (root : List (Text × Found)) :
    ∀ f ∈ (snapshotWorkspace caps root).files, ∃ content, Regular root [] f.1 content ∧
      f.2 = Base64.encode content ∧ Base64.decode f.2 = content ∧ content.length ≤ caps.maxFileBytes := by
  intro f hf
  rw [files_snapshot] at hf
  obtain ⟨g, hg, rfl⟩ := List.mem_map.mp hf
  obtain ⟨before, after, hSplit, -⟩ := mem_shipped_iff.mp hg
  have hMem : g ∈ filesOf [] root := hSplit ▸ List.mem_append_right _ List.mem_cons_self
  exact ⟨g.2, regular_filesOf [] root g hMem, rfl, Base64.decode_encode g.2, small_shipped hg⟩

theorem client_snapshot_iff (caps : Caps) (root : List (Text × Found)) :
    Client.validateWorkspaceSnapshot (snapshotWorkspace caps root).files = .ok () ↔
      ∀ f ∈ shipped caps (filesOf [] root), Sendable f.1 := by
  have hCount : ¬ Client.SNAPSHOT_MAX_FILES < (snapshotWorkspace caps root).files.length :=
    Nat.not_lt.mpr ((count_snapshot caps root).trans caps.files_le)
  rw [Client.validateWorkspaceSnapshot, if_neg hCount, files_snapshot]
  constructor
  · intro h f hf
    exact sendable_iff.mpr (client_files_paths h (encoded f) (List.mem_map_of_mem hf))
  · intro h
    refine client_files_ok h (fun f hf => (small_shipped hf).trans caps.file_le) ?_
    have hUsed := usedBy_le caps (filesOf [] root)
    rw [← room_shipped] at hUsed
    have hEncode := sum_encode ((shipped caps (filesOf [] root)).map Prod.snd)
    rw [List.map_map, List.map_map, List.length_map] at hEncode
    have hFiles : (shipped caps (filesOf [] root)).length ≤ 200 := hUsed.1.trans caps.files_le
    have hBytes : ((shipped caps (filesOf [] root)).map fun f => f.2.length).sum ≤ WS_MAX_TOTAL_BYTES :=
      hUsed.2.trans caps.total_le
    change 3 * ((shipped caps (filesOf [] root)).map fun f => (Base64.encode f.2).length).sum ≤
      4 * ((shipped caps (filesOf [] root)).map fun f => f.2.length).sum + 8 * _ at hEncode
    omega

theorem worker_of_client
    (h : Client.validateWorkspaceSnapshot (snapshotWorkspace caps root).files = .ok ()) :
    ∃ out, validateWorkspaceSnapshot Base64.decode (snapshotWorkspace caps root).files = .ok out := by
  have hCount : (snapshotWorkspace caps root).files.length ≤ WS_MAX_FILES :=
    (count_snapshot caps root).trans caps.files_le
  have hFew : ¬ Client.SNAPSHOT_MAX_FILES < (snapshotWorkspace caps root).files.length := Nat.not_lt.mpr hCount
  rw [Client.validateWorkspaceSnapshot, if_neg hFew] at h
  rw [validateWorkspaceSnapshot, if_neg (Nat.not_lt.mpr hCount), files_accepted_iff h (Nat.zero_le _), Nat.zero_add]
  refine ⟨fun f hf => ?_, (sum_snapshot caps root).trans caps.total_le⟩
  obtain ⟨content, -, -, hContent, hSmall⟩ := regular_snapshot caps root f hf
  rw [hContent]
  exact hSmall.trans caps.file_le

/-- A snapshot can be sent if and only if every file with room in it has a path that can be. -/
theorem transmissible_iff (caps : Caps) (root : List (Text × Found)) :
    Transmissible caps root ↔ FilesSendable caps root := by
  have hClient : Transmissible caps root ↔
      Client.validateWorkspaceSnapshot (snapshotWorkspace caps root).files = .ok () :=
    ⟨Transmissible.client, fun h =>
      ⟨count_snapshot caps root, sum_snapshot caps root, regular_snapshot caps root, h, worker_of_client h⟩⟩
  rw [hClient, client_snapshot_iff]
  constructor
  · intro h before f after hSplit hFits
    exact h f (mem_shipped_iff.mpr ⟨before, after, hSplit, hFits⟩)
  · intro h f hf
    obtain ⟨before, after, hSplit, hFits⟩ := mem_shipped_iff.mp hf
    exact h before f after hSplit hFits

/-- A line feed in a name, or a backslash before it, makes every execution fail. -/
theorem unusual_names_refused :
    ¬ Transmissible .usual [("notes\n.txt".toList, .file [])] ∧
      ¬ Transmissible .usual [("a.py".toList, .file [65]), ("\\readme".toList, .file [66])] := by
  refine ⟨fun h => ?_, fun h => ?_⟩
  · exact absurd h.client (by decide +kernel)
  · exact absurd h.client (by decide +kernel)

end OrchestraAI.Sandbox.Snapshot
