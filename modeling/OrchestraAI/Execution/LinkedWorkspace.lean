import OrchestraAI.Sandbox.Confinement

/-! # A workspace with symbolic links

`resolveWorkspaceRoot` and `sandboxPath` of `execution/changesets.js` over a tree of files with
symbolic links, and what is touched when a file is opened, created or replaced at a path that
`sandboxPath` returns.
-/

namespace OrchestraAI.Execution.Linked

open LinkedTree
open OrchestraAI.Sandbox (FileTree Bytes locate makeDir makeDirs writeFile readFile)

/-- `realpath`, unless it fails. -/
def realpath (t : FileTree) (p : Path) : Option Path := (locate t Tree.Final.follows p).map Prod.fst

/-- `root` is resolved to an absolute path. -/
def resolveWorkspaceRoot (t : FileTree) (root : Path) : Path := (realpath t root).getD root

/-- The real path of the symlink guard: that of the path, or of its last name in its directory. -/
def guarded (t : FileTree) (abs : Path) : Option Path :=
  (realpath t abs).or ((realpath t abs.dropLast).map fun realParent => realParent ++ abs.getLast?.toList)

def sandboxPath (t : FileTree) (workspace : Path) (requested : Text) : Except FsError Path :=
  let ws := resolveWorkspaceRoot t workspace
  match Execution.sandboxPath ws requested with
  | .error e => .error e
  | .ok abs =>
    match guarded t abs with
    | none => .ok abs
    | some real =>
      if inside ws real then .ok abs
      else .error ⟨"Symlink escapes workspace: ".toList ++ requested, "path_escape"⟩

/-- `rename` of a file to a path. -/
def replaceFile (t : FileTree) (path : Path) (content : Bytes) : Option (FileTree × Path) :=
  (locate t ⟨false, true⟩ path).bind fun q => (t.put q.1 (.file content)).map fun t => (t, q.1)

/-- The objects that are read, made or written when the file at a path is opened, created or
replaced, and the directories that are made for it. -/
inductive Touches (t : FileTree) (abs : Path) : Path → Prop
  | opened (p : Path) (content : Bytes) (h : readFile t abs = some (p, content)) : Touches t abs p
  | madeDir (p path : Path) (t' : FileTree) (hPath : path <+: abs.dropLast)
    (h : makeDirs t path = some t') (hNew : t.entry p = none) (hMade : t'.entry p = some .dir) :
    Touches t abs p
  | created (p : Path) (content : Bytes) (t' t'' : FileTree) (hDirs : makeDirs t abs.dropLast = some t')
    (h : writeFile t' abs content = some (t'', p)) : Touches t abs p
  | replaced (p : Path) (content : Bytes) (t' t'' : FileTree)
    (hDirs : makeDirs t abs.dropLast = some t') (h : replaceFile t' abs content = some (t'', p)) :
    Touches t abs p

def Confined (t : FileTree) (ws abs : Path) : Prop := ∀ p, Touches t abs p → ws <+: p

/-- What the guard does not see: the first part of the path that is missing before the last one, a
link in the last place that leads somewhere, and the end of one that leads nowhere. -/
structure Unlinked (t : FileTree) (ws abs : Path) : Prop where
  missing : ∀ parents name rest d links, abs = parents ++ name :: rest → rest ≠ [] →
    locate t Tree.Final.follows parents = some (d, links) → t.isDir d = true →
    t.entry (d ++ [name]) = none → ws <+: d ++ [name]
  link : ∀ parents name d links absolute target, abs = parents ++ [name] →
    locate t Tree.Final.follows parents = some (d, links) →
    t.entry (d ++ [name]) = some (.link absolute target) →
    if (realpath t abs).isSome then ws <+: d ++ [name]
    else ∀ q, locate t ⟨true, true⟩ abs = some q → ws <+: q.1

variable {t t' : FileTree} {ws abs path parents rest d : Path} {name : Text} {links : Nat}

def LeadsToDir (t : FileTree) (path : Path) : Prop :=
  ∃ d links, locate t Tree.Final.follows path = some (d, links) ∧ t.isDir d = true

theorem leadsToDir_iff :
    LeadsToDir t path ↔ ((locate t Tree.Final.follows path).any fun q => t.isDir q.1) = true := by
  unfold LeadsToDir
  cases locate t Tree.Final.follows path with
  | none => exact iff_of_false nofun nofun
  | some q =>
    constructor
    · rintro ⟨d, links, hLeads, hDir⟩
      cases hLeads
      exact hDir
    · exact fun hDir => ⟨q.1, q.2, rfl, hDir⟩

theorem leadsToDir_nil (t : FileTree) : LeadsToDir t [] := ⟨[], 40, rfl, Tree.isDir_iff.mpr t.root⟩

theorem makeDirs_concat (t : FileTree) (path : Path) (name : Text) :
    makeDirs t (path ++ [name]) = (makeDirs t path).bind fun t => makeDir t (path ++ [name]) := by
  have hInits : (path ++ [name]).inits = path.inits ++ [path ++ [name]] := by
    rw [List.inits_append]
    rfl
  unfold makeDirs
  rw [hInits, List.foldlM_append]
  simp

theorem locate_concat {final : Tree.Final} (hParents : locate t Tree.Final.follows parents = some (d, links))
    (hDir : t.isDir d = true) (name : Text) :
    locate t final (parents ++ [name]) = t.resolve final links d [.down name] := by
  rw [Sandbox.locate_append (List.cons_ne_nil _ _), hParents, Option.bind_some, if_pos hDir]
  rfl

theorem leadsToDir_of_concat (h : LeadsToDir t (parents ++ [name])) : LeadsToDir t parents := by
  obtain ⟨e, l, hLeads, -⟩ := h
  rw [Sandbox.locate_append (List.cons_ne_nil _ _)] at hLeads
  obtain ⟨⟨d, links⟩, hParents, hRest⟩ := Option.bind_eq_some_iff.mp hLeads
  split at hRest
  · rename_i hDir
    exact ⟨d, links, hParents, hDir⟩
  · cases hRest

theorem makeDirs_of_leads (h : LeadsToDir t path) : makeDirs t path = some t := by
  induction path using List.reverseRecOn with
  | nil =>
    change (makeDir t []).bind _ = _
    rw [makeDir, if_pos (leadsToDir_iff.mp h)]
    rfl
  | append_singleton path name ih =>
    rw [makeDirs_concat, ih (leadsToDir_of_concat h), Option.bind_some, makeDir,
      if_pos (leadsToDir_iff.mp h)]

theorem leads_or_stops (t : FileTree) (path : Path) :
    LeadsToDir t path ∨ ∃ parents name rest d links, path = parents ++ name :: rest ∧
      locate t Tree.Final.follows parents = some (d, links) ∧ t.isDir d = true ∧
      ¬ LeadsToDir t (parents ++ [name]) := by
  induction path using List.reverseRecOn with
  | nil => exact .inl (leadsToDir_nil t)
  | append_singleton path name ih =>
    obtain ⟨d, links, hLeads, hDir⟩ | ⟨parents, n, rest, d, links, rfl, hLeads, hDir, hStops⟩ := ih
    · by_cases hHere : LeadsToDir t (path ++ [name])
      · exact .inl hHere
      · exact .inr ⟨path, name, [], d, links, rfl, hLeads, hDir, hHere⟩
    · exact .inr ⟨parents, n, rest ++ [name], d, links, by simp, hLeads, hDir, hStops⟩

/-- A tree with new directories, one in the other, from a place on. -/
structure Extended (t t' : FileTree) (first last : Path) : Prop where
  below : first <+: last
  around : ∀ p, ¬ first <+: p → t'.entry p = t.entry p
  isDir : t'.isDir last = true
  vacant : ∀ p, last <+: p → p ≠ last → t'.entry p = none

theorem makeDirs_stopped (hLeads : locate t Tree.Final.follows parents = some (d, links))
    (hDir : t.isDir d = true) (hStops : ¬ LeadsToDir t (parents ++ [name]))
    (hThere : t.entry (d ++ [name]) ≠ none) (rest : Path) :
    makeDirs t (parents ++ name :: rest) = none := by
  induction rest using List.reverseRecOn with
  | nil =>
    rw [makeDirs_concat, makeDirs_of_leads ⟨d, links, hLeads, hDir⟩, Option.bind_some, makeDir,
      if_neg (fun h => hStops (leadsToDir_iff.mpr h)), locate_concat hLeads hDir,
      Tree.resolve_replaces, Option.bind_some, if_pos (Option.isSome_iff_ne_none.mpr hThere)]
  | append_singleton rest last ih =>
    rw [← List.cons_append, ← List.append_assoc, makeDirs_concat, ih, Option.bind_none]

theorem makeDir_missing (hLeads : locate t Tree.Final.follows parents = some (d, links))
    (hDir : t.isDir d = true) (hMissing : t.entry (d ++ [name]) = none) :
    ∃ t', makeDir t (parents ++ [name]) = some t' ∧
      t'.entry = Function.update t.entry (d ++ [name]) (some .dir) ∧
      locate t' Tree.Final.follows (parents ++ [name]) = some (d ++ [name], links) := by
  have hNone : locate t Tree.Final.follows (parents ++ [name]) = none := by
    rw [locate_concat hLeads hDir, Tree.resolve_missing _ hMissing]
    rfl
  have hNotDir : t.isDir (d ++ [name]) = false := by
    rw [Tree.isDir, hMissing]
    rfl
  obtain ⟨t', hPut⟩ := Tree.exists_put .dir hDir hNotDir
  obtain ⟨hEntry, -, -⟩ := Tree.put_entry hPut
  have hMono : ∀ p e, t.entry p = some e → t'.entry p = some e := by
    intro p e he
    rw [hEntry, Function.update_of_ne, he]
    rintro rfl
    rw [hMissing] at he
    cases he
  have hLeads' := Tree.resolve_mono hMono hLeads
  have hDir' := Tree.isDir_iff.mpr (hMono _ _ (Tree.isDir_iff.mp hDir))
  refine ⟨t', ?_, hEntry, ?_⟩
  · rw [makeDir, hNone, if_neg (by simp), locate_concat hLeads hDir, Tree.resolve_replaces,
      Option.bind_some, hMissing, if_neg (by simp), hPut]
  · rw [locate_concat hLeads' hDir', Tree.resolve_down links (e := .dir)]
    · rw [hEntry, Function.update_self]
    · exact fun _ _ h => (by cases h)

theorem makeDirs_missing (hLeads : locate t Tree.Final.follows parents = some (d, links))
    (hDir : t.isDir d = true) (hMissing : t.entry (d ++ [name]) = none) (rest : Path) :
    ∃ t', makeDirs t (parents ++ name :: rest) = some t' ∧
      locate t' Tree.Final.follows (parents ++ name :: rest) = some (d ++ name :: rest, links) ∧
      Extended t t' (d ++ [name]) (d ++ name :: rest) := by
  induction rest using List.reverseRecOn with
  | nil =>
    obtain ⟨t', hMake, hEntry, hLeads'⟩ := makeDir_missing hLeads hDir hMissing
    refine ⟨t', ?_, hLeads', ⟨List.prefix_rfl, fun p hp => ?_, ?_, fun p hp hNe => ?_⟩⟩
    · rw [makeDirs_concat, makeDirs_of_leads ⟨d, links, hLeads, hDir⟩, Option.bind_some, hMake]
    · rw [hEntry, Function.update_of_ne]
      rintro rfl
      exact hp List.prefix_rfl
    · rw [Tree.isDir_iff, hEntry, Function.update_self]
    · rw [hEntry, Function.update_of_ne hNe]
      exact Tree.entry_eq_none_below hMissing hp
  | append_singleton rest last ih =>
    obtain ⟨t', hMakes, hLeads', hExtended⟩ := ih
    have hBelow : d ++ name :: rest <+: d ++ name :: rest ++ [last] := List.prefix_append _ _
    have hVacant : t'.entry (d ++ name :: rest ++ [last]) = none :=
      hExtended.vacant _ hBelow (by simp)
    obtain ⟨t'', hMake, hEntry, hLeads''⟩ := makeDir_missing hLeads' hExtended.isDir hVacant
    have hPath (p : Path) : p ++ name :: (rest ++ [last]) = p ++ name :: rest ++ [last] := by simp
    rw [hPath, hPath]
    refine ⟨t'', ?_, hLeads'', ⟨hExtended.below.trans hBelow, fun p hp => ?_, ?_, fun p hp hNe => ?_⟩⟩
    · rw [makeDirs_concat, hMakes, Option.bind_some, hMake]
    · rw [hEntry, Function.update_of_ne, hExtended.around p hp]
      rintro rfl
      exact hp (hExtended.below.trans hBelow)
    · rw [Tree.isDir_iff, hEntry, Function.update_self]
    · rw [hEntry, Function.update_of_ne hNe]
      refine hExtended.vacant p (hBelow.trans hp) ?_
      rintro rfl
      exact absurd hp.length_le (by simp)

/-- The part of a path that is missing first, before the last name. -/
structure FirstMissing (t : FileTree) (abs first : Path) : Prop where
  parts : ∃ parents name rest d links, abs = parents ++ name :: rest ∧ rest ≠ [] ∧
    locate t Tree.Final.follows parents = some (d, links) ∧ t.isDir d = true ∧
    t.entry (d ++ [name]) = none ∧ first = d ++ [name]

/-- A file is put where the directories around it were, or below the first one that was made. -/
theorem place_cases {follow : Bool} {q : Path × Nat} {e : LinkedTree.Entry Text Bytes} {t'' : FileTree}
    (hDirs : makeDirs t abs.dropLast = some t') (hq : locate t' ⟨follow, true⟩ abs = some q)
    (hPut : t'.put q.1 e = some t'') :
    (t' = t ∧ ∃ parents name d links, abs = parents ++ [name] ∧
      locate t Tree.Final.follows parents = some (d, links) ∧ t.isDir d = true) ∨
    ∃ first, FirstMissing t abs first ∧ first <+: q.1 := by
  obtain rfl | ⟨parents, last, rfl⟩ := abs.eq_nil_or_concat'
  · cases hq
    cases hPut
  rw [List.dropLast_concat] at hDirs
  obtain ⟨d, links, hLeads, hDir⟩ | ⟨pre, name, rest, d, links, rfl, hLeads, hDir, hStops⟩ :=
    leads_or_stops t parents
  · rw [makeDirs_of_leads ⟨d, links, hLeads, hDir⟩] at hDirs
    cases hDirs
    exact .inl ⟨rfl, parents, last, d, links, rfl, hLeads, hDir⟩
  · right
    cases hThere : t.entry (d ++ [name]) with
    | some e' =>
      rw [makeDirs_stopped hLeads hDir hStops (by rw [hThere]; nofun)] at hDirs
      cases hDirs
    | none =>
      obtain ⟨t₁, hMakes, hLeads', hExtended⟩ := makeDirs_missing hLeads hDir hThere rest
      cases hMakes.symm.trans hDirs
      have hVacant : t'.entry (d ++ name :: rest ++ [last]) = none :=
        hExtended.vacant _ (List.prefix_append _ _) (by simp)
      rw [locate_concat hLeads' hExtended.isDir, Tree.resolve_missing _ hVacant] at hq
      cases hq
      exact ⟨d ++ [name], ⟨pre, name, rest ++ [last], d, links, by simp, by simp, hLeads, hDir, hThere, rfl⟩,
        hExtended.below.trans (List.prefix_append _ _)⟩

structure Guarded (t : FileTree) (ws abs : Path) : Prop where
  real : ∀ p, realpath t abs = some p → ws <+: p
  parent : realpath t abs = none → ∀ parents name d, abs = parents ++ [name] →
    realpath t parents = some d → ws <+: d ++ [name]

theorem prefix_of_inside (h : inside ws path = true) : ws <+: path := by
  obtain rfl | hws := eq_or_ne ws []
  · exact List.nil_prefix
  · exact (inside_iff hws).mp h

theorem guarded_of_sandboxPath {workspace : Path} {requested : Text}
    (h : sandboxPath t workspace requested = .ok abs) :
    Guarded t (resolveWorkspaceRoot t workspace) abs := by
  have hInside : ∀ real, guarded t abs = some real → resolveWorkspaceRoot t workspace <+: real := by
    intro real hReal
    unfold sandboxPath at h
    dsimp only at h
    split at h
    · cases h
    split at h
    · rename_i hNone
      cases h
      rw [hReal] at hNone
      cases hNone
    · rename_i real' hSome
      split at h
      · rename_i hIn
        cases h
        cases hReal.symm.trans hSome
        exact prefix_of_inside hIn
      · cases h
  constructor
  · intro p hp
    exact hInside p (by rw [guarded, hp, Option.some_or])
  · rintro hNone parents name d rfl hd
    refine hInside _ ?_
    rw [guarded, hNone, Option.none_or, List.dropLast_concat, hd, List.getLast?_concat]
    rfl

theorem confined_at {q : Path × Nat} {follow : Bool} {e : LinkedTree.Entry Text Bytes} {t'' : FileTree}
    (hGuarded : Guarded t ws abs) (hUnlinked : Unlinked t ws abs)
    (hDirs : makeDirs t abs.dropLast = some t') (hq : locate t' ⟨follow, true⟩ abs = some q)
    (hPut : t'.put q.1 e = some t'') : ws <+: q.1 := by
  obtain ⟨rfl, parents, name, d, links, rfl, hLeads, hDir⟩ | ⟨first, ⟨pre, n, rest, d, links, hParts, hRest,
    hLeads, hDir, hMissing, rfl⟩, hBelow⟩ := place_cases hDirs hq hPut
  · have hParent : realpath t' parents = some d := by rw [realpath, hLeads]; rfl
    rw [locate_concat hLeads hDir] at hq
    cases hEntry : t'.entry (d ++ [name]) with
    | none =>
      have hNone : realpath t' (parents ++ [name]) = none := by
        rw [realpath, locate_concat hLeads hDir, Tree.resolve_missing _ hEntry]
        rfl
      rw [Tree.resolve_missing _ hEntry] at hq
      cases hq
      exact hGuarded.parent hNone parents name d rfl hParent
    | some e' =>
      by_cases hLink : ∃ absolute target, e' = .link absolute target
      · obtain ⟨absolute, target, rfl⟩ := hLink
        have hEnd := hUnlinked.link parents name d links absolute target rfl hLeads hEntry
        cases follow with
        | true =>
          rw [← locate_concat hLeads hDir] at hq
          obtain hReal | ⟨hNone, -⟩ := (Tree.resolve_creates (Tree.isDir_iff.mpr t'.root)).1 q hq
          · exact hGuarded.real q.1 (by rw [realpath, locate, hReal]; rfl)
          · rw [realpath, locate, hNone, if_neg (by simp)] at hEnd
            exact hEnd q hq
        | false =>
          rw [Tree.resolve_replaces] at hq
          cases hq
          cases hReal : realpath t' (parents ++ [name]) with
          | some p => rwa [if_pos (by rw [hReal]; rfl)] at hEnd
          | none => exact hGuarded.parent hReal parents name d rfl hParent
      · have hHere (final : Tree.Final) :
            t'.resolve final links d [.down name] = some (d ++ [name], links) :=
          Tree.resolve_down links hEntry fun absolute target h => hLink ⟨absolute, target, h⟩
        rw [hHere] at hq
        cases hq
        refine hGuarded.real _ ?_
        rw [realpath, locate_concat hLeads hDir, hHere]
        rfl
  · exact (hUnlinked.missing pre n rest d links hParts hRest hLeads hDir hMissing).trans hBelow

theorem confined_of_unlinked (hGuarded : Guarded t ws abs) (hUnlinked : Unlinked t ws abs) :
    Confined t ws abs := by
  intro p hTouches
  cases hTouches with
  | opened content h =>
    obtain ⟨q, hq, hRead⟩ := Option.bind_eq_some_iff.mp h
    refine hGuarded.real p ?_
    split at hRead
    · cases hRead
      rw [realpath, hq]
      rfl
    · cases hRead
  | madeDir path t' hPath h hNew hMade =>
    obtain hLeads | ⟨parents, name, rest, d, links, rfl, hLeads, hDir, hStops⟩ := leads_or_stops t path
    · rw [makeDirs_of_leads hLeads] at h
      cases h
      rw [hNew] at hMade
      cases hMade
    · cases hThere : t.entry (d ++ [name]) with
      | some e =>
        rw [makeDirs_stopped hLeads hDir hStops (by rw [hThere]; nofun)] at h
        cases h
      | none =>
        obtain ⟨t₁, hMakes, -, hExtended⟩ := makeDirs_missing hLeads hDir hThere rest
        cases hMakes.symm.trans h
        have hBelow : d ++ [name] <+: p := by
          by_contra hNot
          rw [hExtended.around p hNot, hNew] at hMade
          cases hMade
        obtain ⟨suffix, hSuffix⟩ := hPath
        obtain hNil | ⟨front, last, rfl⟩ := abs.eq_nil_or_concat'
        · rw [hNil] at hSuffix
          simp at hSuffix
        · rw [List.dropLast_concat] at hSuffix
          refine (hUnlinked.missing parents name (rest ++ suffix ++ [last]) d links ?_ (by simp) hLeads
            hDir hThere).trans hBelow
          rw [← hSuffix]
          simp
  | created content t' t'' hDirs h =>
    obtain ⟨q, hq, hWrite⟩ := Option.bind_eq_some_iff.mp h
    obtain ⟨_, hPut, hSame⟩ := Option.map_eq_some_iff.mp hWrite
    cases hSame
    exact confined_at hGuarded hUnlinked hDirs hq hPut
  | replaced content t' t'' hDirs h =>
    obtain ⟨q, hq, hWrite⟩ := Option.bind_eq_some_iff.mp h
    obtain ⟨_, hPut, hSame⟩ := Option.map_eq_some_iff.mp hWrite
    cases hSame
    exact confined_at hGuarded hUnlinked hDirs hq hPut

theorem unlinked_of_confined (h : Confined t ws abs) : Unlinked t ws abs := by
  constructor
  · rintro parents name rest d links rfl hRest hLeads hDir hMissing
    obtain ⟨t', hMakes, -, hExtended⟩ := makeDirs_missing hLeads hDir hMissing []
    refine h _ (.madeDir _ (parents ++ [name]) t' ?_ hMakes hMissing (Tree.isDir_iff.mp hExtended.isDir))
    obtain ⟨front, last, rfl⟩ := List.eq_nil_or_concat' rest |>.resolve_left hRest
    refine ⟨front, ?_⟩
    rw [← List.cons_append, ← List.append_assoc, List.dropLast_concat]
    simp
  · rintro parents name d links absolute target rfl hLeads hEntry
    have hDir : t.isDir d = true := Tree.isDir_iff.mpr (t.closed d name (by rw [hEntry]; rfl))
    have hDirs : makeDirs t (parents ++ [name]).dropLast = some t := by
      rw [List.dropLast_concat]
      exact makeDirs_of_leads ⟨d, links, hLeads, hDir⟩
    split
    · have hNot : t.isDir (d ++ [name]) = false := by
        rw [Tree.isDir, hEntry]
        rfl
      obtain ⟨t', hPut⟩ := Tree.exists_put (.file []) hDir hNot
      refine h _ (.replaced _ [] t t' hDirs ?_)
      rw [replaceFile, locate_concat hLeads hDir, Tree.resolve_replaces, Option.bind_some, hPut]
      rfl
    · rename_i hReal
      intro q hq
      obtain hLeads' | ⟨-, hNone, parent, last, hLast, hParent⟩ :=
        (Tree.resolve_creates (Tree.isDir_iff.mpr t.root)).1 q hq
      · exact absurd (by rw [realpath, locate, hLeads']; rfl) hReal
      · have hNot : t.isDir q.1 = false := by
          rw [Tree.isDir, hNone]
          rfl
        rw [hLast] at hNot ⊢
        obtain ⟨t', hPut⟩ := Tree.exists_put (.file []) hParent hNot
        refine h _ (.created _ [] t t' hDirs ?_)
        rw [writeFile, hq, Option.bind_some, hLast, hPut]
        rfl

/-- What `sandboxPath` returns leads to nothing outside the workspace just if the first part that is
missing is to be made in it, and a link in the last place stands in it or, where it leads nowhere,
ends in it. -/
theorem confined_iff (t : FileTree) (workspace : Path) (requested : Text) :
    (∀ abs, sandboxPath t workspace requested = .ok abs →
      Confined t (resolveWorkspaceRoot t workspace) abs) ↔
    ∀ abs, sandboxPath t workspace requested = .ok abs →
      Unlinked t (resolveWorkspaceRoot t workspace) abs :=
  forall₂_congr fun _ h => ⟨unlinked_of_confined, confined_of_unlinked (guarded_of_sandboxPath h)⟩

/-- The workspace `w` beside a directory `o`, with links to `o` and to a file that is missing in `o`. -/
def leakyTree : FileTree :=
  (([([['w']], .dir), ([['o']], .dir), ([['w'], ['l']], .link true [.down ['o'], .down ['n']]),
    ([['w'], ['m']], .link true [.down ['o']])] : List (Path × LinkedTree.Entry Text Bytes)).foldlM
      (fun (t : FileTree) e => t.put e.1 e.2) Tree.bare).getD Tree.bare

/-- A file is created outside the workspace through a link that leads nowhere, and a directory
through a link on the way to a path whose parents are missing. -/
theorem created_outside :
    sandboxPath leakyTree [['w']] ['l'] = .ok [['w'], ['l']] ∧
    ¬ Confined leakyTree (resolveWorkspaceRoot leakyTree [['w']]) [['w'], ['l']] ∧
    sandboxPath leakyTree [['w']] "m/a/b".toList = .ok [['w'], ['m'], ['a'], ['b']] ∧
    ¬ Confined leakyTree (resolveWorkspaceRoot leakyTree [['w']]) [['w'], ['m'], ['a'], ['b']] := by
  refine ⟨rfl, fun h => ?_, rfl, fun h => ?_⟩
  · exact absurd (h [['o'], ['n']] (.created _ [] _ _ rfl rfl)) (by decide +kernel)
  · exact absurd (h [['o'], ['a']] (.madeDir _ [['w'], ['m'], ['a']] _ (by decide +kernel) rfl
      (by decide +kernel) rfl)) (by decide +kernel)

end OrchestraAI.Execution.Linked
