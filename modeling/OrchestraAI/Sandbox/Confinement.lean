import Mathlib.Algebra.GroupWithZero.Nat
import Mathlib.Data.List.Infix
import OrchestraAI.Sandbox.Worker

/-! # Confinement

Where the worker writes the files of a request, and where the artifacts come from that it returns.
The snapshot is written before the command runs, when there are no links in the ephemeral
directory. The artifacts are collected afterwards: `lstat` refuses a link in the last place of a
requested path, and a link in any other place is followed.
-/

namespace OrchestraAI.Sandbox

open LinkedTree
open OrchestraAI.Execution (Path resolve inside inside_iff)

theorem prefix_resolve {dir : Path} {rel : Text} (hRoot : rel.head? ≠ some '/')
    (hUp : ['.', '.'] ∉ rel.splitOn '/') : dir <+: resolve dir rel := by
  unfold resolve
  rw [if_neg hRoot]
  generalize rel.splitOn '/' = names at hUp
  suffices ∀ p, dir <+: p → dir <+: names.foldl (fun p name =>
      if name = [] ∨ name = ['.'] then p
      else if name = ['.', '.'] then p.dropLast
      else p ++ [name]) p from this dir List.prefix_rfl
  induction names with
  | nil => exact fun p hp => hp
  | cons name names ih =>
    intro p hp
    rw [List.mem_cons, not_or] at hUp
    apply ih hUp.2
    dsimp only
    rw [if_neg (show ¬ name = ['.', '.'] from Ne.symm hUp.1)]
    split
    · exact hp
    · exact hp.trans (List.prefix_append _ _)

theorem assertWorkspaceRelPath_below {p rel : Text} (h : assertWorkspaceRelPath p = .ok rel)
    (dir : Path) : dir <+: resolve dir rel := by
  unfold assertWorkspaceRelPath at h
  split at h
  · cases h
  · split at h
    · cases h
    · dsimp only at h
      split at h
      · cases h
      · rename_i hRoot
        split at h
        · cases h
        · rename_i hUp
          cases h
          exact prefix_resolve (fun hHead => hRoot (.inl hHead)) hUp

theorem mapM_accepted {collect accepted : List Text}
    (h : collect.mapM assertWorkspaceRelPath = .ok accepted) (dir : Path) :
    ∀ rel ∈ accepted, dir <+: resolve dir rel := by
  induction collect generalizing accepted with
  | nil =>
    cases h
    exact List.forall_mem_nil _
  | cons p collect ih =>
    rw [List.mapM_cons] at h
    cases hPath : assertWorkspaceRelPath p with
    | error e =>
      rw [hPath] at h
      cases h
    | ok rel =>
      cases hRest : collect.mapM assertWorkspaceRelPath with
      | error e =>
        rw [hPath, hRest] at h
        cases h
      | ok rest =>
        rw [hPath, hRest] at h
        cases h
        rintro q (_ | ⟨_, hq⟩)
        · exact assertWorkspaceRelPath_below hPath dir
        · exact ih hRest q hq

theorem validateRequest_below {decode : Text → Bytes} {workspace : Option (List (Text × Text))}
    {collect : Option (List Text)} {request : Request}
    (h : validateRequest decode workspace collect = .ok request) (dir : Path) :
    ∀ rel ∈ request.collect, dir <+: resolve dir rel := by
  unfold validateRequest at h
  cases hFiles : workspace.elim (.ok []) (validateWorkspaceSnapshot decode) with
  | error e =>
    rw [hFiles] at h
    cases h
  | ok files =>
    cases hCollect : collect.elim (.ok []) validateCollect with
    | error e =>
      rw [hFiles, hCollect] at h
      cases h
    | ok accepted =>
      rw [hFiles, hCollect] at h
      cases h
      cases collect with
      | none =>
        cases hCollect
        exact List.forall_mem_nil _
      | some collect =>
        rw [Option.elim, validateCollect] at hCollect
        split at hCollect
        · cases hCollect
        · exact mapM_accepted hCollect dir

/-- What may become of a tree through changes inside a directory. -/
structure Tampered (dir : Path) (t t' : FileTree) : Prop where
  around : ∀ p, ¬ dir <+: p → t'.entry p = t.entry p
  stays : t'.entry dir = some .dir

structure Vacant (before : FileTree) (root parent : Path) (name : Text) (links : Nat) : Prop where
  leads : locate before Tree.Final.follows root = some (parent, links)
  isDir : before.isDir parent = true
  vacant : before.entry (parent ++ [name]) = none

section Directory

variable {before t t' : FileTree} {root parent path : Path} {name : Text} {links : Nat}
  {final : Tree.Final} {q : Path × Nat}

theorem locate_append {p rest : Path} (h : rest ≠ []) :
    locate t final (p ++ rest) = (locate t Tree.Final.follows p).bind fun q =>
      if t.isDir q.1 then t.resolve final q.2 q.1 (rest.map .down) else none := by
  unfold locate
  rw [List.map_append]
  exact Tree.resolve_append (by simpa using h) (Tree.isDir_iff.mpr t.root)

theorem Tampered.mono (hVacant : before.entry parent = none) (h : Tampered parent before t)
    (p : Path) (e : Entry Text Bytes) (he : before.entry p = some e) : t.entry p = some e := by
  rw [h.around p, he]
  intro hBelow
  rw [Tree.entry_eq_none_below hVacant hBelow] at he
  cases he

theorem Vacant.locate_eq (hVacant : Vacant before root parent name links)
    (h : Tampered (parent ++ [name]) before t) (final : Tree.Final) :
    locate t final (root ++ [name]) = some (parent ++ [name], links) := by
  have hMono := h.mono hVacant.vacant
  have hParent : t.isDir parent = true :=
    Tree.isDir_iff.mpr (hMono _ _ (Tree.isDir_iff.mp hVacant.isDir))
  have hRoot : locate t Tree.Final.follows root = some (parent, links) :=
    Tree.resolve_mono hMono hVacant.leads
  rw [locate_append (List.cons_ne_nil _ _), hRoot, Option.bind_some, if_pos hParent]
  exact Tree.resolve_down links h.stays fun _ _ h => (by cases h)

theorem Vacant.locate_below (hVacant : Vacant before root parent name links)
    (h : Tampered (parent ++ [name]) before t) (names : Path) :
    locate t final (root ++ [name] ++ names)
      = t.resolve final links (parent ++ [name]) (names.map .down) := by
  cases names with
  | nil =>
    rw [List.append_nil, hVacant.locate_eq h]
    cases links with
    | zero => rfl
    | succ links => rfl
  | cons n names =>
    rw [locate_append (List.cons_ne_nil _ _), hVacant.locate_eq h, Option.bind_some,
      if_pos (Tree.isDir_iff.mpr h.stays)]

theorem Vacant.isDir_around (hVacant : Vacant before root parent name links)
    (h : Tampered (parent ++ [name]) before t) (hPath : path <+: root ++ [name]) :
    ((locate t Tree.Final.follows path).any fun q => t.isDir q.1) = true := by
  obtain ⟨rest, hRest⟩ := hPath
  have hLeads := hVacant.locate_eq h Tree.Final.follows
  rw [← hRest] at hLeads
  obtain rfl | hSome := eq_or_ne rest []
  · rw [List.append_nil] at hLeads
    rw [hLeads, Option.any_some]
    exact Tree.isDir_iff.mpr h.stays
  · rw [locate_append hSome] at hLeads
    obtain ⟨q, hq, hFurther⟩ := Option.bind_eq_some_iff.mp hLeads
    rw [hq, Option.any_some]
    split at hFurther
    · assumption
    · cases hFurther

structure Untouched (dir : Path) (before t : FileTree) : Prop extends Tampered dir before t where
  linkless : t.Linkless dir

theorem Untouched.put {dir p : Path} {e : Entry Text Bytes} (h : Untouched dir before t)
    (hPut : t.put p e = some t') (hp : dir <+: p)
    (hLink : ∀ absolute target, e ≠ .link absolute target) : Untouched dir before t' := by
  obtain ⟨hEntry, -, hNot⟩ := Tree.put_entry hPut
  have hOther : dir ≠ p := by
    rintro rfl
    rw [Tree.isDir_iff.mpr h.stays] at hNot
    cases hNot
  refine ⟨⟨?_, ?_⟩, ?_⟩
  · intro r hr
    rw [hEntry, Function.update_of_ne, h.around r hr]
    rintro rfl
    exact hr hp
  · rw [hEntry, Function.update_of_ne hOther]
    exact h.stays
  · intro r hr absolute target hLinked
    rw [hEntry] at hLinked
    obtain rfl | hne := eq_or_ne r p
    · rw [Function.update_self, Option.some.injEq] at hLinked
      exact hLink absolute target hLinked
    · rw [Function.update_of_ne hne] at hLinked
      exact h.linkless r hr absolute target hLinked

theorem Vacant.locate_untouched (hVacant : Vacant before root parent name links)
    (h : Untouched (parent ++ [name]) before t) (hPath : root ++ [name] <+: path)
    (hq : locate t final path = some q) : parent ++ [name] <+: q.1 := by
  obtain ⟨names, rfl⟩ := hPath
  rw [hVacant.locate_below h.toTampered] at hq
  rw [Tree.resolve_linkless h.linkless List.prefix_rfl hq]
  exact List.prefix_append _ _

theorem Vacant.makeDir (hVacant : Vacant before root parent name links)
    (h : Untouched (parent ++ [name]) before t)
    (hPath : path <+: root ++ [name] ∨ root ++ [name] <+: path) (hDir : makeDir t path = some t') :
    Untouched (parent ++ [name]) before t' := by
  unfold Sandbox.makeDir at hDir
  obtain hAround | hBelow := hPath
  · rw [if_pos (hVacant.isDir_around h.toTampered hAround)] at hDir
    cases hDir
    exact h
  · split at hDir
    · cases hDir
      exact h
    · obtain ⟨q, hq, hPut⟩ := Option.bind_eq_some_iff.mp hDir
      split at hPut
      · cases hPut
      · exact h.put hPut (hVacant.locate_untouched h hBelow hq) fun _ _ h => (by cases h)

theorem Vacant.makeDirs (hVacant : Vacant before root parent name links)
    (h : Untouched (parent ++ [name]) before t)
    (hPath : path <+: root ++ [name] ∨ root ++ [name] <+: path)
    (hDirs : makeDirs t path = some t') : Untouched (parent ++ [name]) before t' := by
  unfold Sandbox.makeDirs at hDirs
  have hInits (p : Path) (hp : p ∈ path.inits) : p <+: root ++ [name] ∨ root ++ [name] <+: p := by
    rw [List.mem_inits] at hp
    obtain hAround | hBelow := hPath
    · exact .inl (hp.trans hAround)
    · exact List.prefix_or_prefix_of_prefix hp hBelow
  generalize path.inits = paths at hInits hDirs
  induction paths generalizing t with
  | nil =>
    cases hDirs
    exact h
  | cons p paths ih =>
    rw [List.foldlM_cons] at hDirs
    obtain ⟨t₁, hDir, hRest⟩ := Option.bind_eq_some_iff.mp hDirs
    exact ih (hVacant.makeDir h (hInits p List.mem_cons_self) hDir)
      (fun p hp => hInits p (List.mem_cons_of_mem _ hp)) hRest

theorem Vacant.materializeFile (hVacant : Vacant before root parent name links)
    (h : Untouched (parent ++ [name]) before t) {f : WorkspaceFile} {location : Path}
    (hFile : materializeFile (root ++ [name]) t f = some (t', location)) :
    Untouched (parent ++ [name]) before t' ∧ parent ++ [name] <+: location := by
  unfold Sandbox.materializeFile at hFile
  dsimp only at hFile
  split at hFile
  · cases hFile
  · rename_i hInside
    rw [Bool.not_eq_true, Bool.not_eq_false', inside_iff (by simp)] at hInside
    obtain ⟨t₁, hDirs, hWrite⟩ := Option.bind_eq_some_iff.mp hFile
    obtain ⟨q, hq, hWrite⟩ := Option.bind_eq_some_iff.mp hWrite
    obtain ⟨t₂, hPut, hSame⟩ := Option.map_eq_some_iff.mp hWrite
    cases hSame
    have hParents : (resolve (root ++ [name]) f.path).dropLast <+: root ++ [name] ∨
        root ++ [name] <+: (resolve (root ++ [name]) f.path).dropLast :=
      List.prefix_or_prefix_of_prefix (List.dropLast_prefix _) hInside
    have hDirs := hVacant.makeDirs h hParents hDirs
    have hLocation := hVacant.locate_untouched hDirs hInside hq
    refine ⟨hDirs.put (p := q.1) hPut hLocation ?_, hLocation⟩
    rintro absolute target ⟨⟩

theorem Vacant.materialize (hVacant : Vacant before root parent name links)
    (h : Untouched (parent ++ [name]) before t) (files : List WorkspaceFile) :
    (∀ p ∈ (materialize (root ++ [name]) t files).1, parent ++ [name] <+: p) ∧
      ∀ t' ∈ (materialize (root ++ [name]) t files).2, Untouched (parent ++ [name]) before t' := by
  induction files generalizing t with
  | nil =>
    constructor
    · exact List.forall_mem_nil _
    · rintro t' ⟨⟩
      exact h
  | cons f files ih =>
    rw [Sandbox.materialize]
    cases hFile : Sandbox.materializeFile (root ++ [name]) t f with
    | none =>
      constructor
      · exact List.forall_mem_nil _
      · rintro t' ⟨⟩
    | some written =>
      obtain ⟨hUntouched, hLocation⟩ := hVacant.materializeFile h hFile
      obtain ⟨hWritten, hLeft⟩ := ih hUntouched
      exact ⟨List.forall_mem_cons.mpr ⟨hLocation, hWritten⟩, hLeft⟩

section Collect

variable {dir parents : Path} {last : Text}

theorem statFile_iff {size : Nat} : statFile t (parents ++ [last]) = some size ↔
    ∃ d l content, locate t Tree.Final.follows parents = some (d, l) ∧
      t.entry (d ++ [last]) = some (.file content) ∧ content.length = size := by
  unfold statFile
  rw [locate_append (List.cons_ne_nil _ _)]
  constructor
  · intro h
    obtain ⟨q, hq, hSize⟩ := Option.bind_eq_some_iff.mp h
    obtain ⟨d, hd, hq⟩ := Option.bind_eq_some_iff.mp hq
    split at hq
    · rw [List.map_singleton, Tree.resolve_stops_down] at hq
      obtain ⟨e, he, rfl⟩ := Option.map_eq_some_iff.mp hq
      rw [he] at hSize
      cases e with
      | file content =>
        cases hSize
        exact ⟨d.1, d.2, content, hd, he, rfl⟩
      | dir => cases hSize
      | link absolute target => cases hSize
    · cases hq
  · rintro ⟨d, l, content, hd, he, rfl⟩
    have hDir : t.isDir d = true := Tree.isDir_iff.mpr (t.closed d last (by rw [he]; rfl))
    rw [hd, Option.bind_some, if_pos hDir, List.map_singleton, Tree.resolve_stops_down, he]
    dsimp only [Option.map_some, Option.bind_some]
    rw [he]

/-- The file that `lstat` sees is the file that is read. -/
theorem readFile_eq {d : Path} {l : Nat} {content : Bytes}
    (hd : locate t Tree.Final.follows parents = some (d, l))
    (he : t.entry (d ++ [last]) = some (.file content)) :
    readFile t (parents ++ [last]) = some (d ++ [last], content) := by
  have hDir : t.isDir d = true := Tree.isDir_iff.mpr (t.closed d last (by rw [he]; rfl))
  unfold readFile
  rw [locate_append (List.cons_ne_nil _ _), hd, Option.bind_some, if_pos hDir, List.map_singleton,
    Tree.resolve_down l he fun _ _ h => (by cases h), Option.bind_some]
  dsimp only
  rw [he]

/-- A file within the cap stands under the last name of a path, in the directory to which the
other names lead. -/
structure Offered (t : FileTree) (path : Path) (d : Path) (last : Text) (content : Bytes) :
    Prop where
  leads : ∃ parents l, path = parents ++ [last] ∧
    locate t Tree.Final.follows parents = some (d, l)
  file : t.entry (d ++ [last]) = some (.file content)
  small : content.length ≤ WS_MAX_FILE_BYTES

theorem artifactOf_iff {rel : Text} {a : Artifact} (hDir : dir ≠ [])
    (hBelow : dir <+: resolve dir rel) : artifactOf dir t rel = some a ↔
    ∃ d last, Offered t (resolve dir rel) d last a.content ∧ a.path = rel ∧
      a.location = d ++ [last] := by
  unfold artifactOf
  dsimp only
  rw [if_neg (by rw [(inside_iff hDir).mpr hBelow]; exact Bool.false_ne_true)]
  obtain ⟨parents, last, hPath⟩ : ∃ parents last, resolve dir rel = parents ++ [last] := by
    obtain hNil | hConcat := (resolve dir rel).eq_nil_or_concat'
    · rw [hNil, List.prefix_nil] at hBelow
      exact absurd hBelow hDir
    · exact hConcat
  rw [hPath]
  constructor
  · intro h
    obtain ⟨size, hSize, h⟩ := Option.bind_eq_some_iff.mp h
    obtain ⟨d, l, content, hd, he, rfl⟩ := statFile_iff.mp hSize
    split at h
    · cases h
    · rename_i hSmall
      rw [readFile_eq hd he, Option.bind_some] at h
      dsimp only at h
      rw [if_neg hSmall] at h
      cases h
      exact ⟨d, last, ⟨⟨parents, l, rfl, hd⟩, he, not_lt.mp hSmall⟩, rfl, rfl⟩
  · rintro ⟨d, last', ⟨⟨parents', l, hSame, hd⟩, he, hSmall⟩, hRel, hLocation⟩
    obtain ⟨rfl, hLast⟩ := List.append_inj' hSame rfl
    cases hLast
    have hCap : ¬ WS_MAX_FILE_BYTES < a.content.length := by omega
    rw [statFile_iff.mpr ⟨d, l, a.content, hd, he, rfl⟩, Option.bind_some, if_neg hCap,
      readFile_eq hd he, Option.bind_some]
    dsimp only
    rw [if_neg hCap, ← hRel, ← hLocation]

def offeredSize (dir : Path) (t : FileTree) (rel : Text) : Nat :=
  ((statFile t (resolve dir rel)).filter fun size => size ≤ WS_MAX_FILE_BYTES).getD 0

theorem offeredSize_of_some {rel : Text} {a : Artifact} (hDir : dir ≠ [])
    (hBelow : dir <+: resolve dir rel) (h : artifactOf dir t rel = some a) :
    offeredSize dir t rel = a.content.length := by
  obtain ⟨d, last, ⟨⟨parents, l, hPath, hd⟩, he, hSmall⟩, -, -⟩ := (artifactOf_iff hDir hBelow).mp h
  unfold offeredSize
  rw [hPath, statFile_iff.mpr ⟨d, l, a.content, hd, he, rfl⟩, Option.filter_some,
    if_pos (decide_eq_true hSmall), Option.getD_some]

theorem offeredSize_of_none {rel : Text} (hDir : dir ≠ []) (hBelow : dir <+: resolve dir rel)
    (h : artifactOf dir t rel = none) : offeredSize dir t rel = 0 := by
  unfold offeredSize
  obtain hNil | ⟨parents, last, hPath⟩ := (resolve dir rel).eq_nil_or_concat'
  · rw [hNil, List.prefix_nil] at hBelow
    exact absurd hBelow hDir
  · cases hSize : statFile t (resolve dir rel) with
    | none => rfl
    | some size =>
      rw [hPath] at hSize
      obtain ⟨d, l, content, hd, he, rfl⟩ := statFile_iff.mp hSize
      obtain hSmall | hLarge := le_or_gt content.length WS_MAX_FILE_BYTES
      · have hSome : artifactOf dir t rel = some ⟨rel, content, d ++ [last]⟩ :=
          (artifactOf_iff hDir hBelow).mpr
            ⟨d, last, ⟨⟨parents, l, hPath, hd⟩, he, hSmall⟩, rfl, rfl⟩
        rw [h] at hSome
        cases hSome
      · rw [Option.filter_some, if_neg (by simpa using hLarge), Option.getD_none]

theorem mem_collectArtifacts {total : Nat} {collect : List Text} {a : Artifact} (hDir : dir ≠ [])
    (hBelow : ∀ rel ∈ collect, dir <+: resolve dir rel) :
    a ∈ collectArtifacts dir t total collect ↔ ∃ before rel after,
      collect = before ++ rel :: after ∧ artifactOf dir t rel = some a ∧
        total + ((before ++ [rel]).map (offeredSize dir t)).sum ≤ COLLECT_MAX_TOTAL_BYTES := by
  induction collect generalizing total with
  | nil =>
    constructor
    · rintro ⟨⟩
    · rintro ⟨before, rel, after, hSplit, -, -⟩
      exact absurd hSplit.symm (List.append_ne_nil_of_right_ne_nil _ (List.cons_ne_nil _ _))
  | cons r collect ih =>
    have hHere := hBelow r List.mem_cons_self
    have ih (total : Nat) := @ih total fun rel h => hBelow rel (List.mem_cons_of_mem _ h)
    rw [collectArtifacts]
    cases hArtifact : artifactOf dir t r with
    | none =>
      have hSize := offeredSize_of_none hDir hHere hArtifact
      dsimp only
      rw [ih]
      constructor
      · rintro ⟨before, rel, after, rfl, hSome, hFits⟩
        refine ⟨r :: before, rel, after, rfl, hSome, ?_⟩
        rw [List.cons_append, List.map_cons, List.sum_cons]
        omega
      · rintro ⟨_ | ⟨b, before⟩, rel, after, hSplit, hSome, hFits⟩
        · cases hSplit
          rw [hArtifact] at hSome
          cases hSome
        · cases hSplit
          rw [List.cons_append, List.map_cons, List.sum_cons] at hFits
          exact ⟨before, rel, after, rfl, hSome, by omega⟩
    | some first =>
      have hSize := offeredSize_of_some hDir hHere hArtifact
      dsimp only
      rw [← hSize]
      constructor
      · intro ha
        split at ha
        · cases ha
        · rename_i hFirst
          obtain ⟨⟩ | ⟨_, ha⟩ := ha
          · refine ⟨[], r, collect, rfl, hArtifact, ?_⟩
            rw [List.nil_append, List.map_singleton, List.sum_singleton]
            omega
          · obtain ⟨before, rel, after, rfl, hSome, hFits⟩ := (ih _).mp ha
            refine ⟨r :: before, rel, after, rfl, hSome, ?_⟩
            rw [List.cons_append, List.map_cons, List.sum_cons]
            omega
      · rintro ⟨_ | ⟨b, before⟩, rel, after, hSplit, hSome, hFits⟩
        · cases hSplit
          rw [hArtifact] at hSome
          cases hSome
          rw [List.nil_append, List.map_singleton, List.sum_singleton] at hFits
          rw [if_neg (by omega)]
          exact List.mem_cons_self
        · cases hSplit
          rw [List.cons_append, List.map_cons, List.sum_cons] at hFits
          rw [if_neg (by omega)]
          exact List.mem_cons_of_mem _ ((ih _).mpr ⟨before, rel, after, rfl, hSome, by omega⟩)

def Straight (dir location : Path) (t : FileTree) (collect : List Text) : Prop :=
  ∀ before rel after, collect = before ++ rel :: after →
    ((before ++ [rel]).map (offeredSize dir t)).sum ≤ COLLECT_MAX_TOTAL_BYTES →
    ∀ d last content, Offered t (resolve dir rel) d last content → location <+: d

theorem collectArtifacts_inside_iff {location : Path} {collect : List Text} (hDir : dir ≠ [])
    (hStays : t.entry location = some .dir) (hBelow : ∀ rel ∈ collect, dir <+: resolve dir rel) :
    (∀ a ∈ collectArtifacts dir t 0 collect, location <+: a.location) ↔
      Straight dir location t collect := by
  constructor
  · intro h before rel after hSplit hFits d last content hOffered
    have hRel : dir <+: resolve dir rel := by
      apply hBelow
      rw [hSplit]
      exact List.mem_append_right _ List.mem_cons_self
    have hSome : artifactOf dir t rel = some ⟨rel, content, d ++ [last]⟩ :=
      (artifactOf_iff hDir hRel).mpr ⟨d, last, hOffered, rfl, rfl⟩
    have hInside : location <+: d ++ [last] :=
      h _ ((mem_collectArtifacts hDir hBelow).mpr
        ⟨before, rel, after, hSplit, hSome, by rw [Nat.zero_add]; exact hFits⟩)
    obtain hSame | hInside := List.prefix_concat_iff.mp hInside
    · have hFile := hOffered.file
      rw [show d ++ [last] = location from hSame.symm, hStays] at hFile
      cases hFile
    · exact hInside
  · intro h a ha
    obtain ⟨before, rel, after, hSplit, hSome, hFits⟩ := (mem_collectArtifacts hDir hBelow).mp ha
    rw [Nat.zero_add] at hFits
    have hRel : dir <+: resolve dir rel := by
      apply hBelow
      rw [hSplit]
      exact List.mem_append_right _ List.mem_cons_self
    obtain ⟨d, last, hOffered, -, hLocation⟩ := (artifactOf_iff hDir hRel).mp hSome
    rw [hLocation]
    exact (h before rel after hSplit hFits d last _ hOffered).trans (List.prefix_append _ _)

end Collect

end Directory

theorem vacant_untouched {before t : FileTree} {root parent : Path} {name : Text} {links : Nat}
    (hRoot : locate before Tree.Final.follows root = some (parent, links))
    (hNone : before.entry (parent ++ [name]) = none)
    (hPut : before.put (parent ++ [name]) .dir = some t) :
    Vacant before root parent name links ∧ Untouched (parent ++ [name]) before t := by
  obtain ⟨hEntry, hParent, -⟩ := Tree.put_entry hPut
  rw [List.dropLast_concat] at hParent
  refine ⟨⟨hRoot, hParent, hNone⟩, ⟨?_, ?_⟩, ?_⟩
  · intro p hp
    rw [hEntry, Function.update_of_ne]
    rintro rfl
    exact hp List.prefix_rfl
  · rw [hEntry, Function.update_self]
  · intro p hp absolute target hLinked
    rw [hEntry] at hLinked
    obtain rfl | hne := eq_or_ne p (parent ++ [name])
    · rw [Function.update_self] at hLinked
      cases hLinked
    · rw [Function.update_of_ne hne, Tree.entry_eq_none_below hNone hp] at hLinked
      cases hLinked

/-- For a request that the worker accepts, and a command that changes nothing outside the
ephemeral directory: all that is written and all that is returned is inside the directory if and
only if the command leaves no link that leads out of it on the way to a file that is returned. -/
theorem execution_confined_iff {decode : Text → Bytes} {workspaceRoot : Path} {name : Text}
    {command : FileTree → FileTree} {t : FileTree} {workspace : Option (List (Text × Text))}
    {collect : Option (List Text)} {request : Request} {outcome : Outcome}
    (hAccepted : validateRequest decode workspace collect = .ok request)
    (hRun : executeInEphemeralWorkspace workspaceRoot name command t request = some outcome)
    (hCommand : ∀ t, t.entry outcome.location = some .dir →
      Tampered outcome.location t (command t)) :
    ((∀ p ∈ outcome.written, outcome.location <+: p) ∧
      ∀ a ∈ outcome.artifacts, outcome.location <+: a.location) ↔
    ∀ t' ∈ outcome.left,
      Straight (workspaceRoot ++ [name]) outcome.location t' request.collect := by
  obtain ⟨before, -, hRun⟩ := Option.bind_eq_some_iff.mp hRun
  obtain ⟨⟨parent, links⟩, hRoot, hRun⟩ := Option.bind_eq_some_iff.mp hRun
  dsimp only at hRun
  split at hRun
  · cases hRun
  · rename_i hNone
    obtain ⟨made, hMade, rfl⟩ := Option.map_eq_some_iff.mp hRun
    obtain ⟨hVacant, hUntouched⟩ :=
      vacant_untouched hRoot (Option.not_isSome_iff_eq_none.mp hNone) hMade
    obtain ⟨hWritten, hLeft⟩ := hVacant.materialize hUntouched request.workspaceFiles
    have hBelow := validateRequest_below hAccepted (workspaceRoot ++ [name])
    dsimp only at hCommand ⊢
    rw [and_iff_right hWritten]
    cases hMaterialized :
        (materialize (workspaceRoot ++ [name]) made request.workspaceFiles).2 with
    | none =>
      constructor
      · rintro - t' ⟨⟩
      · rintro - a ⟨⟩
    | some written =>
      have hStays := (hCommand written (hLeft written hMaterialized).stays).stays
      have hInside := collectArtifacts_inside_iff (by simp) hStays hBelow
      constructor
      · rintro h t' ⟨⟩
        exact hInside.mp h
      · intro h
        exact hInside.mpr (h _ rfl)

/-! A command that puts a link into its directory. -/

section Planted

/-- A machine with one file, in `etc`. -/
def machine : FileTree :=
  ((Tree.bare.put ["etc".toList] .dir).bind fun t =>
    t.put ["etc".toList, "passwd".toList] (.file [114, 111, 111, 116])).getD Tree.bare

/-- `ln -s /etc out`. -/
def plant (t : FileTree) : FileTree :=
  (t.put ["ws".toList, "run".toList, "out".toList] (.link true [.down "etc".toList])).getD t

theorem plant_tampered (t : FileTree) (h : t.entry ["ws".toList, "run".toList] = some .dir) :
    Tampered ["ws".toList, "run".toList] t (plant t) := by
  unfold plant
  cases hPut : t.put ["ws".toList, "run".toList, "out".toList] (.link true [.down "etc".toList]) with
  | none => exact ⟨fun _ _ => rfl, h⟩
  | some t' =>
    obtain ⟨hEntry, -, -⟩ := Tree.put_entry hPut
    rw [Option.getD_some]
    constructor
    · intro p hp
      rw [hEntry, Function.update_of_ne]
      rintro rfl
      exact hp (by decide +kernel)
    · rw [hEntry, Function.update_of_ne (by decide +kernel)]
      exact h

def planted : Option Outcome :=
  executeInEphemeralWorkspace ["ws".toList] "run".toList plant machine
    ⟨[⟨"a".toList, [1]⟩], ["out/passwd".toList]⟩

theorem planted_isSome : planted.isSome := by decide +kernel

theorem planted_location :
    (planted.get planted_isSome).location = ["ws".toList, "run".toList] := by decide +kernel

theorem execution_confined_iff_planted :
    let outcome := planted.get planted_isSome
    ((∀ p ∈ outcome.written, outcome.location <+: p) ∧
      ∀ a ∈ outcome.artifacts, outcome.location <+: a.location) ↔
    ∀ t' ∈ outcome.left,
      Straight ["ws".toList, "run".toList] outcome.location t' ["out/passwd".toList] :=
  @execution_confined_iff (fun _ => [1]) _ _ _ _ (some [("a".toList, "AQ==".toList)])
    (some ["out/passwd".toList]) _ _ (by rfl) (Option.some_get planted_isSome).symm
    (by
      rw [planted_location]
      exact plant_tampered)

/-- The file outside the directory is returned. -/
theorem passwd_returned :
    validateRequest (fun _ => [1]) (some [("a".toList, "AQ==".toList)])
        (some ["out/passwd".toList]) = .ok ⟨[⟨"a".toList, [1]⟩], ["out/passwd".toList]⟩ ∧
      (∀ t, t.entry ["ws".toList, "run".toList] = some .dir →
        Tampered ["ws".toList, "run".toList] t (plant t)) ∧
      planted.map (fun o => (o.location, o.artifacts.map fun a => (a.location, a.content))) =
        some (["ws".toList, "run".toList],
          [(["etc".toList, "passwd".toList], [114, 111, 111, 116])]) ∧
      ¬ ["ws".toList, "run".toList] <+: ["etc".toList, "passwd".toList] :=
  ⟨by rfl, plant_tampered, by decide +kernel, by decide +kernel⟩

end Planted

end OrchestraAI.Sandbox
