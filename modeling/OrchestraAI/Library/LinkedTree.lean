import Mathlib.Data.List.Infix
import Mathlib.Logic.Function.Basic

/-! # File trees with symbolic links

Files, directories and links at paths of names. A path is walked from a directory name by name;
at a link the walk goes on along its target, for as many links as are left.
-/

namespace LinkedTree

/-- A part of a path: a name, the parent directory or the directory itself. -/
inductive Hop (ν : Type)
  | down (name : ν)
  | up
  | stay
  deriving DecidableEq

inductive Entry (ν β : Type)
  | file (content : β)
  | dir
  /-- A link to a path from the root, or from the directory that it stands in. -/
  | link (absolute : Bool) (target : List (Hop ν))

variable {ν β : Type}

def Entry.isDir : Entry ν β → Bool
  | .dir => true
  | _ => false

theorem Entry.isDir_iff {e : Entry ν β} : e.isDir = true ↔ e = .dir := by
  cases e with
  | dir => exact ⟨fun _ => rfl, fun _ => rfl⟩
  | _ => exact ⟨fun h => (by cases h), fun h => (by cases h)⟩

structure Tree (ν β : Type) where
  entry : List ν → Option (Entry ν β)
  root : entry [] = some .dir
  closed : ∀ p name, (entry (p ++ [name])).isSome → entry p = some .dir

namespace Tree

def bare : Tree ν β where
  entry p := if p.isEmpty then some .dir else none
  root := rfl
  closed p name h := by
    rw [List.isEmpty_eq_false_iff.mpr (List.concat_ne_nil name p)] at h
    cases h

def isDir (t : Tree ν β) (p : List ν) : Bool := (t.entry p).any Entry.isDir

theorem isDir_iff {t : Tree ν β} {p : List ν} : t.isDir p = true ↔ t.entry p = some .dir := by
  unfold isDir
  cases t.entry p with
  | none => exact ⟨fun h => (by cases h), fun h => (by cases h)⟩
  | some e =>
    rw [Option.any_some, Entry.isDir_iff, Option.some.injEq]

theorem isDir_dropLast {t : Tree ν β} {p : List ν} (h : t.isDir p = true) :
    t.isDir p.dropLast = true := by
  rw [isDir_iff] at h ⊢
  obtain rfl | ⟨q, name, rfl⟩ := p.eq_nil_or_concat'
  · exact h
  · rw [List.dropLast_concat]
    exact t.closed q name (by rw [h]; rfl)

theorem entry_eq_none_below {t : Tree ν β} {p q : List ν} (h : t.entry p = none) (hBelow : p <+: q) :
    t.entry q = none := by
  obtain ⟨s, rfl⟩ := hBelow
  induction s using List.reverseRecOn with
  | nil =>
    rw [List.append_nil]
    exact h
  | append_singleton s name ih =>
    rw [← List.append_assoc, ← Option.not_isSome_iff_eq_none]
    intro hSome
    rw [t.closed _ _ hSome] at ih
    cases ih

section Set

variable [DecidableEq ν] (t : Tree ν β) (parent : List ν) (name : ν) (e : Entry ν β)

theorem set_root : Function.update t.entry (parent ++ [name]) (some e) [] = some .dir := by
  rw [Function.update_of_ne (by simp)]
  exact t.root

theorem set_closed (h : t.isDir parent = true ∧ t.isDir (parent ++ [name]) = false)
    (p : List ν) (n : ν)
    (hSome : (Function.update t.entry (parent ++ [name]) (some e) (p ++ [n])).isSome) :
    Function.update t.entry (parent ++ [name]) (some e) p = some .dir := by
  obtain ⟨hParent, hNot⟩ := h
  have hDir : t.entry p = some .dir := by
    obtain hSame | hOther := eq_or_ne (p ++ [n]) (parent ++ [name])
    · rw [(List.append_inj' hSame rfl).1]
      exact isDir_iff.mp hParent
    · rw [Function.update_of_ne hOther] at hSome
      exact t.closed p n hSome
  obtain rfl | hOther := eq_or_ne p (parent ++ [name])
  · rw [isDir_iff.mpr hDir] at hNot
    cases hNot
  · rw [Function.update_of_ne hOther]
    exact hDir

/-- The tree with a file or an empty directory in a directory, in the place of no directory. -/
def set (h : t.isDir parent = true ∧ t.isDir (parent ++ [name]) = false) : Tree ν β where
  entry := Function.update t.entry (parent ++ [name]) (some e)
  root := set_root t parent name e
  closed := set_closed t parent name e h

end Set

/-- The tree with an entry at a path, unless there is a directory or none around it. -/
def put [DecidableEq ν] (t : Tree ν β) (p : List ν) (e : Entry ν β) : Option (Tree ν β) :=
  p.getLast?.bind fun name =>
    if h : t.isDir p.dropLast = true ∧ t.isDir (p.dropLast ++ [name]) = false then
      some (t.set p.dropLast name e h)
    else none

theorem put_entry [DecidableEq ν] {t t' : Tree ν β} {p : List ν} {e : Entry ν β}
    (h : t.put p e = some t') :
    t'.entry = Function.update t.entry p (some e) ∧ t.isDir p.dropLast = true ∧
      t.isDir p = false := by
  obtain ⟨name, hName, hPut⟩ := Option.bind_eq_some_iff.mp h
  have hPath : p.dropLast ++ [name] = p := List.dropLast_append_getLast? name hName
  split at hPut
  · rename_i hDirs
    cases hPut
    refine ⟨?_, hDirs.1, hPath ▸ hDirs.2⟩
    change Function.update t.entry (p.dropLast ++ [name]) (some e) = _
    rw [hPath]
  · cases hPut

theorem exists_put [DecidableEq ν] {t : Tree ν β} {parent : List ν} {name : ν} (e : Entry ν β)
    (hParent : t.isDir parent = true) (hNot : t.isDir (parent ++ [name]) = false) :
    ∃ t', t.put (parent ++ [name]) e = some t' := by
  refine ⟨_, Option.bind_eq_some_iff.mpr ⟨name, List.getLast?_concat, dif_pos ?_⟩⟩
  rw [List.dropLast_concat]
  exact ⟨hParent, hNot⟩

/-- What is done at the last name of a path: whether a link is followed, and whether what is
missing is to be created. -/
structure Final where
  follow : Bool
  create : Bool
  deriving DecidableEq

def Final.follows : Final := ⟨true, false⟩

def Final.stops : Final := ⟨false, false⟩

/-- The walk to the next link, where it goes on with `next`. The location is given with the
links that are left. -/
def walk (t : Tree ν β) (final : Final) (links : Nat)
    (next : List ν → List (Hop ν) → Option (List ν × Nat)) :
    List ν → List (Hop ν) → Option (List ν × Nat)
  | cur, [] => some (cur, links)
  | cur, .stay :: hops => walk t final links next cur hops
  | cur, .up :: hops => walk t final links next cur.dropLast hops
  | cur, .down name :: hops =>
    match t.entry (cur ++ [name]) with
    | none => if hops.isEmpty && final.create then some (cur ++ [name], links) else none
    | some .dir => walk t final links next (cur ++ [name]) hops
    | some (.file _) => if hops.isEmpty then some (cur ++ [name], links) else none
    | some (.link absolute target) =>
      if hops.isEmpty && !final.follow then some (cur ++ [name], links)
      else next (if absolute then [] else cur) (target ++ hops)

def resolve (t : Tree ν β) (final : Final) : Nat → List ν → List (Hop ν) → Option (List ν × Nat)
  | 0 => walk t final 0 fun _ _ => none
  | links + 1 => walk t final (links + 1) (resolve t final links)

attribute [grind =] walk resolve

variable {t t' : Tree ν β} {final : Final} {links : Nat} {cur : List ν} {x y : List (Hop ν)}

theorem walk_append {next next' : List ν → List (Hop ν) → Option (List ν × Nat)}
    (hNext : ∀ cur x, t.isDir cur = true → next cur (x ++ y) =
      (next' cur x).bind fun q => if t.isDir q.1 then resolve t final q.2 q.1 y else none)
    (hHere : ∀ cur, walk t final links next cur y = resolve t final links cur y)
    (hy : y ≠ []) (hcur : t.isDir cur = true) :
    walk t final links next cur (x ++ y) = (walk t Final.follows links next' cur x).bind fun q =>
      if t.isDir q.1 then resolve t final q.2 q.1 y else none := by
  have hSome (hops : List (Hop ν)) : (hops ++ y).isEmpty = false := by
    rw [List.isEmpty_eq_false_iff]
    exact List.append_ne_nil_of_right_ne_nil hops hy
  induction x generalizing cur with
  | nil =>
    rw [List.nil_append, hHere, walk, Option.bind_some, if_pos hcur]
  | cons hop hops ih =>
    cases hop with
    | stay => exact ih hcur
    | up => exact ih (isDir_dropLast hcur)
    | down name =>
      rw [List.cons_append, walk, walk, hSome]
      cases hEntry : t.entry (cur ++ [name]) with
      | none => simp [Final.follows]
      | some e =>
        cases e with
        | dir => exact ih (isDir_iff.mpr hEntry)
        | file content =>
          have hNot : t.isDir (cur ++ [name]) = false := by
            rw [isDir, hEntry]
            rfl
          cases hops with
          | nil => simp [hNot]
          | cons hop hops => rfl
        | link absolute target =>
          simp only [Bool.false_and, Bool.false_eq_true, if_false, Final.follows, Bool.not_true,
            Bool.and_false]
          rw [← List.append_assoc]
          refine hNext _ _ ?_
          split
          · exact isDir_iff.mpr t.root
          · exact hcur

theorem resolve_append (hy : y ≠ []) (hcur : t.isDir cur = true) :
    resolve t final links cur (x ++ y) = (resolve t Final.follows links cur x).bind fun q =>
      if t.isDir q.1 then resolve t final q.2 q.1 y else none := by
  induction links generalizing cur x with
  | zero => exact walk_append (fun _ _ _ => rfl) (fun _ => rfl) hy hcur
  | succ links ih => exact walk_append (fun _ _ h => ih h) (fun _ => rfl) hy hcur

theorem resolve_stops_down (links : Nat) (cur : List ν) (name : ν) :
    resolve t Final.stops links cur [.down name] =
      (t.entry (cur ++ [name])).map fun _ => (cur ++ [name], links) := by
  cases links with
  | zero =>
    rw [resolve, walk]
    cases t.entry (cur ++ [name]) with
    | none => rfl
    | some e =>
      cases e with
      | _ => rfl
  | succ links =>
    rw [resolve, walk]
    cases t.entry (cur ++ [name]) with
    | none => rfl
    | some e =>
      cases e with
      | _ => rfl

theorem resolve_down (links : Nat) {name : ν} {e : Entry ν β} (h : t.entry (cur ++ [name]) = some e)
    (hLink : ∀ absolute target, e ≠ .link absolute target) :
    resolve t final links cur [.down name] = some (cur ++ [name], links) := by
  cases links with
  | zero =>
    rw [resolve, walk, h]
    cases e with
    | link absolute target => exact absurd rfl (hLink absolute target)
    | _ => rfl
  | succ links =>
    rw [resolve, walk, h]
    cases e with
    | link absolute target => exact absurd rfl (hLink absolute target)
    | _ => rfl

theorem resolve_missing (links : Nat) {name : ν} (h : t.entry (cur ++ [name]) = none) :
    resolve t final links cur [.down name] =
      if final.create then some (cur ++ [name], links) else none := by
  cases links with
  | zero =>
    rw [resolve, walk, h]
    rfl
  | succ links =>
    rw [resolve, walk, h]
    rfl

theorem resolve_replaces (links : Nat) (cur : List ν) (name : ν) :
    resolve t ⟨false, true⟩ links cur [.down name] = some (cur ++ [name], links) := by
  cases links with
  | zero =>
    rw [resolve, walk]
    cases t.entry (cur ++ [name]) with
    | none => rfl
    | some e =>
      cases e with
      | _ => rfl
  | succ links =>
    rw [resolve, walk]
    cases t.entry (cur ++ [name]) with
    | none => rfl
    | some e =>
      cases e with
      | _ => rfl

/-- A path on which a file is to be created leads where it leads without that, or to a place in a
directory where nothing is. -/
def Leads (t : Tree ν β) (q : List ν × Nat) (follows : Option (List ν × Nat)) : Prop :=
  follows = some q ∨ follows = none ∧ t.entry q.1 = none ∧
    ∃ parent name, q.1 = parent ++ [name] ∧ t.isDir parent = true

theorem walk_creates {next next' : List ν → List (Hop ν) → Option (List ν × Nat)}
    (hNext : ∀ cur x, t.isDir cur = true → (∀ q, next cur x = some q → t.Leads q (next' cur x)) ∧
      (next cur x = none → next' cur x = none))
    (hcur : t.isDir cur = true) :
    (∀ q, walk t ⟨true, true⟩ links next cur x = some q →
      t.Leads q (walk t Final.follows links next' cur x)) ∧
      (walk t ⟨true, true⟩ links next cur x = none → walk t Final.follows links next' cur x = none) := by
  induction x generalizing cur with
  | nil => exact ⟨fun q h => .inl h, nofun⟩
  | cons hop hops ih =>
    cases hop with
    | stay => exact ih hcur
    | up => exact ih (isDir_dropLast hcur)
    | down name =>
      rw [walk, walk]
      cases hEntry : t.entry (cur ++ [name]) with
      | none =>
        simp only [Final.follows, Bool.and_true, Bool.and_false, Bool.false_eq_true, if_false]
        refine ⟨fun q h => ?_, fun _ => trivial⟩
        obtain ⟨-, hHere⟩ := Option.ite_none_right_eq_some.mp h
        cases hHere
        exact .inr ⟨rfl, hEntry, cur, name, rfl, hcur⟩
      | some e =>
        cases e with
        | dir => exact ih (isDir_iff.mpr hEntry)
        | file content => exact ⟨fun q h => .inl h, fun h => h⟩
        | link absolute target =>
          simp only [Final.follows, Bool.not_true, Bool.and_false, Bool.false_eq_true, if_false]
          refine hNext _ _ ?_
          split
          · exact isDir_iff.mpr t.root
          · exact hcur

theorem resolve_creates (hcur : t.isDir cur = true) :
    (∀ q, resolve t ⟨true, true⟩ links cur x = some q →
      t.Leads q (resolve t Final.follows links cur x)) ∧
      (resolve t ⟨true, true⟩ links cur x = none → resolve t Final.follows links cur x = none) := by
  induction links generalizing cur x with
  | zero => exact walk_creates (fun _ _ _ => ⟨nofun, fun _ => rfl⟩) hcur
  | succ links ih => exact walk_creates (fun _ _ h => ih h) hcur

/-- A path that leads somewhere leads there in every tree that has the entries of this one. -/
theorem walk_mono {next next' : List ν → List (Hop ν) → Option (List ν × Nat)}
    (hNext : ∀ cur x q, next cur x = some q → next' cur x = some q)
    (hTree : ∀ p e, t.entry p = some e → t'.entry p = some e) {q : List ν × Nat}
    (h : walk t Final.follows links next cur x = some q) :
    walk t' Final.follows links next' cur x = some q := by
  induction x generalizing cur with
  | nil => exact h
  | cons hop hops ih =>
    cases hop with
    | stay => exact ih h
    | up => exact ih h
    | down name =>
      rw [walk] at h ⊢
      cases hEntry : t.entry (cur ++ [name]) with
      | none => simp [hEntry, Final.follows] at h
      | some e =>
        rw [hTree _ _ hEntry]
        rw [hEntry] at h
        cases e with
        | dir => exact ih h
        | file content => exact h
        | link absolute target =>
          simp only [Final.follows, Bool.not_true, Bool.and_false, Bool.false_eq_true,
            if_false] at h ⊢
          exact hNext _ _ _ h

theorem resolve_mono (hTree : ∀ p e, t.entry p = some e → t'.entry p = some e) {q : List ν × Nat}
    (h : resolve t Final.follows links cur x = some q) :
    resolve t' Final.follows links cur x = some q := by
  induction links generalizing cur x q with
  | zero => exact walk_mono (fun _ _ _ h => h) hTree h
  | succ links ih => exact walk_mono (fun _ _ _ h => ih h) hTree h

def Linkless (t : Tree ν β) (d : List ν) : Prop :=
  ∀ p, d <+: p → ∀ absolute target, t.entry p ≠ some (.link absolute target)

theorem walk_linkless {next : List ν → List (Hop ν) → Option (List ν × Nat)} {d : List ν}
    (h : t.Linkless d) {names : List ν} {q : List ν × Nat} (hcur : d <+: cur)
    (hq : walk t final links next cur (names.map .down) = some q) : q = (cur ++ names, links) := by
  induction names generalizing cur with
  | nil =>
    rw [List.append_nil]
    exact (Option.some.inj hq).symm
  | cons name names ih =>
    have hNext : d <+: cur ++ [name] := hcur.trans (List.prefix_append _ _)
    have hEnd (hEmpty : (names.map Hop.down).isEmpty = true) : names = [] := by
      cases names with
      | nil => rfl
      | cons name names => cases hEmpty
    rw [List.map_cons, walk] at hq
    cases hEntry : t.entry (cur ++ [name]) with
    | none =>
      rw [hEntry] at hq
      simp only at hq
      split at hq
      · rename_i hCreate
        rw [hEnd (Bool.and_eq_true_iff.mp hCreate).1]
        exact (Option.some.inj hq).symm
      · cases hq
    | some e =>
      rw [hEntry] at hq
      cases e with
      | dir =>
        rw [ih hNext hq, List.append_assoc]
        rfl
      | file content =>
        simp only at hq
        split at hq
        · rename_i hEmpty
          rw [hEnd hEmpty]
          exact (Option.some.inj hq).symm
        · cases hq
      | link absolute target => exact absurd hEntry (h _ hNext absolute target)

theorem resolve_linkless {d : List ν} (h : t.Linkless d) {names : List ν} {q : List ν × Nat}
    (hcur : d <+: cur) (hq : resolve t final links cur (names.map .down) = some q) :
    q = (cur ++ names, links) := by
  cases links with
  | zero => exact walk_linkless h hcur hq
  | succ links => exact walk_linkless h hcur hq

end Tree

end LinkedTree
