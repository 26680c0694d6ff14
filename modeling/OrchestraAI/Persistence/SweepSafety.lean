import Mathlib.Data.List.Find
import OrchestraAI.Library.NewestWindow
import OrchestraAI.Persistence.RetentionSweep

/-! # What the sweep deletes

The files left are those there were without what a rule picks and `unlinkSync` takes. The first
pass keeps to its rules, but an index that cannot be read counts as an empty one, and of the
quarantined files the newest go.
-/

namespace OrchestraAI.Persistence

open ComparatorSort

variable {opts : SweepOptions} {indexed : List Text} {dir : DataDir} {s : Sweep} {f g : DirEntry}
  {names : List FileName} {name : FileName}

def doomed (opts : SweepOptions) (indexed : List Text) (f : DirEntry) : Bool :=
  if isTemporary f.name.text then f.age > tmpMaxAgeMs
  else (runOf f.name.text).any fun id =>
    id ∉ opts.activeIds ∧ id ∉ indexed ∧ ¬ f.age < opts.graceMs

def Distinct (files : List DirEntry) : Prop := (files.map fun f => f.name).Nodup

theorem Distinct.filter {files : List DirEntry} (h : Distinct files) (p : DirEntry → Bool) :
    Distinct (files.filter p) := h.sublist (List.filter_sublist.map _)

namespace Sweep

theorem find_name (h : s.find name = some f) : f ∈ s.files ∧ f.name = name :=
  ⟨List.mem_of_find?_eq_some h, by simpa using List.find?_some h⟩

theorem find_eq (hDistinct : Distinct s.files) (h : f ∈ s.files) : s.find f.name = some f :=
  NewestWindow.find?_key hDistinct h

theorem statAge_eq (hDistinct : Distinct s.files) (h : f ∈ s.files) : s.statAge f.name = f.age := by
  rw [statAge, find_eq hDistinct h]
  rfl

theorem files_remove (hDistinct : Distinct s.files) (name : FileName) :
    (s.remove false name).files = s.files.filter fun f => !(f.name = name && f.removable) := by
  unfold remove
  simp only [Bool.false_eq_true, if_false]
  split
  · rename_i hRemovable
    obtain ⟨g, hFind, hTaken⟩ := (Option.any_eq_true _ _).mp hRemovable
    obtain ⟨hMem, rfl⟩ := find_name hFind
    apply List.filter_congr
    intro f hf
    by_cases hName : f.name = g.name
    · rw [List.inj_on_of_nodup_map hDistinct hf hMem hName]
      simp [hTaken]
    · simp [hName]
  · rename_i hStays
    symm
    rw [List.filter_eq_self]
    intro f hf
    by_cases hName : f.name = name
    · subst hName
      rw [find_eq hDistinct hf] at hStays
      simpa using hStays
    · simp [hName]

theorem collect_cases (opts : SweepOptions) (indexed : List Text) (s : Sweep) (name : FileName) :
    ((s.collect opts indexed name).files = s.files ∧
      ∀ f, f.name = name → f.age = s.statAge name → doomed opts indexed f = false) ∨
    (s.collect opts indexed name = s.remove opts.dryRun name ∧
      ∀ f, f.name = name → f.age = s.statAge name → doomed opts indexed f = true) := by
  unfold collect doomed
  split
  · rename_i hTemporary
    split
    · rename_i hOld
      refine .inr ⟨rfl, ?_⟩
      rintro f rfl hAge
      simp [hTemporary, hAge, hOld]
    · rename_i hNew
      refine .inl ⟨rfl, ?_⟩
      rintro f rfl hAge
      simp [hTemporary, hAge, not_lt.mp hNew]
  · rename_i hTemporary
    cases hRun : runOf name.text with
    | none =>
      refine .inl ⟨rfl, ?_⟩
      rintro f rfl -
      simp [hTemporary, hRun]
    | some id =>
      dsimp only
      split
      · rename_i hActive
        refine .inl ⟨rfl, ?_⟩
        rintro f rfl -
        simp [hTemporary, hRun, hActive]
      · rename_i hActive
        split
        · rename_i hIndexed
          refine .inl ⟨rfl, ?_⟩
          rintro f rfl -
          simp [hTemporary, hRun, hIndexed]
        · rename_i hIndexed
          split
          · rename_i hFresh
            refine .inl ⟨rfl, ?_⟩
            rintro f rfl hAge
            simp [hTemporary, hRun, hAge, hFresh]
          · rename_i hOld
            refine .inr ⟨rfl, ?_⟩
            rintro f rfl hAge
            simp [hTemporary, hRun, hActive, hIndexed, hAge, not_lt.mp hOld]

theorem files_collect (hDry : opts.dryRun = false) (hDistinct : Distinct s.files) (name : FileName) :
    (s.collect opts indexed name).files =
      s.files.filter fun f => !(f.name = name && (f.removable && doomed opts indexed f)) := by
  obtain ⟨hFiles, hSpared⟩ | ⟨hRemove, hDoomed⟩ := collect_cases opts indexed s name
  · rw [hFiles, eq_comm, List.filter_eq_self]
    intro f hf
    by_cases hName : f.name = name
    · simp [hSpared f hName (hName ▸ (statAge_eq hDistinct hf).symm)]
    · simp [hName]
  · rw [hRemove, hDry, files_remove hDistinct]
    apply List.filter_congr
    intro f hf
    by_cases hName : f.name = name
    · simp [hDoomed f hName (hName ▸ (statAge_eq hDistinct hf).symm)]
    · simp [hName]

theorem files_foldl {α : Type} {step : Sweep → α → Sweep} {picks : α → DirEntry → Bool}
    (h : ∀ s a, Distinct s.files → (step s a).files = s.files.filter fun f => !picks a f)
    (l : List α) (hDistinct : Distinct s.files) :
    (l.foldl step s).files = s.files.filter fun f => !l.any fun a => picks a f := by
  induction l generalizing s with
  | nil => simp
  | cons a l ih =>
    have hStep := h s a hDistinct
    rw [List.foldl_cons, ih (hStep ▸ hDistinct.filter _), hStep, List.filter_filter]
    apply List.filter_congr
    intro f _
    rw [List.any_cons, Bool.not_or, Bool.and_comm]

theorem files_collect_all (indexed : List Text) (hDry : opts.dryRun = false)
    (hDistinct : Distinct s.files) (names : List FileName) :
    (names.foldl (collect opts indexed) s).files =
      s.files.filter fun f => !(f.removable && (f.name ∈ names && doomed opts indexed f)) := by
  rw [files_foldl (fun s name h => files_collect hDry h name) names hDistinct]
  apply List.filter_congr
  intro f _
  congr 1
  rw [Bool.eq_iff_iff, List.any_eq_true]
  simp only [Bool.and_eq_true, decide_eq_true_eq]
  constructor
  · rintro ⟨name, hName, rfl, hRemovable, hDoomed⟩
    exact ⟨hRemovable, hName, hDoomed⟩
  · rintro ⟨hRemovable, hName, hDoomed⟩
    exact ⟨f.name, hName, rfl, hRemovable, hDoomed⟩

theorem files_capCorrupt (hDry : opts.dryRun = false) (hDistinct : Distinct s.files)
    (names : List FileName) :
    (s.capCorrupt opts names).files = s.files.filter fun f =>
      !(f.removable && f.name ∈ ((s.corrupt names).drop maxCorruptKept).map Prod.fst) := by
  have hStep (s : Sweep) (c : FileName × ℚ) (h : Distinct s.files) :
      (s.remove opts.dryRun c.1).files = s.files.filter fun f => !(f.name = c.1 && f.removable) := by
    rw [hDry, files_remove h]
  rw [capCorrupt, files_foldl hStep _ hDistinct]
  apply List.filter_congr
  intro f _
  congr 1
  rw [Bool.eq_iff_iff, List.any_eq_true]
  simp only [Bool.and_eq_true, decide_eq_true_eq, List.mem_map]
  constructor
  · rintro ⟨c, hc, hName, hRemovable⟩
    exact ⟨hRemovable, c, hc, hName.symm⟩
  · rintro ⟨hRemovable, c, hc, hName⟩
    exact ⟨c, hc, hName.symm, hRemovable⟩

theorem files_sweep_dry (hDry : opts.dryRun = true) (s : Sweep) (names : List FileName) :
    ((names.foldl (collect opts indexed) s).capCorrupt opts names).files = s.files := by
  have hStay {α : Type} (step : Sweep → α → Sweep) (h : ∀ s a, (step s a).files = s.files)
      (l : List α) (s : Sweep) : (l.foldl step s).files = s.files := by
    induction l generalizing s with
    | nil => rfl
    | cons a l ih => rw [List.foldl_cons, ih, h]
  rw [capCorrupt, hStay _ fun s c => by rw [hDry]; rfl]
  apply hStay
  intro s name
  obtain ⟨hFiles, -⟩ | ⟨hRemove, -⟩ := collect_cases opts indexed s name
  · exact hFiles
  · rw [hRemove, hDry]
    rfl

end Sweep

namespace DataDir

def listing (dir : DataDir) : List FileName := dir.files.map fun f => f.name

def start (dir : DataDir) (opts : SweepOptions) : List DirEntry :=
  if dir.listable && opts.indexIds.isNone then dir.filesRead else dir.files

def surplus (dir : DataDir) (opts : SweepOptions) : List FileName :=
  ((({ files := dir.start opts } : Sweep).corrupt dir.listing).drop maxCorruptKept).map Prod.fst

/-- The quarantined files in the order of the listing, with their ages. -/
def aged (dir : DataDir) (opts : SweepOptions) : List (FileName × ℚ) :=
  (dir.listing.filter fun n => isQuarantined n.text).map fun n =>
    (n, ({ files := dir.start opts } : Sweep).statAge n)

end DataDir

/-- A listed quarantined file for which twenty are older, or as old and listed before. -/
def InSurplus (dir : DataDir) (opts : SweepOptions) (f : DirEntry) : Prop :=
  (f.name, f.age) ∈ dir.aged opts ∧ maxCorruptKept ≤ (dir.aged opts).countP fun c =>
    f.age < c.2 ∨ f.age = c.2 ∧ (dir.aged opts).idxOf c < (dir.aged opts).idxOf (f.name, f.age)

instance (dir : DataDir) (opts : SweepOptions) (f : DirEntry) : Decidable (InSurplus dir opts f) :=
  inferInstanceAs (Decidable (_ ∧ _))

theorem not_doomed_of_quarantined (h : isQuarantined f.name.text = true) :
    doomed opts indexed f = false := by
  have hRun := f.name.oneKind.2 (.inr h)
  have hTemporary : isTemporary f.name.text = false := by
    rw [← Bool.not_eq_true]
    exact fun hTemporary => Bool.noConfusion ((f.name.oneKind.1 hTemporary).symm.trans h)
  simp [doomed, hRun, hTemporary]

theorem corrupt_filter {p : DirEntry → Bool} {files : List DirEntry}
    (h : ∀ f, isQuarantined f.name.text = true → p f = true) (hFiles : s.files = files.filter p)
    (names : List FileName) :
    s.corrupt names = ({ files } : Sweep).corrupt names := by
  unfold Sweep.corrupt
  congr 1
  apply List.map_congr_left
  intro name hName
  have hQuarantined := (List.mem_filter.mp hName).2
  have hFind : s.find name = ({ files } : Sweep).find name := by
    rw [Sweep.find, Sweep.find, hFiles, List.find?_filter]
    apply List.find?_congr
    intro f _
    by_cases hEq : f.name = name
    · simp [hEq, h f (hEq ▸ hQuarantined)]
    · simp [hEq]
  rw [Sweep.statAge, Sweep.statAge, hFind]

theorem distinct_quarantineIndex {files : List DirEntry} (h : Distinct files) (now : Nat) :
    Distinct (quarantineIndex now files) := by
  unfold quarantineIndex
  split
  · exact h
  · refine List.nodup_cons.mpr ⟨?_, h.filter _⟩
    intro hMem
    obtain ⟨f, hf, hName⟩ := List.mem_map.mp hMem
    simp only [List.mem_filter, decide_eq_true_eq] at hf
    exact hf.2.2 hName

theorem distinct_start (dir : DataDir) (opts : SweepOptions) : Distinct (dir.start opts) := by
  unfold DataDir.start DataDir.filesRead
  split
  · split
    · exact distinct_quarantineIndex dir.distinct _
    · exact dir.distinct
  · exact dir.distinct

/-- Reading the index touches no other file, unless one has the name that the index gets. -/
theorem mem_start (hIndex : f.name.text ≠ runIndexName) (hTarget : f.name ≠ .ofQuarantine dir.now) :
    f ∈ dir.start opts ↔ f ∈ dir.files := by
  unfold DataDir.start DataDir.filesRead quarantineIndex
  split
  · split
    · split
      · exact Iff.rfl
      · rw [List.mem_cons, List.mem_filter]
        constructor
        · rintro (rfl | ⟨hf, -⟩)
          · exact absurd rfl hTarget
          · exact hf
        · exact fun hf => .inr ⟨hf, by simp [hIndex, hTarget]⟩
    · exact Iff.rfl
  · exact Iff.rfl

theorem mem_start_of_run {id : Text} (h : runOf f.name.text = some id) :
    f ∈ dir.start opts ↔ f ∈ dir.files := by
  apply mem_start
  · intro hIndex
    have hNone : runOf runIndexName = none := by decide
    rw [hIndex, hNone] at h
    nomatch h
  · intro hTarget
    have hNone : runOf f.name.text = none := hTarget ▸ runOf_quarantineName dir.now
    rw [hNone] at h
    nomatch h

theorem mem_surplus (h : name ∈ dir.surplus opts) :
    name ∈ dir.listing ∧ isQuarantined name.text = true := by
  obtain ⟨⟨n, age⟩, hDrop, rfl⟩ := List.mem_map.mp h
  have hMem := (mem_sortBy _).mp (List.mem_of_mem_drop hDrop)
  obtain ⟨n', hListed, hEq⟩ := List.mem_map.mp hMem
  cases hEq
  exact List.mem_filter.mp hListed

theorem sweepRetention_eq (hList : dir.listable = true) :
    sweepRetention dir opts = (dir.listing.foldl (Sweep.collect opts (indexedIds opts dir.index))
      { files := dir.start opts }).capCorrupt opts dir.listing := by
  have hStart : dir.start opts = if opts.indexIds.isSome then dir.files else dir.filesRead := by
    unfold DataDir.start
    rw [hList]
    cases opts.indexIds <;> rfl
  rw [sweepRetention, if_pos hList, hStart]
  rfl

theorem files_sweepRetention (hList : dir.listable = true) (hDry : opts.dryRun = false) :
    (sweepRetention dir opts).files = (dir.start opts).filter fun f =>
      !(f.removable && ((f.name ∈ dir.listing && doomed opts (indexedIds opts dir.index) f) ||
        f.name ∈ dir.surplus opts)) := by
  have hFirst := Sweep.files_collect_all (s := { files := dir.start opts }) (indexedIds opts dir.index) hDry
    (distinct_start dir opts) dir.listing
  have hCorrupt := corrupt_filter (fun f h => by simp [not_doomed_of_quarantined h]) hFirst dir.listing
  have hDistinct := distinct_start dir opts
  rw [sweepRetention_eq hList, Sweep.files_capCorrupt hDry (hFirst ▸ hDistinct.filter _), hCorrupt, hFirst,
    List.filter_filter]
  apply List.filter_congr
  intro f _
  rw [← Bool.not_or, ← Bool.and_or_distrib_left, Bool.or_comm]
  rfl

/-- No file that is still needed is missing among those left. -/
structure Safe (dir : DataDir) (opts : SweepOptions) (left : List DirEntry) : Prop where
  /-- The files of active and of indexed runs, and the young ones. -/
  known : ∀ f ∈ dir.files, f ∉ left → ∀ id, runOf f.name.text = some id →
    id ∉ opts.activeIds ∧ id ∉ indexedIds opts dir.index ∧ opts.graceMs ≤ f.age
  /-- Without an index the file of any run. -/
  unread : opts.indexIds = none → ¬ dir.index.Valid →
    ∀ f ∈ dir.files, ∀ id, runOf f.name.text = some id → f ∈ left
  /-- For a deleted quarantined file twenty are kept that are no older. -/
  newest : ∀ f ∈ dir.start opts, isQuarantined f.name.text = true → f ∉ left →
    maxCorruptKept ≤ left.countP fun g => isQuarantined g.name.text ∧ g.age ≤ f.age

/-- Without an index every run file that could be deleted is of an active run or young. -/
def OrphansKnown (dir : DataDir) (opts : SweepOptions) : Prop :=
  opts.indexIds = none → ¬ dir.index.Valid → ∀ f ∈ dir.files, f.removable = true →
    ∀ id, runOf f.name.text = some id → id ∈ opts.activeIds ∨ f.age < opts.graceMs

/-- A surplus quarantined file is matched by twenty that are no older, each of them among the first
twenty or such that it cannot be deleted. -/
def SurplusMatched (dir : DataDir) (opts : SweepOptions) : Prop :=
  ∀ f ∈ dir.start opts, f.removable = true → InSurplus dir opts f →
    maxCorruptKept ≤ (dir.start opts).countP fun g =>
      isQuarantined g.name.text ∧ g.age ≤ f.age ∧ (InSurplus dir opts g → g.removable = false)

/-- What is deleted for there are too many is in the surplus. -/
theorem mem_surplus_iff (hf : f ∈ dir.start opts) : f.name ∈ dir.surplus opts ↔ InSurplus dir opts f := by
  let oldest := fun a b : FileName × ℚ => compare b.2 a.2
  have hTrans : Std.TransCmp oldest := transCmp_on (fun a b : ℚ => compare b a) Prod.snd
  have hNodup : (dir.aged opts).Nodup :=
    (dir.distinct.filter _).map fun _ _ h => congrArg Prod.fst h
  have hAge := Sweep.statAge_eq (s := { files := dir.start opts }) (distinct_start dir opts) hf
  have hMem : f.name ∈ dir.surplus opts ↔ (f.name, f.age) ∈ (sortBy oldest (dir.aged opts)).drop maxCorruptKept := by
    constructor
    · intro h
      obtain ⟨c, hc, hName⟩ := List.mem_map.mp h
      obtain ⟨n, -, rfl⟩ := List.mem_map.mp ((mem_sortBy _).mp (List.mem_of_mem_drop hc))
      obtain rfl : n = f.name := hName
      rwa [hAge] at hc
    · exact fun h => List.mem_map_of_mem (f := Prod.fst) h
  have hCount : (dir.aged opts).countP (Ahead oldest (dir.aged opts) (f.name, f.age)) =
      (dir.aged opts).countP fun c => f.age < c.2 ∨
        f.age = c.2 ∧ (dir.aged opts).idxOf c < (dir.aged opts).idxOf (f.name, f.age) := by
    apply List.countP_congr
    intro c _
    simp only [decide_eq_true_eq, Ahead, oldest, compare_lt_iff_lt, compare_eq_iff_eq]
  rw [hMem, InSurplus, ← hCount]
  constructor
  · intro h
    have hIn := (mem_sortBy oldest).mp (List.mem_of_mem_drop h)
    exact ⟨hIn, (mem_drop_sortBy hNodup hIn _).mp h⟩
  · rintro ⟨hIn, hMany⟩
    exact (mem_drop_sortBy hNodup hIn _).mpr hMany

theorem surplusMatched_names : SurplusMatched dir opts ↔
    ∀ f ∈ dir.start opts, f.removable = true → f.name ∈ dir.surplus opts →
      maxCorruptKept ≤ (dir.start opts).countP fun g =>
        isQuarantined g.name.text ∧ g.age ≤ f.age ∧ (g.name ∈ dir.surplus opts → g.removable = false) := by
  refine forall₂_congr fun f hf => ?_
  rw [mem_surplus_iff hf]
  have hCount : ((dir.start opts).countP fun g => isQuarantined g.name.text ∧ g.age ≤ f.age ∧
      (InSurplus dir opts g → g.removable = false)) = (dir.start opts).countP fun g =>
        isQuarantined g.name.text ∧ g.age ≤ f.age ∧ (g.name ∈ dir.surplus opts → g.removable = false) := by
    apply List.countP_congr
    intro g hg
    simp only [mem_surplus_iff hg]
  rw [hCount]

theorem doomed_of_run {id : Text} (h : runOf f.name.text = some id) :
    doomed opts indexed f = true ↔ id ∉ opts.activeIds ∧ id ∉ indexed ∧ opts.graceMs ≤ f.age := by
  have hTemporary : ¬ isTemporary f.name.text = true := by
    intro hTemporary
    rw [f.name.oneKind.2 (.inl hTemporary)] at h
    nomatch h
  simp [doomed, h, hTemporary]

section Swept

variable (hList : dir.listable = true) (hDry : opts.dryRun = false)

include hList hDry

theorem mem_left_of_run {id : Text} (hf : f ∈ dir.files) (h : runOf f.name.text = some id) :
    f ∈ (sweepRetention dir opts).files ↔ ¬ (f.removable = true ∧
      id ∉ opts.activeIds ∧ id ∉ indexedIds opts dir.index ∧ opts.graceMs ≤ f.age) := by
  have hSurplus : f.name ∉ dir.surplus opts := by
    intro hMem
    rw [f.name.oneKind.2 (.inr (mem_surplus hMem).2)] at h
    nomatch h
  have hListed : f.name ∈ dir.listing := List.mem_map_of_mem hf
  rw [files_sweepRetention hList hDry, List.mem_filter, mem_start_of_run h, ← doomed_of_run h]
  cases f.removable <;> simp [hf, hSurplus, hListed]

theorem mem_left_of_quarantined (h : isQuarantined f.name.text = true) :
    f ∈ (sweepRetention dir opts).files ↔
      f ∈ dir.start opts ∧ (f.name ∈ dir.surplus opts → f.removable = false) := by
  rw [files_sweepRetention hList hDry, List.mem_filter, not_doomed_of_quarantined h]
  cases f.removable <;> simp

theorem countP_left (age : ℚ) :
    ((sweepRetention dir opts).files.countP fun g => isQuarantined g.name.text ∧ g.age ≤ age) =
      (dir.start opts).countP fun g => isQuarantined g.name.text ∧ g.age ≤ age ∧
        (g.name ∈ dir.surplus opts → g.removable = false) := by
  rw [files_sweepRetention hList hDry, List.countP_filter]
  apply List.countP_congr
  intro g _
  by_cases h : isQuarantined g.name.text = true
  · rw [not_doomed_of_quarantined h]
    cases g.removable <;> simp [h]
  · simp [h]

end Swept

theorem safe_of_kept {left : List DirEntry} (h : ∀ f, f ∈ dir.start opts → f ∈ left) :
    Safe dir opts left where
  known f hf hLeft _ hRun := absurd (h f ((mem_start_of_run hRun).mpr hf)) hLeft
  unread _ _ f hf _ hRun := h f ((mem_start_of_run hRun).mpr hf)
  newest f hf _ hLeft := absurd (h f hf) hLeft

theorem indexedIds_of_invalid (hIds : opts.indexIds = none) (h : ¬ dir.index.Valid) :
    indexedIds opts dir.index = [] := by
  rw [indexedIds, hIds, Option.getD_none, IndexFile.ids]
  cases hIndex : dir.index with
  | holds value =>
    rw [hIndex] at h
    cases value with
    | arr runs => exact absurd trivial h
    | _ => rfl
  | _ => rfl

theorem corrupt_perm (dir : DataDir) (hStart : dir.start opts = dir.files) :
    (({ files := dir.start opts } : Sweep).corrupt dir.listing).Perm
      ((dir.files.filter fun f => isQuarantined f.name.text).map fun f => (f.name, f.age)) := by
  refine (sortBy_perm _ _).trans (List.Perm.of_eq ?_)
  rw [DataDir.listing, List.filter_map, List.map_map]
  apply List.map_congr_left
  intro f hf
  have hAge := Sweep.statAge_eq (s := { files := dir.start opts }) (distinct_start dir opts)
    (hStart ▸ List.mem_of_mem_filter hf)
  exact congrArg (Prod.mk f.name) hAge

/-- In a descending list no entry of a front is above one behind it just if all are equal. -/
theorem descending_front {l r : List (FileName × ℚ)} (h : (l ++ r).Pairwise fun a b => b.2 ≤ a.2)
    (hl : l ≠ []) :
    (∀ c ∈ r, ∀ d ∈ l, d.2 ≤ c.2) ↔ r = [] ∨ ∀ c ∈ l ++ r, ∀ d ∈ l ++ r, d.2 ≤ c.2 := by
  have hCross : ∀ d ∈ l, ∀ c ∈ r, c.2 ≤ d.2 := (List.pairwise_append.mp h).2.2
  constructor
  · intro hMatched
    by_cases hr : r = []
    · exact .inl hr
    · obtain ⟨c₀, hc₀⟩ := List.exists_mem_of_ne_nil r hr
      obtain ⟨d₀, hd₀⟩ := List.exists_mem_of_ne_nil l hl
      refine .inr fun c hc d hd => ?_
      obtain hc | hc := List.mem_append.mp hc <;> obtain hd | hd := List.mem_append.mp hd
      · exact (hMatched c₀ hc₀ d hd).trans (hCross c hc c₀ hc₀)
      · exact hCross c hc d hd
      · exact hMatched c hc d hd
      · exact (hCross d₀ hd₀ d hd).trans (hMatched c hc d₀ hd₀)
  · rintro (rfl | hEqual) c hc d hd
    · nomatch hc
    · exact hEqual c (List.mem_append_right l hc) d (List.mem_append_left r hd)

theorem countP_first {files : List DirEntry} {C : List (FileName × ℚ)}
    (hPerm : C.Perm ((files.filter fun f => isQuarantined f.name.text).map fun f => (f.name, f.age)))
    (hNodup : (C.map Prod.fst).Nodup)
    (hRemovable : ∀ f ∈ files, isQuarantined f.name.text = true → f.removable = true)
    (n : Nat) (age : ℚ) :
    (files.countP fun g => isQuarantined g.name.text ∧ g.age ≤ age ∧
      (g.name ∈ (C.drop n).map Prod.fst → g.removable = false)) =
      (C.take n).countP fun c => c.2 ≤ age := by
  have hKept (f : DirEntry) (hf : f ∈ files) (h : isQuarantined f.name.text = true) :
      (f.name ∈ (C.drop n).map Prod.fst → f.removable = false) ↔
        f.name ∉ (C.drop n).map Prod.fst := by
    simp [hRemovable f hf h]
  have hFirst (c : FileName × ℚ) (hc : c ∈ C.take n) : c.1 ∉ (C.drop n).map Prod.fst := by
    rw [← List.take_append_drop n C, List.map_append] at hNodup
    intro hMem
    exact (List.nodup_append.mp hNodup).2.2 c.1 (List.mem_map_of_mem hc) c.1 hMem rfl
  calc (files.countP fun g => isQuarantined g.name.text ∧ g.age ≤ age ∧
        (g.name ∈ (C.drop n).map Prod.fst → g.removable = false))
      = (files.filter fun f => isQuarantined f.name.text).countP fun g =>
          g.age ≤ age ∧ g.name ∉ (C.drop n).map Prod.fst := by
        rw [List.countP_filter]
        apply List.countP_congr
        intro f hf
        by_cases h : isQuarantined f.name.text = true
        · simp only [h, hKept f hf h]
          simp
        · simp [h]
    _ = C.countP fun c => c.2 ≤ age ∧ c.1 ∉ (C.drop n).map Prod.fst := by
        rw [hPerm.countP_eq, List.countP_map]
        rfl
    _ = (C.take n).countP fun c => c.2 ≤ age := by
        have hRest : ((C.drop n).countP fun c =>
            c.2 ≤ age ∧ c.1 ∉ (C.drop n).map Prod.fst) = 0 := by
          rw [List.countP_eq_zero]
          intro c hc
          simp only [decide_eq_true_eq, not_and, not_not]
          exact fun _ => List.mem_map_of_mem hc
        conv_lhs =>
          arg 2
          rw [← List.take_append_drop n C]
        rw [List.countP_append, hRest, Nat.add_zero]
        apply List.countP_congr
        intro c hc
        simp only [decide_eq_true_eq, and_iff_left_iff_imp]
        exact fun _ => hFirst c hc

/-- Where every quarantined file can be deleted, the surplus is matched if there is none or all of
them have one age. -/
theorem surplusMatched_iff (hStart : dir.start opts = dir.files)
    (hRemovable : ∀ f ∈ dir.files, isQuarantined f.name.text = true → f.removable = true) :
    SurplusMatched dir opts ↔ (dir.files.countP fun f => isQuarantined f.name.text) ≤ maxCorruptKept ∨
      ∀ f ∈ dir.files, isQuarantined f.name.text = true →
        ∀ g ∈ dir.files, isQuarantined g.name.text = true → g.age ≤ f.age := by
  have hPerm := corrupt_perm dir hStart
  have hSurplus : dir.surplus opts =
    ((({ files := dir.start opts } : Sweep).corrupt dir.listing).drop maxCorruptKept).map Prod.fst := rfl
  have hSorted : (({ files := dir.start opts } : Sweep).corrupt dir.listing).Pairwise
      fun a b => b.2 ≤ a.2 := by
    have hTrans : Std.TransCmp fun a b : FileName × ℚ => compare b.2 a.2 :=
      transCmp_on (fun a b : ℚ => compare b a) Prod.snd
    exact (pairwise_sortBy _ _).imp fun h => compare_le_iff_le.mp (Ordering.isLE_iff_ne_gt.mp h)
  generalize ({ files := dir.start opts } : Sweep).corrupt dir.listing = C at *
  have hNodup : (C.map Prod.fst).Nodup := by
    refine (hPerm.map Prod.fst).nodup_iff.mpr ?_
    rw [List.map_map]
    exact dir.distinct.sublist (List.filter_sublist.map _)
  have hMem (f : DirEntry) (hf : f ∈ dir.files) (h : isQuarantined f.name.text = true) :
      (f.name, f.age) ∈ C :=
    hPerm.mem_iff.mpr (List.mem_map_of_mem (List.mem_filter.mpr ⟨hf, h⟩))
  have hOf (c : FileName × ℚ) (hc : c ∈ C) :
      ∃ f ∈ dir.files, isQuarantined f.name.text = true ∧ c = (f.name, f.age) := by
    obtain ⟨f, hf, hEq⟩ := List.mem_map.mp (hPerm.mem_iff.mp hc)
    obtain ⟨hFile, hQuarantined⟩ := List.mem_filter.mp hf
    exact ⟨f, hFile, hQuarantined, hEq.symm⟩
  have hCount (age : ℚ) := countP_first hPerm hNodup hRemovable maxCorruptKept age
  have hFront : SurplusMatched dir opts ↔
      ∀ c ∈ C.drop maxCorruptKept, ∀ d ∈ C.take maxCorruptKept, d.2 ≤ c.2 := by
    rw [surplusMatched_names, hStart, hSurplus]
    constructor
    · intro h c hc d hd
      obtain ⟨f, hf, hQuarantined, rfl⟩ := hOf c (List.mem_of_mem_drop hc)
      have hMatched := h f hf (hRemovable f hf hQuarantined) (List.mem_map_of_mem hc)
      rw [hCount] at hMatched
      have hAll := List.countP_eq_length.mp
        (Nat.le_antisymm List.countP_le_length ((List.length_take_le _ C).trans hMatched))
      exact of_decide_eq_true (hAll d hd)
    · intro h f hf _ hMem
      obtain ⟨c, hc, hName⟩ := List.mem_map.mp hMem
      obtain ⟨g, hg, -, rfl⟩ := hOf c (List.mem_of_mem_drop hc)
      obtain rfl := List.inj_on_of_nodup_map dir.distinct hg hf hName
      have hLong : maxCorruptKept < C.length := by
        by_contra hShort
        rw [List.drop_eq_nil_of_le (not_lt.mp hShort)] at hc
        nomatch hc
      rw [hCount, List.countP_eq_length.mpr fun d hd => decide_eq_true (h _ hc d hd),
        List.length_take_of_le hLong.le]
  have hSplit : C.take maxCorruptKept ++ C.drop maxCorruptKept = C := List.take_append_drop _ C
  have hOneAge : (∀ c ∈ C, ∀ d ∈ C, d.2 ≤ c.2) ↔
      ∀ f ∈ dir.files, isQuarantined f.name.text = true →
        ∀ g ∈ dir.files, isQuarantined g.name.text = true → g.age ≤ f.age := by
    constructor
    · exact fun h f hf hf' g hg hg' => h _ (hMem f hf hf') _ (hMem g hg hg')
    · intro h c hc d hd
      obtain ⟨f, hf, hf', rfl⟩ := hOf c hc
      obtain ⟨g, hg, hg', rfl⟩ := hOf d hd
      exact h f hf hf' g hg hg'
  have hFew : (dir.files.countP fun f => isQuarantined f.name.text) ≤ maxCorruptKept ↔
      C.drop maxCorruptKept = [] := by
    rw [List.drop_eq_nil_iff, hPerm.length_eq, List.length_map, List.countP_eq_length_filter]
  rw [hFront, hFew, ← hOneAge]
  by_cases hFirst : C.take maxCorruptKept = []
  · have hNil : C = [] := (List.take_eq_nil_iff.mp hFirst).resolve_left (by decide)
    simp [hNil]
  · have hDescending := descending_front (hSplit.symm ▸ hSorted) hFirst
    rwa [hSplit] at hDescending

theorem safe_iff (dir : DataDir) (opts : SweepOptions) :
    Safe dir opts (sweepRetention dir opts).files ↔
      dir.listable = false ∨ opts.dryRun = true ∨
        OrphansKnown dir opts ∧ SurplusMatched dir opts := by
  rw [surplusMatched_names]
  cases hList : dir.listable with
  | false =>
    refine iff_of_true (safe_of_kept fun f hf => ?_) (.inl rfl)
    simpa [DataDir.start, sweepRetention, hList] using hf
  | true =>
    cases hDry : opts.dryRun with
    | true =>
      refine iff_of_true (safe_of_kept fun f hf => ?_) (.inr (.inl rfl))
      rwa [sweepRetention_eq hList, Sweep.files_sweep_dry hDry]
    | false =>
      constructor
      · intro h
        refine .inr (.inr ⟨?_, ?_⟩)
        · intro hIds hInvalid f hf hRemovable id hRun
          have hKept := (mem_left_of_run hList hDry hf hRun).mp (h.unread hIds hInvalid f hf id hRun)
          rw [indexedIds_of_invalid hIds hInvalid] at hKept
          by_contra hNeither
          obtain ⟨hActive, hOld⟩ := not_or.mp hNeither
          exact hKept ⟨hRemovable, hActive, List.not_mem_nil, not_lt.mp hOld⟩
        · intro f hf hRemovable hSurplus
          rw [← countP_left hList hDry]
          have hQuarantined := (mem_surplus hSurplus).2
          refine h.newest f hf hQuarantined fun hKept => ?_
          exact Bool.noConfusion (hRemovable.symm.trans
            (((mem_left_of_quarantined hList hDry hQuarantined).mp hKept).2 hSurplus))
      · rintro (h | h | ⟨hOrphans, hSurplus⟩)
        · nomatch h
        · nomatch h
        · refine ⟨?_, ?_, ?_⟩
          · intro f hf hLeft id hRun
            rw [mem_left_of_run hList hDry hf hRun, not_not] at hLeft
            exact hLeft.2
          · intro hIds hInvalid f hf id hRun
            rw [mem_left_of_run hList hDry hf hRun]
            rintro ⟨hRemovable, hActive, -, hOld⟩
            obtain hKnown | hYoung := hOrphans hIds hInvalid f hf hRemovable id hRun
            · exact hActive hKnown
            · exact absurd hYoung (not_lt.mpr hOld)
          · intro f hf hQuarantined hLeft
            rw [mem_left_of_quarantined hList hDry hQuarantined, not_and, Classical.not_imp] at hLeft
            obtain ⟨hMem, hRemovable⟩ := hLeft hf
            rw [countP_left hList hDry]
            exact hSurplus f hf (Bool.eq_true_of_not_eq_false hRemovable) hMem

/-- The sweep keeps what is still needed as long as no orphan depends on an index that cannot be
read and the quarantined files of the surplus are matched. -/
theorem sweep_safe_iff (dir : DataDir) (opts : SweepOptions) :
    (Safe dir opts (sweepRetention dir opts).files ↔
      dir.listable = false ∨ opts.dryRun = true ∨
        OrphansKnown dir opts ∧ SurplusMatched dir opts) ∧
    (dir.start opts = dir.files →
      (∀ f ∈ dir.files, isQuarantined f.name.text = true → f.removable = true) →
      (SurplusMatched dir opts ↔
        (dir.files.countP fun f => isQuarantined f.name.text) ≤ maxCorruptKept ∨
          ∀ f ∈ dir.files, isQuarantined f.name.text = true →
            ∀ g ∈ dir.files, isQuarantined g.name.text = true → g.age ≤ f.age)) :=
  ⟨safe_iff dir opts, surplusMatched_iff⟩

theorem plain_run : "run-1".toList.all idChar = true := by decide

def orphanRun : ValidRunId where
  text := "run-1".toList
  nonempty := List.cons_ne_nil _ _
  plain := List.all_eq_true.mp plain_run

def orphanFile : DirEntry where
  name := .ofRun orphanRun ".events.json".toList List.mem_cons_self
  stat := some (2 * 24 * 60 * 60 * 1000, 100)
  removable := true

def orphaned : DataDir where
  listable := true
  files := [orphanFile]
  distinct := List.nodup_singleton _
  index := .corrupt true
  now := 0

def quarantinedFile (n : Nat) : DirEntry where
  name := .ofQuarantine n
  stat := some (n, 100)
  removable := true

theorem distinct_quarantinedFiles : Distinct ((List.range 21).map quarantinedFile) := by
  unfold Distinct
  decide +kernel

def quarantined : DataDir where
  listable := true
  files := (List.range 21).map quarantinedFile
  distinct := distinct_quarantinedFiles
  index := .absent
  now := 21

theorem needed_deleted :
    ¬ Safe orphaned {} (sweepRetention orphaned {}).files ∧
      ¬ Safe quarantined {} (sweepRetention quarantined {}).files := by
  constructor
  · intro h
    have hKept := h.unread rfl (fun h => h) _ List.mem_cons_self "run-1".toList (by decide)
    exact absurd hKept (by decide +kernel)
  · intro h
    have hFirst : quarantinedFile 0 ∈ quarantined.files := List.mem_map_of_mem (by decide)
    have hMatched := h.newest _ hFirst (by decide +kernel) (by decide +kernel)
    exact absurd hMatched (by decide +kernel)

end OrchestraAI.Persistence
