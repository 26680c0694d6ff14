import Mathlib.Data.List.Basic
import OrchestraAI.Library.JsonFields
import OrchestraAI.Library.JsonSize
import OrchestraAI.Persistence.FileStore

/-! # Atomic writes

`_serializePrunable`, `_writeJson` and the pruners of `persistence.js`. A text is written to a
temporary file, which then gets the name of the target. How much a text may hold is measured in
code units.

In every state that a write passes through the target holds what it held or the text that was
chosen. The text is that of a pruning of the value, of the first whose code units are few enough,
and it keeps to the bound if its bytes are as well.
-/

namespace OrchestraAI.Persistence

open LastEntries
open Json (Fields Pruning PrunedElems PrunedFields field assign rewrite)

abbrev Caps := List (String × Nat)

def intelligenceCaps : Caps :=
  [("outcomeEvals", 200), ("routingHistory", 300), ("history", 300), ("benchmarks", 500),
    ("entries", 500), ("observations", 500), ("evaluations", 200), ("cache", 500), ("versions", 100)]

def halvedCaps : Caps := intelligenceCaps.map fun c => (c.1, max 10 (c.2 / 2))

def genericArrayCap : Nat := 500

def capFor (caps : Caps) (key : String) : Nat := (caps.lookup key).getD genericArrayCap

mutual

/-- `walk` of `pruneIntelligenceDoc`. The entries of an array have their indices for keys. -/
def pruneNode (caps : Caps) : Json → Json
  | .obj fields => .obj (pruneFields caps fields)
  | .arr elems => .arr (pruneItems caps 0 elems)
  | v => v

def pruneValue (caps : Caps) (key : String) : Json → Json
  | .arr elems => .arr ((pruneElems caps elems).rtake (capFor caps key))
  | .obj fields => .obj (pruneFields caps fields)
  | v => v

def pruneFields (caps : Caps) : Fields → Fields
  | [] => []
  | (k, v) :: fields => (k, pruneValue caps k v) :: pruneFields caps fields

def pruneItems (caps : Caps) (i : Nat) : List Json → List Json
  | [] => []
  | v :: vs => pruneValue caps (toString i) v :: pruneItems caps (i + 1) vs

def pruneElems (caps : Caps) : List Json → List Json
  | [] => []
  | v :: vs => pruneNode caps v :: pruneElems caps vs

end

/-- `pruneIntelligenceDoc`, with nothing for a document that is returned itself. -/
def pruneIntelligenceDoc (caps : Caps) : Json → Option Json
  | .obj fields => some (pruneNode caps (.obj fields))
  | _ => none

mutual

def overflowNode (caps : Caps) : Json → Nat
  | .obj fields => overflowFields caps fields
  | .arr elems => overflowItems caps 0 elems
  | _ => 0

def overflowValue (caps : Caps) (key : String) : Json → Nat
  | .arr elems => elems.length - capFor caps key + overflowElems caps elems
  | .obj fields => overflowFields caps fields
  | _ => 0

def overflowFields (caps : Caps) : Fields → Nat
  | [] => 0
  | (k, v) :: fields => overflowValue caps k v + overflowFields caps fields

def overflowItems (caps : Caps) (i : Nat) : List Json → Nat
  | [] => 0
  | v :: vs => overflowValue caps (toString i) v + overflowItems caps (i + 1) vs

def overflowElems (caps : Caps) : List Json → Nat
  | [] => 0
  | v :: vs => overflowNode caps v + overflowElems caps vs

end

/-- `intelligenceOverflow`. -/
def intelligenceOverflow (caps : Caps) (doc : Json) : Nat := overflowNode caps doc

def halve : Json → Option Json
  | .arr elems => (prune elems).map .arr
  | _ => none

def shortened (key : String) : Json → Option Json
  | .arr elems =>
    if key ∈ ["trace", "series", "messages", "decisions", "changes"] ∧ 20 < elems.length then
      some (.arr (elems.rtake (elems.length / 2)))
    else none
  | .obj context =>
    if key = "context" then
      match field "items" context with
      | some (.arr items) =>
        if 50 < items.length then some (.obj (assign "items" (.arr (items.rtake 50)) context))
        else none
      | _ => none
    else none
  | _ => none

def shortenSnapshot : Json → Option Json
  | .obj fields =>
    if fields.any fun f => (shortened f.1 f.2).isSome then
      some (.obj (rewrite (fun key v => (shortened key v).getD v) fields))
    else none
  | _ => none

def compactAgain (doc : Json) : Option Json :=
  if intelligenceOverflow halvedCaps doc = 0 then none else pruneIntelligenceDoc halvedCaps doc

mutual

theorem pruning_node (caps : Caps) : (v : Json) → Pruning v (pruneNode caps v)
  | .obj fields => .obj (pruned_fields caps fields)
  | .arr elems => .arr (pruned_items caps 0 elems)
  | .null => .refl _
  | .bool _ => .refl _
  | .num _ => .refl _
  | .str _ => .refl _

theorem pruning_value (caps : Caps) (key : String) : (v : Json) → Pruning v (pruneValue caps key v)
  | .obj fields => .obj (pruned_fields caps fields)
  | .arr elems => .arr ((pruned_elems caps elems).trans (.of_sublist (rtake_sublist _ _)))
  | .null => .refl _
  | .bool _ => .refl _
  | .num _ => .refl _
  | .str _ => .refl _

theorem pruned_fields (caps : Caps) : (fields : Fields) →
    PrunedFields fields (pruneFields caps fields)
  | [] => .nil
  | (k, v) :: fields => .cons k (pruning_value caps k v) (pruned_fields caps fields)

theorem pruned_items (caps : Caps) (i : Nat) : (elems : List Json) →
    PrunedElems elems (pruneItems caps i elems)
  | [] => .nil
  | v :: vs => .taken (pruning_value caps (toString i) v) (pruned_items caps (i + 1) vs)

theorem pruned_elems (caps : Caps) : (elems : List Json) →
    PrunedElems elems (pruneElems caps elems)
  | [] => .nil
  | v :: vs => .taken (pruning_node caps v) (pruned_elems caps vs)

end

structure Pruner where
  prune : Json → Option Json
  sound : ∀ v w, prune v = some w → Pruning v w

theorem sound_halve (v w : Json) (h : halve v = some w) : Pruning v w := by
  cases v with
  | arr elems =>
    obtain ⟨kept, hPrune, rfl⟩ := Option.map_eq_some_iff.mp h
    unfold prune at hPrune
    split at hPrune
    · nomatch hPrune
    · cases hPrune
      exact .arr (.of_sublist (rtake_sublist _ _))
  | _ => nomatch h

theorem sound_shortened {key : String} {v w : Json} (h : shortened key v = some w) : Pruning v w := by
  cases v with
  | arr elems =>
    obtain ⟨-, rfl⟩ := Option.ite_some_none_eq_some.mp h
    exact .arr (.of_sublist (rtake_sublist _ _))
  | obj context =>
    rw [shortened] at h
    split at h
    · split at h
      · rename_i items hItems
        obtain ⟨-, rfl⟩ := Option.ite_some_none_eq_some.mp h
        exact .obj (.assign hItems (.arr (.of_sublist (rtake_sublist _ _))))
      · nomatch h
    · nomatch h
  | _ => nomatch h

theorem sound_shortenSnapshot (v w : Json) (h : shortenSnapshot v = some w) : Pruning v w := by
  cases v with
  | obj fields =>
    obtain ⟨-, rfl⟩ := Option.ite_some_none_eq_some.mp h
    refine .obj (.rewrite fun f _ => ?_)
    cases hShort : shortened f.1 f.2 with
    | none => exact .refl f.2
    | some u => exact sound_shortened hShort
  | _ => nomatch h

theorem sound_compactAgain (v w : Json) (h : compactAgain v = some w) : Pruning v w := by
  unfold compactAgain at h
  split at h
  · nomatch h
  · cases v with
    | obj fields =>
      cases h
      exact pruning_node halvedCaps _
    | _ => nomatch h

namespace Pruner

/-- Of the run index, the event logs, the evaluations and the idempotency records. -/
def list : Pruner := ⟨halve, sound_halve⟩

def snapshot : Pruner := ⟨shortenSnapshot, sound_shortenSnapshot⟩

def intelligence : Pruner := ⟨compactAgain, sound_compactAgain⟩

def billing : Pruner := ⟨fun _ => none, fun _ _ => nofun⟩

end Pruner

/-- `text.length` of the text of a value. -/
def unitSize (v : Json) : Nat := (codeUnits (String.ofList (stringify v))).length

inductive WriteResult
  | ok (pruned : Nat)
  | error (error : Text)

/-- What the operating system makes of the steps of a write: the texts of their errors, and how
many bytes a failed write left in the temporary file. -/
structure Io where
  mkdir : Option Text
  write : Option (Nat × Text)
  rename : Option Text
  /-- `unlinkSync` works. -/
  unlink : Bool

structure Files where
  target : Option Utf8.Bytes
  temporary : Option Utf8.Bytes

namespace Files

def written (files : Files) (bytes : Utf8.Bytes) : Files := { files with temporary := some bytes }

def torn (files : Files) (bytes : Utf8.Bytes) (count : Nat) : List Files :=
  (List.range (count + 1)).map fun n => files.written (bytes.take n)

def renamed (files : Files) : Files := ⟨files.temporary, none⟩

def cleaned (files : Files) (io : Io) : Files :=
  if io.unlink then { files with temporary := none } else files

end Files

section Write

variable (maxBytes : Nat) (name : Text) (pruner : Pruner)

def tooLarge : Text :=
  "too_large: ".toList ++ name ++ " exceeds ".toList ++ Nat.toDigits 10 maxBytes ++
    " bytes even after pruning".toList

def serializePrunable : Nat → Json → Nat → Except Text (Text × Nat)
  | 0, current, pruned =>
    if unitSize current ≤ maxBytes then .ok (stringify current, pruned)
    else .error (tooLarge maxBytes name)
  | attempts + 1, current, pruned =>
    if unitSize current ≤ maxBytes then .ok (stringify current, pruned)
    else
      match pruner.prune current with
      | none => .error (tooLarge maxBytes name)
      | some next => serializePrunable attempts next (pruned + 1)

/-- The states of the two files, in each of which the process may stop, and the result. -/
def writeJson (io : Io) (value : Json) (files : Files) : List Files × WriteResult :=
  match io.mkdir with
  | some error => ([files], .error error)
  | none =>
    match serializePrunable maxBytes name pruner 6 value 0 with
    | .error error => ([files], .error error)
    | .ok (text, pruned) =>
      let bytes := Utf8.encode text
      match io.write with
      | some (count, error) =>
        (files :: files.torn bytes count ++ [(files.written (bytes.take count)).cleaned io],
          .error (error.take 200))
      | none =>
        -- `fsyncSync` leaves what the files hold, and if it fails nothing is said
        let states := files :: files.torn bytes bytes.length
        match io.rename with
        | some error => (states ++ [(files.written bytes).cleaned io], .error (error.take 200))
        | none => (states ++ [(files.written bytes).renamed], .ok pruned)

end Write

open Json (Pruning)

variable {maxBytes : Nat} {name : Text} {pruner : Pruner} {io : Io} {value v w : Json} {files : Files}

def Pruner.prunings (pruner : Pruner) : Nat → Json → Option Json
  | 0, v => some v
  | n + 1, v => (pruner.prune v).bind (pruner.prunings n)

def Complete (maxBytes : Nat) (value : Json) (content : Option Utf8.Bytes) : Prop :=
  ∃ w, Pruning value w ∧ content = some (Utf8.encode (stringify w)) ∧ w.byteSize ≤ maxBytes

structure Atomic (maxBytes : Nat) (value : Json) (files : Files) (run : List Files × WriteResult) :
    Prop where
  held : ∀ s ∈ run.1, s.target = files.target ∨ Complete maxBytes value s.target
  success : ∀ pruned, run.2 = .ok pruned →
    ∃ s, run.1.getLast? = some s ∧ Complete maxBytes value s.target
  /-- The value is pruned a bounded number of times. -/
  rounds : ∀ pruned, run.2 = .ok pruned → pruned ≤ 6

/-- Of the prunings, the first whose code units are few enough has few enough bytes. -/
def FitsInBytes (maxBytes : Nat) (pruner : Pruner) (value : Json) : Prop :=
  ∀ n ≤ 6, ∀ w, pruner.prunings n value = some w → unitSize w ≤ maxBytes →
    (∀ m < n, ∀ u, pruner.prunings m value = some u → maxBytes < unitSize u) →
      w.byteSize ≤ maxBytes

theorem Pruner.pruning_prunings {n : Nat} (h : pruner.prunings n v = some w) :
    Pruning v w := by
  induction n generalizing v with
  | zero =>
    cases h
    exact .refl _
  | succ n ih =>
    obtain ⟨u, hPrune, hRest⟩ := Option.bind_eq_some_iff.mp h
    exact (pruner.sound v u hPrune).trans (ih hRest)

/-- The `n`-th pruning is the first whose code units are few enough. -/
structure Chosen (maxBytes : Nat) (pruner : Pruner) (value : Json) (n : Nat) (w : Json) : Prop where
  pruning : pruner.prunings n value = some w
  fits : unitSize w ≤ maxBytes
  first : ∀ m < n, ∀ u, pruner.prunings m value = some u → maxBytes < unitSize u

theorem chosen_zero : Chosen maxBytes pruner value 0 w ↔ w = value ∧ unitSize value ≤ maxBytes := by
  constructor
  · rintro ⟨hPruning, hFits, -⟩
    cases hPruning
    exact ⟨rfl, hFits⟩
  · rintro ⟨rfl, hFits⟩
    exact ⟨rfl, hFits, nofun⟩

theorem chosen_succ {n : Nat} : Chosen maxBytes pruner value (n + 1) w ↔
    maxBytes < unitSize value ∧ ∃ v, pruner.prune value = some v ∧ Chosen maxBytes pruner v n w := by
  constructor
  · rintro ⟨hPruning, hFits, hFirst⟩
    obtain ⟨v, hPrune, hRest⟩ := Option.bind_eq_some_iff.mp hPruning
    refine ⟨hFirst 0 n.succ_pos value rfl, v, hPrune, hRest, hFits, fun m hm u hu => ?_⟩
    exact hFirst (m + 1) (Nat.succ_lt_succ hm) u (Option.bind_eq_some_iff.mpr ⟨v, hPrune, hu⟩)
  · rintro ⟨hLong, v, hPrune, hPruning, hFits, hFirst⟩
    refine ⟨Option.bind_eq_some_iff.mpr ⟨v, hPrune, hPruning⟩, hFits, fun m hm u hu => ?_⟩
    cases m with
    | zero =>
      cases hu
      exact hLong
    | succ m =>
      obtain ⟨v', hPrune', hRest⟩ := Option.bind_eq_some_iff.mp hu
      cases hPrune.symm.trans hPrune'
      exact hFirst m (Nat.lt_of_succ_lt_succ hm) u hRest

/-- What the attempts find: the first fitting one, or none among the prunings that there are. -/
theorem serializePrunable_spec (maxBytes : Nat) (name : Text) (pruner : Pruner) (attempts : Nat)
    (value : Json) (pruned : Nat) :
    (∃ n ≤ attempts, ∃ w, Chosen maxBytes pruner value n w ∧
      serializePrunable maxBytes name pruner attempts value pruned = .ok (stringify w, pruned + n)) ∨
    (∃ error, serializePrunable maxBytes name pruner attempts value pruned = .error error) ∧
      ∀ n ≤ attempts, ∀ w, ¬ Chosen maxBytes pruner value n w := by
  induction attempts generalizing value pruned with
  | zero =>
    unfold serializePrunable
    split
    · rename_i hFits
      exact .inl ⟨0, le_rfl, value, chosen_zero.mpr ⟨rfl, hFits⟩, rfl⟩
    · rename_i hLong
      refine .inr ⟨⟨_, rfl⟩, fun n hn w hChosen => ?_⟩
      obtain rfl := Nat.le_zero.mp hn
      exact hLong (chosen_zero.mp hChosen).2
  | succ attempts ih =>
    unfold serializePrunable
    split
    · rename_i hFits
      exact .inl ⟨0, Nat.zero_le _, value, chosen_zero.mpr ⟨rfl, hFits⟩, rfl⟩
    · rename_i hLong
      cases hPrune : pruner.prune value with
      | none =>
        refine .inr ⟨⟨_, rfl⟩, fun n _ w hChosen => ?_⟩
        cases n with
        | zero => exact hLong (chosen_zero.mp hChosen).2
        | succ n =>
          obtain ⟨-, v, hPrune', -⟩ := chosen_succ.mp hChosen
          exact Option.noConfusion rfl (heq_of_eq (hPrune.symm.trans hPrune'))
      | some v =>
        obtain ⟨n, hn, w, hChosen, hText⟩ | ⟨hError, hNone⟩ := ih v (pruned + 1)
        · refine .inl ⟨n + 1, Nat.succ_le_succ hn, w,
            chosen_succ.mpr ⟨not_le.mp hLong, v, hPrune, hChosen⟩, ?_⟩
          dsimp only
          rw [hText, Nat.add_right_comm, Nat.add_assoc]
        · refine .inr ⟨hError, fun n hn w hChosen => ?_⟩
          cases n with
          | zero => exact hLong (chosen_zero.mp hChosen).2
          | succ n =>
            obtain ⟨-, v', hPrune', hChosen'⟩ := chosen_succ.mp hChosen
            cases hPrune.symm.trans hPrune'
            exact hNone n (Nat.le_of_succ_le_succ hn) w hChosen'

theorem Chosen.unique {n n' : Nat} {w' : Json} (h : Chosen maxBytes pruner value n w)
    (h' : Chosen maxBytes pruner value n' w') : w = w' := by
  obtain hLt | rfl | hGt := Nat.lt_trichotomy n n'
  · exact absurd h.fits (not_le.mpr (h'.first n hLt w h.pruning))
  · exact Option.some.inj (h.pruning.symm.trans h'.pruning)
  · exact absurd h'.fits (not_le.mpr (h.first n' hGt w' h'.pruning))

theorem fitsInBytes_iff : FitsInBytes maxBytes pruner value ↔
    ∀ n ≤ 6, ∀ w, Chosen maxBytes pruner value n w → w.byteSize ≤ maxBytes := by
  constructor
  · exact fun h n hn w hChosen => h n hn w hChosen.pruning hChosen.fits hChosen.first
  · exact fun h n hn w hPruning hFits hFirst => h n hn w ⟨hPruning, hFits, hFirst⟩

theorem complete_encode : Complete maxBytes value (some (Utf8.encode (stringify w))) →
    w.byteSize ≤ maxBytes := by
  rintro ⟨w', -, hEq, hSize⟩
  rw [Json.byteSize, Option.some.inj hEq]
  exact hSize

theorem atomic_of_error {run : List Files × WriteResult} {error : Text} (hError : run.2 = .error error)
    (h : ∀ s ∈ run.1, s.target = files.target) : Atomic maxBytes value files run where
  held s hs := .inl (h s hs)
  success _ hOk := nomatch hError.symm.trans hOk
  rounds _ hOk := nomatch hError.symm.trans hOk

/-- A run that ends with the text of a pruning in the target, which was left alone until then. -/
theorem atomic_of_renamed {n pruned : Nat} {states : List Files} {final : Files}
    (hPruning : pruner.prunings n value = some w) (hPruned : pruned ≤ 6)
    (h : ∀ s ∈ states, s.target = files.target)
    (hFinal : final.target = some (Utf8.encode (stringify w))) :
    Atomic maxBytes value files (states ++ [final], .ok pruned) ↔ w.byteSize ≤ maxBytes := by
  constructor
  · intro hAtomic
    obtain ⟨s, hLast, hComplete⟩ := hAtomic.success pruned rfl
    rw [List.getLast?_concat] at hLast
    cases hLast
    rw [hFinal] at hComplete
    exact complete_encode hComplete
  · intro hSize
    have hComplete : Complete maxBytes value final.target :=
      ⟨w, pruner.pruning_prunings hPruning, hFinal, hSize⟩
    refine ⟨fun s hs => ?_, fun _ _ => ⟨final, ?_, hComplete⟩, fun _ hOk => ?_⟩
    · obtain hs | hs := List.mem_append.mp hs
      · exact .inl (h s hs)
      · rw [List.mem_singleton.mp hs]
        exact .inr hComplete
    · exact List.getLast?_concat
    · cases hOk
      exact hPruned

@[simp] theorem written_target (files : Files) (bytes : Utf8.Bytes) :
    (files.written bytes).target = files.target := rfl

@[simp] theorem cleaned_target (files : Files) (io : Io) :
    (files.cleaned io).target = files.target := by
  unfold Files.cleaned
  split <;> rfl

theorem target_of_torn {bytes : Utf8.Bytes} {count : Nat} {s : Files}
    (h : s ∈ files :: files.torn bytes count) : s.target = files.target := by
  obtain rfl | h := List.mem_cons.mp h
  · rfl
  · obtain ⟨n, -, rfl⟩ := List.mem_map.mp h
    exact written_target files _

/-- A write keeps the target or puts a complete text within the bound there, just if it does not get
to its renaming or the chosen text has few enough bytes. -/
theorem write_atomic_iff (maxBytes : Nat) (name : Text) (pruner : Pruner) (io : Io) (value : Json)
    (files : Files) :
    Atomic maxBytes value files (writeJson maxBytes name pruner io value files) ↔
      io.mkdir ≠ none ∨ io.write ≠ none ∨ io.rename ≠ none ∨ FitsInBytes maxBytes pruner value := by
  unfold writeJson
  cases hMkdir : io.mkdir with
  | some error =>
    refine iff_of_true (atomic_of_error rfl ?_) (.inl nofun)
    simp
  | none =>
    obtain ⟨n, hn, w, hChosen, hText⟩ | ⟨⟨error, hError⟩, hNone⟩ :=
      serializePrunable_spec maxBytes name pruner 6 value 0
    · dsimp only
      rw [hText]
      cases hWrite : io.write with
      | some failure =>
        obtain ⟨count, error⟩ := failure
        refine iff_of_true (atomic_of_error rfl fun s hs => ?_) (.inr (.inl nofun))
        obtain hs | hs := List.mem_append.mp hs
        · exact target_of_torn hs
        · rw [List.mem_singleton.mp hs, cleaned_target, written_target]
      | none =>
        cases hRename : io.rename with
        | some error =>
          refine iff_of_true (atomic_of_error rfl fun s hs => ?_) (.inr (.inr (.inl nofun)))
          obtain hs | hs := List.mem_append.mp hs
          · exact target_of_torn hs
          · rw [List.mem_singleton.mp hs, cleaned_target, written_target]
        | none =>
          have hOnly : FitsInBytes maxBytes pruner value ↔ w.byteSize ≤ maxBytes := by
            rw [fitsInBytes_iff]
            constructor
            · exact fun h => h n hn w hChosen
            · exact fun h n' _ w' hChosen' => hChosen.unique hChosen' ▸ h
          dsimp only
          rw [atomic_of_renamed hChosen.pruning (by omega) (fun s => target_of_torn) rfl, hOnly]
          simp
    · dsimp only
      rw [hError]
      refine iff_of_true (atomic_of_error rfl ?_) (.inr (.inr (.inr ?_)))
      · simp
      · exact fitsInBytes_iff.mpr fun n hn w hChosen => absurd hChosen (hNone n hn w)

/-- The evaluations `["é"]`, five code units in six bytes, pass a bound of five bytes. -/
theorem oversized_written :
    ¬ Atomic 5 (.arr [.str "é"]) ⟨none, none⟩
      (writeJson 5 "evals.json".toList .list ⟨none, none, none, true⟩ (.arr [.str "é"]) ⟨none, none⟩) := by
  intro h
  obtain ⟨s, hLast, hComplete⟩ := h.success 0 rfl
  have hTarget : s.target = some (Utf8.encode (stringify (.arr [.str "é"]))) := by
    have hEnd : s = ⟨some (Utf8.encode (stringify (.arr [.str "é"]))), none⟩ := (Option.some.inj hLast).symm
    rw [hEnd]
  rw [hTarget] at hComplete
  exact absurd (complete_encode hComplete) (by decide +kernel)

end OrchestraAI.Persistence
