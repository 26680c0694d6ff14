import Mathlib.Data.List.Basic
import Mathlib.Data.Rat.Defs

/-! # A heap of shared objects and its JSON text

Values are primitive or refer to an object of the heap, so that two holders of
one reference see each other's writes. The JSON text of a value follows its
references down to a nesting limit; its footprint lists the addresses read on the
way. Writes outside the footprint leave the text alone.

A document is built afresh around values that it shares with others: its own
arrays and records are held by nobody else, so they need no address.

A deep copy is `JSON.parse(JSON.stringify(v))`: the objects a value leads to, built anew at the end
of another heap. A copy has the text of its source.
-/

namespace ObjectHeap

abbrev Addr := Nat

inductive Val
  | null
  | bool (b : Bool)
  | num (q : ℚ)
  | str (s : String)
  | ref (a : Addr)
  deriving DecidableEq, Repr

inductive Obj
  | array (elems : List Val)
  | record (fields : List (String × Val))
  deriving DecidableEq, Repr

abbrev Heap := List Obj

def writeAll (h : Heap) (writes : List (Addr × Obj)) : Heap :=
  writes.foldl (fun h w => h.set w.1 w.2) h

inductive Token
  | mark (c : Char)
  | null
  | bool (b : Bool)
  | num (q : ℚ)
  | str (s : String)
  deriving DecidableEq, Repr

abbrev Text := List Token

def collect {α : Type} : List (Option α) → Option (List α)
  | [] => some []
  | none :: _ => none
  | some x :: xs => (collect xs).map (x :: ·)

def commaSeparated (ts : List Text) : Text := ts.intersperse [.mark ','] |>.flatten

def arrayText (elems : List (Option Text)) : Option Text :=
  (collect elems).map fun ts => .mark '[' :: commaSeparated ts ++ [.mark ']']

def recordText (fields : List (String × Option Text)) : Option Text :=
  (collect (fields.map fun f => f.2.map fun t => .str f.1 :: .mark ':' :: t)).map fun ts =>
    .mark '\x7b' :: commaSeparated ts ++ [.mark '\x7d']

/-- `JSON.stringify`: no text where the nesting is deeper than the limit, as on a cycle. -/
def text (h : Heap) : Nat → Val → Option Text
  | _, .null => some [.null]
  | _, .bool b => some [.bool b]
  | _, .num q => some [.num q]
  | _, .str s => some [.str s]
  | 0, .ref _ => none
  | n + 1, .ref a =>
    match h[a]? with
    | none => none
    | some (.array elems) => arrayText (elems.map (text h n))
    | some (.record fields) => recordText (fields.map fun f => (f.1, text h n f.2))

/-- The addresses that `text` reads. -/
def footprint (h : Heap) : Nat → Val → List Addr
  | n + 1, .ref a =>
    a :: match h[a]? with
      | none => []
      | some (.array elems) => elems.flatMap (footprint h n)
      | some (.record fields) => fields.flatMap fun f => footprint h n f.2
  | _, _ => []

/-- `h'` has every object of the list as `h` has it. -/
def Agrees (h h' : Heap) (as : List Addr) : Prop := ∀ a ∈ as, h'[a]? = h[a]?

attribute [grind =] collect text footprint

theorem Agrees.mono {h h' : Heap} {as bs : List Addr} (hAgree : Agrees h h' as) (hSub : bs ⊆ as) :
    Agrees h h' bs := fun a ha => hAgree a (hSub ha)

theorem self_mem_footprint {h : Heap} {n : Nat} {a : Addr} (hText : (text h n (.ref a)).isSome) :
    a ∈ footprint h n (.ref a) := by
  cases n with
  | zero => cases hText
  | succ n => exact List.mem_cons_self

theorem mem_footprint_elems {h : Heap} {n : Nat} {a : Addr} {elems : List Val} {v : Val}
    (hGet : h[a]? = some (.array elems)) (hv : v ∈ elems) :
    footprint h n v ⊆ footprint h (n + 1) (.ref a) := by
  intro b hb
  simp only [footprint, hGet]
  exact List.mem_cons_of_mem _ (List.mem_flatMap.mpr ⟨v, hv, hb⟩)

theorem mem_footprint_fields {h : Heap} {n : Nat} {a : Addr} {fields : List (String × Val)}
    {f : String × Val} (hGet : h[a]? = some (.record fields)) (hf : f ∈ fields) :
    footprint h n f.2 ⊆ footprint h (n + 1) (.ref a) := by
  intro b hb
  simp only [footprint, hGet]
  exact List.mem_cons_of_mem _ (List.mem_flatMap.mpr ⟨f, hf, hb⟩)

/-- The frame rule: a heap that agrees on the footprint of a value has the same text for it. -/
theorem text_congr {h h' : Heap} {n : Nat} {v : Val} (hAgree : Agrees h h' (footprint h n v)) :
    text h' n v = text h n v := by
  induction n generalizing v with
  | zero => cases v <;> rfl
  | succ n ih =>
    cases v with
    | null | bool _ | num _ | str _ => rfl
    | ref a =>
      have hHead : h'[a]? = h[a]? := hAgree a List.mem_cons_self
      simp only [text, hHead]
      cases hGet : h[a]? with
      | none => rfl
      | some o =>
        cases o with
        | array elems =>
          refine congrArg arrayText (List.map_congr_left fun v hv => ih ?_)
          exact hAgree.mono (mem_footprint_elems hGet hv)
        | record fields =>
          refine congrArg recordText (List.map_congr_left fun f hf => ?_)
          exact congrArg (Prod.mk f.1) (ih (hAgree.mono (mem_footprint_fields hGet hf)))

theorem footprint_congr {h h' : Heap} {n : Nat} {v : Val}
    (hAgree : Agrees h h' (footprint h n v)) : footprint h' n v = footprint h n v := by
  induction n generalizing v with
  | zero => cases v <;> rfl
  | succ n ih =>
    cases v with
    | null | bool _ | num _ | str _ => rfl
    | ref a =>
      have hHead : h'[a]? = h[a]? := hAgree a List.mem_cons_self
      simp only [footprint, hHead]
      refine congrArg (a :: ·) ?_
      cases hGet : h[a]? with
      | none => rfl
      | some o =>
        cases o with
        | array elems =>
          refine List.flatMap_congr fun v hv => ih ?_
          exact hAgree.mono (mem_footprint_elems hGet hv)
        | record fields =>
          refine List.flatMap_congr fun f hf => ih ?_
          exact hAgree.mono (mem_footprint_fields hGet hf)

theorem collect_eq_some {α : Type} {xs : List (Option α)} {ys : List α}
    (h : collect xs = some ys) : ∀ x ∈ xs, x.isSome := by
  induction xs generalizing ys with
  | nil => intro x hx; cases hx
  | cons x xs ih =>
    cases x with
    | none => cases h
    | some x =>
      obtain ⟨zs, hzs, -⟩ := Option.map_eq_some_iff.mp h
      intro y hy
      rcases List.mem_cons.mp hy with rfl | hy
      · rfl
      · exact ih hzs y hy

theorem text_of_mem_arrayText {xs : List (Option Text)} {t : Text} (h : arrayText xs = some t) :
    ∀ x ∈ xs, x.isSome := by
  obtain ⟨ys, hys, -⟩ := Option.map_eq_some_iff.mp h
  exact collect_eq_some hys

theorem text_of_mem_recordText {fields : List (String × Option Text)} {t : Text}
    (h : recordText fields = some t) : ∀ f ∈ fields, f.2.isSome := by
  obtain ⟨ys, hys, -⟩ := Option.map_eq_some_iff.mp h
  intro f hf
  simpa using collect_eq_some hys _ (List.mem_map_of_mem hf)

theorem allocated_of_text {h : Heap} {n : Nat} {v : Val} (hText : (text h n v).isSome) :
    ∀ a ∈ footprint h n v, a < h.length := by
  induction n generalizing v with
  | zero => cases v <;> intro a ha <;> cases ha
  | succ n ih =>
    cases v with
    | null | bool _ | num _ | str _ => intro a ha; cases ha
    | ref a =>
      obtain ⟨t, ht⟩ := Option.isSome_iff_exists.mp hText
      intro b hb
      simp only [text] at ht
      simp only [footprint] at hb
      cases hGet : h[a]? with
      | none => rw [hGet] at ht; cases ht
      | some o =>
        rw [hGet] at ht hb
        rcases List.mem_cons.mp hb with rfl | hb
        · exact (List.getElem?_eq_some_iff.mp hGet).1
        · cases o with
          | array elems =>
            obtain ⟨v, hv, hbv⟩ := List.mem_flatMap.mp hb
            exact ih (text_of_mem_arrayText ht _ (List.mem_map_of_mem hv)) b hbv
          | record fields =>
            obtain ⟨f, hf, hbf⟩ := List.mem_flatMap.mp hb
            exact ih (text_of_mem_recordText ht _
              (List.mem_map_of_mem (f := fun f => (f.1, text h n f.2)) hf)) b hbf

@[simp] theorem length_writeAll (h : Heap) (writes : List (Addr × Obj)) :
    (writeAll h writes).length = h.length := by
  induction writes generalizing h with
  | nil => rfl
  | cons w ws ih =>
    rw [writeAll, List.foldl_cons]
    exact (ih _).trans List.length_set

theorem getElem?_writeAll {h : Heap} {writes : List (Addr × Obj)} {a : Addr}
    (hSame : ∀ w ∈ writes, w.1 = a → h[a]? = some w.2) : (writeAll h writes)[a]? = h[a]? := by
  induction writes generalizing h with
  | nil => rfl
  | cons w ws ih =>
    have hFirst : (h.set w.1 w.2)[a]? = h[a]? := by
      by_cases hw : w.1 = a
      · have hGet := hSame w List.mem_cons_self hw
        rw [List.getElem?_set, if_pos hw, hw, if_pos (List.getElem?_eq_some_iff.mp hGet).1, hGet]
      · rw [List.getElem?_set_ne hw]
    rw [writeAll, List.foldl_cons]
    refine Eq.trans (ih fun v hv hva => ?_) hFirst
    rw [hFirst]
    exact hSame v (List.mem_cons_of_mem w hv) hva

theorem text_of_extends {h h' : Heap} {n : Nat} {v : Val} (hPrefix : h <+: h')
    (hText : (text h n v).isSome) : text h' n v = text h n v := by
  obtain ⟨os, rfl⟩ := hPrefix
  exact text_congr fun a ha => List.getElem?_append_left (allocated_of_text hText a ha)

/-- `h'` has every object of the list that `h` has. -/
def Keeps (h h' : Heap) (as : List Addr) : Prop := ∀ a ∈ as, ∀ o, h[a]? = some o → h'[a]? = some o

theorem Keeps.mono {h h' : Heap} {as bs : List Addr} (hKeeps : Keeps h h' as) (hSub : bs ⊆ as) :
    Keeps h h' bs := fun a ha => hKeeps a (hSub ha)

theorem keeps_extends {h h' : Heap} (hPrefix : h <+: h') (as : List Addr) : Keeps h h' as := by
  obtain ⟨os, rfl⟩ := hPrefix
  intro a _ o ho
  rw [List.getElem?_append_left (List.getElem?_eq_some_iff.mp ho).1, ho]

theorem Keeps.trans {h₁ h₂ h₃ : Heap} {as : List Addr} (h : Keeps h₁ h₂ as) (k : Keeps h₂ h₃ as) :
    Keeps h₁ h₃ as := fun a ha o ho => k a ha o (h a ha o ho)

/-- Writes that put nothing new at the addresses of the list, and allocations, keep its objects. -/
theorem Keeps.write {h₁ h₂ : Heap} {as : List Addr} (hKeeps : Keeps h₁ h₂ as)
    {writes : List (Addr × Obj)} (hWrites : ∀ w ∈ writes, w.1 ∈ as → h₂[w.1]? = some w.2)
    (allocs : List Obj) : Keeps h₁ (writeAll h₂ writes ++ allocs) as := by
  intro a ha o ho
  have hNow := hKeeps a ha o ho
  have hSame : (writeAll h₂ writes)[a]? = h₂[a]? :=
    getElem?_writeAll fun w hw hwa => hwa ▸ hWrites w hw (hwa ▸ ha)
  exact keeps_extends (List.prefix_append ..) as a ha o (hSame.trans hNow)

theorem text_of_keeps {h h' : Heap} {n : Nat} {v : Val} {t : Text}
    (hKeeps : Keeps h h' (footprint h n v)) (hText : text h n v = some t) :
    text h' n v = some t := by
  refine (text_congr fun a ha => ?_).trans hText
  have hlt := allocated_of_text (Option.isSome_of_eq_some hText) a ha
  rw [List.getElem?_eq_getElem hlt]
  exact hKeeps a ha _ (List.getElem?_eq_getElem hlt)

inductive Part
  | val (v : Val)
  | list (vs : List Val)
  | record (fields : List (String × Val))

inductive Section
  | part (p : Part)
  | record (fields : List (String × Part))

abbrev Doc := List (String × Section)

def Part.values : Part → List Val
  | val v => [v]
  | list vs => vs
  | record fields => fields.map Prod.snd

def Part.text (h : Heap) (n : Nat) : Part → Option Text
  | val v => ObjectHeap.text h n v
  | list vs => arrayText (vs.map (ObjectHeap.text h n))
  | record fields => recordText (fields.map fun f => (f.1, ObjectHeap.text h n f.2))

def Section.values : Section → List Val
  | part p => p.values
  | record fields => fields.flatMap fun f => f.2.values

def Section.text (h : Heap) (n : Nat) : Section → Option Text
  | part p => p.text h n
  | record fields => recordText (fields.map fun f => (f.1, f.2.text h n))

def Doc.values (d : Doc) : List Val := d.flatMap fun f => f.2.values

def Doc.text (h : Heap) (n : Nat) (d : Doc) : Option Text :=
  recordText (d.map fun f => (f.1, f.2.text h n))

def Doc.footprint (h : Heap) (n : Nat) (d : Doc) : List Addr :=
  d.values.flatMap (ObjectHeap.footprint h n)

theorem Part.text_congr {h h' : Heap} {n : Nat} {p : Part}
    (hSame : ∀ v ∈ p.values, ObjectHeap.text h' n v = ObjectHeap.text h n v) :
    p.text h' n = p.text h n := by
  cases p with
  | val v => exact hSame v List.mem_cons_self
  | list vs => exact congrArg arrayText (List.map_congr_left hSame)
  | record fields =>
    refine congrArg recordText (List.map_congr_left fun f hf => congrArg (Prod.mk f.1) ?_)
    exact hSame f.2 (List.mem_map_of_mem hf)

theorem Section.text_congr {h h' : Heap} {n : Nat} {s : Section}
    (hSame : ∀ v ∈ s.values, ObjectHeap.text h' n v = ObjectHeap.text h n v) :
    s.text h' n = s.text h n := by
  cases s with
  | part p => exact Part.text_congr hSame
  | record fields =>
    refine congrArg recordText (List.map_congr_left fun f hf => congrArg (Prod.mk f.1) ?_)
    exact Part.text_congr fun v hv => hSame v (List.mem_flatMap.mpr ⟨f, hf, hv⟩)

theorem Doc.text_congr {h h' : Heap} {n : Nat} {d : Doc}
    (hSame : ∀ v ∈ d.values, ObjectHeap.text h' n v = ObjectHeap.text h n v) :
    d.text h' n = d.text h n := by
  refine congrArg recordText (List.map_congr_left fun f hf => congrArg (Prod.mk f.1) ?_)
  exact Section.text_congr fun v hv => hSame v (List.mem_flatMap.mpr ⟨f, hf, hv⟩)

theorem Part.text_values {h : Heap} {n : Nat} {p : Part} (hText : (p.text h n).isSome) :
    ∀ v ∈ p.values, (ObjectHeap.text h n v).isSome := by
  obtain ⟨t, ht⟩ := Option.isSome_iff_exists.mp hText
  intro v hv
  cases p with
  | val w =>
    rw [List.mem_singleton.mp hv]
    exact hText
  | list vs => exact text_of_mem_arrayText ht _ (List.mem_map_of_mem hv)
  | record fields =>
    obtain ⟨f, hf, rfl⟩ := List.mem_map.mp hv
    exact text_of_mem_recordText ht _
      (List.mem_map_of_mem (f := fun f => (f.1, ObjectHeap.text h n f.2)) hf)

theorem Section.text_values {h : Heap} {n : Nat} {s : Section} (hText : (s.text h n).isSome) :
    ∀ v ∈ s.values, (ObjectHeap.text h n v).isSome := by
  obtain ⟨t, ht⟩ := Option.isSome_iff_exists.mp hText
  intro v hv
  cases s with
  | part p => exact Part.text_values hText v hv
  | record fields =>
    obtain ⟨f, hf, hv⟩ := List.mem_flatMap.mp hv
    exact Part.text_values (text_of_mem_recordText ht _
      (List.mem_map_of_mem (f := fun f => (f.1, f.2.text h n)) hf)) v hv

theorem Doc.text_values {h : Heap} {n : Nat} {d : Doc} (hText : (d.text h n).isSome) :
    ∀ v ∈ d.values, (ObjectHeap.text h n v).isSome := by
  obtain ⟨t, ht⟩ := Option.isSome_iff_exists.mp hText
  intro v hv
  obtain ⟨f, hf, hv⟩ := List.mem_flatMap.mp hv
  exact Section.text_values (text_of_mem_recordText ht _
    (List.mem_map_of_mem (f := fun f => (f.1, f.2.text h n)) hf)) v hv

theorem Doc.mem_footprint {h : Heap} {n : Nat} {d : Doc} {v : Val} (hv : v ∈ d.values) :
    ObjectHeap.footprint h n v ⊆ d.footprint h n :=
  fun _ ha => List.mem_flatMap.mpr ⟨v, hv, ha⟩

theorem Doc.allocated {h : Heap} {n : Nat} {d : Doc} (hText : (d.text h n).isSome) :
    ∀ a ∈ d.footprint h n, a < h.length := by
  intro a ha
  obtain ⟨v, hv, ha⟩ := List.mem_flatMap.mp ha
  exact allocated_of_text (Doc.text_values hText v hv) a ha

theorem Doc.text_of_agrees {h h' : Heap} {n : Nat} {d : Doc}
    (hAgree : Agrees h h' (d.footprint h n)) : d.text h' n = d.text h n :=
  Doc.text_congr fun _ hv => ObjectHeap.text_congr (hAgree.mono (Doc.mem_footprint hv))

theorem Doc.footprint_congr {h h' : Heap} {n : Nat} {d : Doc}
    (hAgree : Agrees h h' (d.footprint h n)) : d.footprint h' n = d.footprint h n :=
  List.flatMap_congr fun _ hv => ObjectHeap.footprint_congr (hAgree.mono (Doc.mem_footprint hv))

def cloneVal (cloneRef : Heap → Addr → Option (Heap × Addr)) (k : Heap) :
    Val → Option (Heap × Val)
  | .ref a => (cloneRef k a).map fun r => (r.1, .ref r.2)
  | .null => some (k, .null)
  | .bool b => some (k, .bool b)
  | .num q => some (k, .num q)
  | .str s => some (k, .str s)

def cloneAll (cloneRef : Heap → Addr → Option (Heap × Addr)) :
    Heap → List Val → Option (Heap × List Val)
  | k, [] => some (k, [])
  | k, v :: vs =>
    (cloneVal cloneRef k v).bind fun r =>
      (cloneAll cloneRef r.1 vs).map fun rs => (rs.1, r.2 :: rs.2)

/-- Copy an object of `h` to the end of `k`; `none` where it has no text. -/
def cloneRef (h : Heap) : Nat → Heap → Addr → Option (Heap × Addr)
  | 0, _, _ => none
  | n + 1, k, a =>
    match h[a]? with
    | none => none
    | some (.array elems) =>
      (cloneAll (cloneRef h n) k elems).map fun r => (r.1 ++ [.array r.2], r.1.length)
    | some (.record fields) =>
      (cloneAll (cloneRef h n) k (fields.map Prod.snd)).map fun r =>
        (r.1 ++ [.record ((fields.map Prod.fst).zip r.2)], r.1.length)

def clone (h : Heap) (n : Nat) (k : Heap) (v : Val) : Option (Heap × Val) :=
  cloneVal (cloneRef h n) k v

def cloneList (h : Heap) (n : Nat) (k : Heap) (vs : List Val) : Option (Heap × List Val) :=
  cloneAll (cloneRef h n) k vs

attribute [grind =] cloneAll cloneRef

/-- The copy stands beside what was there and has the text of its source. -/
structure Cloned (h : Heap) (n : Nat) (k : Heap) (v : Val) (k' : Heap) (w : Val) : Prop where
  grown : k <+: k'
  text : ObjectHeap.text k' n w = ObjectHeap.text h n v
  isSome : (ObjectHeap.text h n v).isSome

structure ClonedList (h : Heap) (n : Nat) (k : Heap) (vs : List Val) (k' : Heap)
    (ws : List Val) : Prop where
  grown : k <+: k'
  texts : ws.map (text k' n) = vs.map (text h n)
  isSome : ∀ v ∈ vs, (text h n v).isSome

theorem collect_isSome {α : Type} {xs : List (Option α)} (h : ∀ x ∈ xs, x.isSome) :
    (collect xs).isSome := by
  induction xs with
  | nil => rfl
  | cons x xs ih =>
    obtain ⟨y, rfl⟩ := Option.isSome_iff_exists.mp (h x List.mem_cons_self)
    rw [collect, Option.isSome_map]
    exact ih fun x hx => h x (List.mem_cons_of_mem _ hx)

variable {h k k' : Heap} {n : Nat} {f : Heap → Addr → Option (Heap × Addr)}

theorem cloned_val (hRef : ∀ k k' a b, f k a = some (k', b) → Cloned h n k (.ref a) k' (.ref b))
    {v w : Val} (hClone : cloneVal f k v = some (k', w)) : Cloned h n k v k' w := by
  cases v with
  | ref a =>
    obtain ⟨⟨k₁, b⟩, hr, heq⟩ := Option.map_eq_some_iff.mp hClone
    cases heq
    exact hRef _ _ _ _ hr
  | null | bool _ | num _ | str _ =>
    cases hClone
    exact ⟨List.prefix_rfl, by cases n <;> rfl, by cases n <;> rfl⟩

theorem cloned_all (hRef : ∀ k k' a b, f k a = some (k', b) → Cloned h n k (.ref a) k' (.ref b))
    {vs ws : List Val} (hClone : cloneAll f k vs = some (k', ws)) : ClonedList h n k vs k' ws := by
  induction vs generalizing k k' ws with
  | nil =>
    cases hClone
    exact ⟨List.prefix_rfl, rfl, fun v hv => by cases hv⟩
  | cons v vs ih =>
    obtain ⟨⟨k₁, w⟩, hFirst, hMap⟩ := Option.bind_eq_some_iff.mp hClone
    obtain ⟨⟨k₂, ws⟩, hRest, heq⟩ := Option.map_eq_some_iff.mp hMap
    cases heq
    have hHead := cloned_val hRef hFirst
    have hTail := ih hRest
    refine ⟨hHead.grown.trans hTail.grown, ?_, List.forall_mem_cons.mpr ⟨hHead.isSome, hTail.isSome⟩⟩
    have hLater := text_of_extends hTail.grown (hHead.text ▸ hHead.isSome)
    rw [List.map_cons, List.map_cons, hTail.texts, hLater, hHead.text]

theorem ClonedList.later {vs ws : List Val} (hCloned : ClonedList h n k vs k' ws) {l : Heap}
    (hPrefix : k' <+: l) : ws.map (text l n) = vs.map (text h n) := by
  rw [← hCloned.texts]
  refine List.map_congr_left fun w hw => text_of_extends hPrefix ?_
  have hMem : text k' n w ∈ vs.map (text h n) := hCloned.texts ▸ List.mem_map_of_mem hw
  obtain ⟨v, hv, heq⟩ := List.mem_map.mp hMem
  exact heq ▸ hCloned.isSome v hv

theorem map_snd_zip {fields : List (String × Val)} {ws : List Val} {g g' : Val → Option Text}
    (hTexts : ws.map g' = (fields.map Prod.snd).map g) :
    ((fields.map Prod.fst).zip ws).map (fun e => (e.1, g' e.2)) =
      fields.map fun e => (e.1, g e.2) := by
  induction fields generalizing ws with
  | nil => rfl
  | cons e es ih =>
    cases ws with
    | nil => cases hTexts
    | cons w ws =>
      simp only [List.map_cons, List.cons.injEq] at hTexts
      simp only [List.map_cons, List.zip_cons_cons, ih hTexts.2, hTexts.1]

theorem cloned_ref {a b : Addr} (hClone : cloneRef h n k a = some (k', b)) :
    Cloned h n k (.ref a) k' (.ref b) := by
  induction n generalizing k k' a b with
  | zero => cases hClone
  | succ n ih =>
    simp only [cloneRef] at hClone
    split at hClone
    · cases hClone
    · rename_i elems hGet
      obtain ⟨⟨k₁, ws⟩, hAll, heq⟩ := Option.map_eq_some_iff.mp hClone
      cases heq
      have hCloned := cloned_all (fun _ _ _ _ => ih) hAll
      refine ⟨hCloned.grown.trans (List.prefix_append ..), ?_, ?_⟩
      · simp only [text, List.getElem?_concat_length, hGet]
        rw [hCloned.later (List.prefix_append ..)]
      · simp only [text, hGet, arrayText, Option.isSome_map]
        refine collect_isSome fun x hx => ?_
        obtain ⟨v, hv, rfl⟩ := List.mem_map.mp hx
        exact hCloned.isSome v hv
    · rename_i fields hGet
      obtain ⟨⟨k₁, ws⟩, hAll, heq⟩ := Option.map_eq_some_iff.mp hClone
      cases heq
      have hCloned := cloned_all (fun _ _ _ _ => ih) hAll
      refine ⟨hCloned.grown.trans (List.prefix_append ..), ?_, ?_⟩
      · simp only [text, List.getElem?_concat_length, hGet]
        rw [map_snd_zip (hCloned.later (List.prefix_append ..))]
      · simp only [text, hGet, recordText, Option.isSome_map]
        refine collect_isSome fun x hx => ?_
        obtain ⟨e, he, rfl⟩ := List.mem_map.mp hx
        obtain ⟨e', he', rfl⟩ := List.mem_map.mp he
        rw [Option.isSome_map]
        exact hCloned.isSome e'.2 (List.mem_map_of_mem he')

theorem clone_spec {v w : Val} (hClone : clone h n k v = some (k', w)) : Cloned h n k v k' w :=
  cloned_val (fun _ _ _ _ => cloned_ref) hClone

end ObjectHeap
