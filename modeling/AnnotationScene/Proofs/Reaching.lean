import AnnotationScene.Proofs.Marking

/-!
# What growing along an address leaves as it was

Growing leads to the element that an address denotes, or else to a new one in its place, and here
only the annotations of that element are changed. Whatever could be read before can be read after,
with its data, and with its annotations unless it is at the address itself. What can be read after
and not before was created on the way, or came with what was created, and has no annotations.
-/

namespace AnnotationScene

/-- Every step leads into a slot that there is. -/
def Address.Fits : List Slot → Address → Prop
  | _, [] => True
  | layout, s :: rest => s.slot ∈ layout ∧ Address.Fits s.kind.layout rest

namespace Element

variable {k : Kind}

def mapAnnotations (g : AnnotationSet → AnnotationSet) (e : Element k) : Element k :=
  e.withAnnotations (g e.annotations)

/-- Grows along the address and changes the annotations of the element at its end. -/
def editAt (g : AnnotationSet → AnnotationSet) (address : Address) (e : Element k) : Element k :=
  e.grow (fun _ e => e.mapAnnotations g) address

/-- What the address leads to when what is missing is created. -/
def reach : Address → {k : Kind} → Element k → SomeElement
  | [], k, e => ⟨k, e⟩
  | s :: rest, _, e => ((e.parts.child? s).getD (e.header.fresh s)).reach rest

end Element

namespace Scene

def editAt (g : AnnotationSet → AnnotationSet) (address : Address) (s : Scene) : Scene :=
  s.grow (fun _ e => e.mapAnnotations g) address

def reach (s : Scene) (first : Step) (rest : Address) : SomeElement :=
  ((s.parts.child? first).getD (fresh first)).reach rest

end Scene

def AnnotationSet.ofFound (x : Option SomeElement) : AnnotationSet :=
  (x.map fun x => x.2.annotations).getD []

def Scene.annotationsAt (s : Scene) (address : Address) : AnnotationSet :=
  .ofFound (s.find? address)

-- ---------------------------------------------------------------------------
-- New elements
-- ---------------------------------------------------------------------------

/-- The addresses of what a new element of the kind comes with. -/
def Kind.builtIn : Kind → List Address
  | .field => [[.optional .type]]
  | .method => [[.fixed .returnType], [.fixed .receiver], [.fixed .receiver, .optional .type],
      [.fixed .body]]
  | _ => []

/-- What comes with something that comes with a new element comes with that element. -/
theorem Kind.mem_builtIn_trans {k : Kind} {front tail : Address} {step : Step}
    (h : front ++ [step] ∈ k.builtIn) (ht : tail ∈ [] :: step.kind.builtIn) :
    front ++ step :: tail ∈ k.builtIn := by
  have hlast : ∀ {l : Address} {s : Step}, front ++ [step] = l ++ [s] → front = l ∧ step = s :=
    fun h => ⟨List.append_inj_left' h rfl, List.singleton_inj.mp (List.append_inj_right' h rfl)⟩
  cases k <;> simp only [builtIn, List.mem_cons, List.not_mem_nil, or_false] at h
  case field =>
    obtain ⟨rfl, rfl⟩ := hlast (l := []) h
    simpa [builtIn, Step.kind, OptionalChild.kind] using ht
  case method =>
    rcases h with h | h | h | h
    · obtain ⟨rfl, rfl⟩ := hlast (l := []) h
      simpa [builtIn, Step.kind, FixedChild.kind] using ht
    · -- the receiver is a field, and comes with its type
      obtain ⟨rfl, rfl⟩ := hlast (l := []) h
      rcases List.mem_cons.mp ht with rfl | ht
      · simp [builtIn]
      · simp_all [builtIn, Step.kind, FixedChild.kind]
    · obtain ⟨rfl, rfl⟩ := hlast (l := [.fixed .receiver]) h
      simpa [builtIn, Step.kind, OptionalChild.kind] using ht
    · obtain ⟨rfl, rfl⟩ := hlast (l := []) h
      simpa [builtIn, Step.kind, FixedChild.kind] using ht

structure Element.IsNew {k : Kind} (e : Element k) : Prop where
  isSome_find? : ∀ q, (e.find? q).isSome ↔ q ∈ [] :: k.builtIn
  attached : ∀ q x, e.find? q = some x → x.2.attached = []

theorem Element.isNew_of_located {k : Kind} {e : Element k} (hw : e.WellFormed)
    (haddresses : e.located.map Prod.fst = [] :: k.builtIn)
    (hempty : (e.located.all fun y => y.2.2.attached.isEmpty) = true) : e.IsNew := by
  constructor
  · intro q
    rw [← haddresses, List.mem_map]
    constructor
    · intro h
      obtain ⟨x, hx⟩ := Option.isSome_iff_exists.mp h
      exact ⟨(q, x), Element.mem_located_of_find? hx, rfl⟩
    · rintro ⟨⟨q, x⟩, hmem, rfl⟩
      exact Option.isSome_of_eq_some (Element.find?_of_mem_located hw hmem)
  · intro q x hx
    exact List.isEmpty_iff.mp (List.all_eq_true.mp hempty (q, x) (Element.mem_located_of_find? hx))

theorem ChildMap.isNew_fresh (m : ChildMap) (key : m.Key) : (m.fresh key).IsNew := by
  apply Element.isNew_of_located (m.wellFormed_fresh key) <;> cases m <;> rfl

theorem FixedChild.isNew_fresh (f : FixedChild) (name : String) : (f.fresh name).IsNew := by
  apply Element.isNew_of_located (f.wellFormed_fresh name) <;> cases f <;> rfl

theorem Header.isNew_fresh {k : Kind} (h : Header k) : (s : Step) → (h.fresh s).IsNew
  | .fixed f => f.isNew_fresh h.name
  | .optional .type => Element.isNew_of_located (h.wellFormed_fresh (.optional .type)) rfl rfl
  | .optional .init => Element.isNew_of_located (h.wellFormed_fresh (.optional .init)) rfl rfl
  | .keyed m key => m.isNew_fresh key

theorem Scene.isNew_fresh : (s : Step) → (Scene.fresh s).IsNew
  | .fixed f => f.isNew_fresh ""
  | .optional .type =>
    Element.isNew_of_located (Scene.wellFormed_fresh (.optional .type)) rfl rfl
  | .optional .init =>
    Element.isNew_of_located (Scene.wellFormed_fresh (.optional .init)) rfl rfl
  | .keyed m key => m.isNew_fresh key

-- ---------------------------------------------------------------------------
-- The element at the end
-- ---------------------------------------------------------------------------

namespace Parts

variable {layout : List Slot} {fresh : (s : Step) → Element s.kind} {p : Parts layout}
  {s : Step}

theorem grow_congr {f g : Element s.kind → Element s.kind}
    (h : f ((p.child? s).getD (fresh s)) = g ((p.child? s).getD (fresh s))) :
    p.grow fresh s f = p.grow fresh s g := by
  by_cases hs : s.slot ∈ layout
  · obtain ⟨content, hc⟩ := p.exists_slot? hs
    rw [grow_of_slot? hc, grow_of_slot? hc, h]
  · rw [grow_of_not_mem hs, grow_of_not_mem hs]

theorem descend_vivify_fst {α : Type} (hs : s.slot ∈ layout)
    (f : Element s.kind → Option α × Element s.kind) :
    (p.descend .vivify fresh s f).1 = (f ((p.child? s).getD (fresh s))).1 := by
  obtain ⟨content, hc⟩ := p.exists_slot? hs
  rw [child?_of_slot? hc, descend, hc]
  cases h : s.pick? content <;> simp [h, Descent.creates]

theorem descend_of_child? {α : Type} {child : Element s.kind} (h : p.child? s = some child)
    (d : Descent) {f g : Element s.kind → Option α × Element s.kind} (hfg : f child = g child) :
    p.descend d fresh s f = p.descend .vivify fresh s g := by
  obtain ⟨content, hc, hpick⟩ := Option.bind_eq_some_iff.mp h
  simp only [descend, hc, hpick, hfg]

theorem annotations_reach_cons (hnew : (fresh s).IsNew) {rest : Address}
    (h : ∀ c : Element s.kind, (c.reach rest).2.annotations = .ofFound (c.find? rest)) :
    (((p.child? s).getD (fresh s)).reach rest).2.annotations = .ofFound (p.find? (s :: rest)) := by
  rw [h, find?]
  cases p.child? s with
  | some child => rfl
  | none =>
    cases hx : (fresh s).find? rest with
    | none => simp [hx, AnnotationSet.ofFound]
    | some x =>
      obtain ⟨hannotations, -⟩ := List.append_eq_nil_iff.mp (hnew.attached rest x hx)
      simp [hx, AnnotationSet.ofFound, hannotations]

end Parts

namespace Element

variable {k : Kind} {e : Element k} {address : Address}

theorem grow_congr {f g : (k : Kind) → Element k → Element k}
    (h : f _ (e.reach address).2 = g _ (e.reach address).2) :
    e.grow f address = e.grow g address := by
  induction address generalizing k with
  | nil => exact h
  | cons s rest ih =>
    obtain ⟨header, parts⟩ := e
    exact congrArg (mk header) (Parts.grow_congr (ih h))

theorem find?_grow (hfit : Address.Fits k.layout address)
    (f : (k : Kind) → Element k → Element k) :
    (e.grow f address).find? address = some ⟨_, f _ (e.reach address).2⟩ := by
  induction address generalizing k with
  | nil => rfl
  | cons s rest ih =>
    rw [find?, parts_grow_cons, Parts.child?_grow_self hfit.1, Option.bind_some, ih hfit.2]
    rfl

theorem alter_vivify_fst {α : Type} (hfit : Address.Fits k.layout address)
    (f : (k : Kind) → Element k → α × Element k) :
    (e.alter .vivify f address).1 = some (f _ (e.reach address).2).1 := by
  induction address generalizing k with
  | nil => rfl
  | cons s rest ih =>
    obtain ⟨header, parts⟩ := e
    exact (Parts.descend_vivify_fst hfit.1 _).trans (ih hfit.2)

theorem alter_of_find? {α : Type} {x : SomeElement} (h : e.find? address = some x)
    (d : Descent) (f : (k : Kind) → Element k → α × Element k) :
    e.alter d f address = e.alter .vivify f address := by
  induction address generalizing k with
  | nil => rfl
  | cons s rest ih =>
    obtain ⟨header, parts⟩ := e
    obtain ⟨child, hchild, h⟩ := find?_cons.mp h
    have hchild : parts.child? s = some child := hchild
    simp only [alter, Parts.descend_of_child? hchild d (ih h)]

theorem fst_reach {first last : Step} {child : Element first.kind}
    (h : (first :: address).getLast? = some last) : (child.reach address).1 = last.kind := by
  induction address generalizing first with
  | nil =>
    obtain rfl : first = last := by simpa using h
    rfl
  | cons s rest ih => exact ih (by simpa using h)

theorem annotations_reach :
    (e.reach address).2.annotations = .ofFound (e.find? address) := by
  induction address generalizing k with
  | nil => rfl
  | cons s rest ih => exact Parts.annotations_reach_cons (e.header.isNew_fresh s) fun _ => ih

end Element

namespace Scene

variable {s : Scene} {first : Step} {rest : Address}

theorem grow_congr {f g : (k : Kind) → Element k → Element k}
    (h : f _ (s.reach first rest).2 = g _ (s.reach first rest).2) :
    s.grow f (first :: rest) = s.grow g (first :: rest) :=
  congrArg s.withParts (Parts.grow_congr (Element.grow_congr h))

theorem find?_grow (hfit : Address.Fits Scene.layout (first :: rest))
    (f : (k : Kind) → Element k → Element k) :
    (s.grow f (first :: rest)).find? (first :: rest) = some ⟨_, f _ (s.reach first rest).2⟩ := by
  rw [find?, parts_grow_cons, Parts.child?_grow_self hfit.1, Option.bind_some]
  exact Element.find?_grow hfit.2 f

theorem alter_vivify_fst {α : Type} (hfit : Address.Fits Scene.layout (first :: rest))
    (f : (k : Kind) → Element k → α × Element k) :
    (s.alter .vivify f (first :: rest)).1 = some (f _ (s.reach first rest).2).1 :=
  (Parts.descend_vivify_fst hfit.1 _).trans (Element.alter_vivify_fst hfit.2 f)

theorem alter_of_find? {α : Type} {address : Address} {x : SomeElement}
    (h : s.find? address = some x) (d : Descent) (f : (k : Kind) → Element k → α × Element k) :
    s.alter d f address = s.alter .vivify f address := by
  cases address with
  | nil => rfl
  | cons first rest =>
    obtain ⟨child, hchild, h⟩ := Option.bind_eq_some_iff.mp h
    simp only [alter, Parts.descend_of_child? hchild d (Element.alter_of_find? h d f)]

theorem annotations_reach :
    (s.reach first rest).2.annotations = s.annotationsAt (first :: rest) := by
  rw [annotationsAt, find?_eq_parts]
  exact Parts.annotations_reach_cons (isNew_fresh first) fun _ => Element.annotations_reach

end Scene

-- ---------------------------------------------------------------------------
-- Growing twice
-- ---------------------------------------------------------------------------

theorem Entries.insert_insert {m : ChildMap} (e : Entries m) (key : m.Key)
    (c d : Element m.kind) : (e.insert key c).insert key d = e.insert key d := by
  apply Entries.toList_injective
  rw [Entries.toList_insert_of_found (Entries.get?_insert_self e key c)]
  cases hget : e.get? key with
  | none =>
    rw [Entries.toList_insert_of_new hget, Entries.toList_insert_of_new hget, List.map_append]
    refine congrArg₂ _ ?_ (by simp)
    refine (List.map_congr_left fun x hx => ?_).trans (List.map_id _)
    have hne : x.1 ≠ key := by
      rintro rfl
      exact OrderedMap.get?_eq_none_iff.mp hget (List.mem_map_of_mem hx)
    simp [hne]
  | some old =>
    rw [Entries.toList_insert_of_found hget, Entries.toList_insert_of_found hget, List.map_map]
    refine List.map_congr_left fun x _ => ?_
    by_cases hx : x.1 = key <;> simp [hx]

theorem Step.put_put : (s : Step) → (c d : Element s.kind) → (content : s.slot.Content) →
    s.put d (s.put c content) = s.put d content
  | .fixed _, _, _, _ => rfl
  | .optional _, _, _, _ => rfl
  | .keyed _ key, c, d, entries => Entries.insert_insert entries key c d

theorem Parts.setSlot_setSlot {layout : List Slot} (hl : layout.Nodup) (p : Parts layout)
    (t : Slot) (c d : t.Content) : (p.setSlot t c).setSlot t d = p.setSlot t d := by
  refine ext_slots hl fun u => ?_
  by_cases hu : u = t
  · subst hu
    simp only [slot?_setSlot_self, Option.map_map]
    rfl
  · simp only [slot?_setSlot_of_ne _ hu]

theorem Parts.grow_grow {layout : List Slot} (hl : layout.Nodup)
    {fresh : (s : Step) → Element s.kind} {p : Parts layout} {s : Step}
    (f g : Element s.kind → Element s.kind) :
    (p.grow fresh s f).grow fresh s g = p.grow fresh s fun child => g (f child) := by
  by_cases hs : s.slot ∈ layout
  · obtain ⟨content, hc⟩ := p.exists_slot? hs
    have hput : (p.grow fresh s f).slot? s.slot =
        some (s.put (f ((p.child? s).getD (fresh s))) content) := by
      rw [grow_of_slot? hc, slot?_setSlot_self, hc]
      rfl
    rw [grow_of_slot? hput, child?_grow_self hs, s.put_put, grow_of_slot? hc, grow_of_slot? hc,
      setSlot_setSlot hl]
    rfl
  · rw [grow_of_not_mem hs, grow_of_not_mem hs, grow_of_not_mem hs]

theorem Element.grow_grow (f g : (k : Kind) → Element k → Element k) (address : Address)
    {k : Kind} (e : Element k) :
    (e.grow f address).grow g address = e.grow (fun k e => g k (f k e)) address := by
  induction address generalizing k with
  | nil => rfl
  | cons s rest ih =>
    obtain ⟨header, parts⟩ := e
    simp only [Element.grow, Parts.grow_grow k.layout_nodup, ih]

theorem Scene.withParts_withParts (s : Scene) (p q : Parts Scene.layout) :
    (s.withParts p).withParts q = s.withParts q := by
  match p, q with
  | .keyed _ (.keyed _ .nil), .keyed _ (.keyed _ .nil) => rfl

theorem Scene.grow_grow (f g : (k : Kind) → Element k → Element k) (address : Address)
    (s : Scene) : (s.grow f address).grow g address = s.grow (fun k e => g k (f k e)) address := by
  cases address with
  | nil => rfl
  | cons first rest =>
    simp only [Scene.grow, Scene.parts_withParts, Scene.withParts_withParts,
      Parts.grow_grow Scene.layout_nodup, Element.grow_grow]

-- ---------------------------------------------------------------------------
-- What an edit leaves alone
-- ---------------------------------------------------------------------------

/-- The contracts stay, and so do the places of the entries that each map had. -/
structure Parts.Keeps {layout : List Slot} (p p' : Parts layout) : Prop where
  contracts : p'.contractSet = p.contractSet
  keys : ∀ m (entries : Entries m), p.slot? (.keyed m) = some entries →
    ∃ entries', p'.slot? (.keyed m) = some entries' ∧ entries.keys <+: entries'.keys

/-- All data of the element itself stay, but perhaps not its annotations. -/
structure Element.Keeps {k : Kind} (e e' : Element k) : Prop where
  description : e'.description = e.description
  detail : e'.detail = e.detail
  parts : e.parts.Keeps e'.parts

theorem Entries.keys_prefix_insert {m : ChildMap} (e : Entries m) (key : m.Key)
    (child : Element m.kind) : e.keys <+: (e.insert key child).keys := by
  by_cases h : key ∈ e.keys
  · exact (Entries.keys_insert_of_mem h).symm ▸ List.prefix_rfl
  · rw [Entries.keys_insert_of_not_mem h]
    exact List.prefix_append _ _

theorem Parts.Keeps.refl {layout : List Slot} (p : Parts layout) : p.Keeps p :=
  ⟨rfl, fun _ entries h => ⟨entries, h, List.prefix_rfl⟩⟩

theorem Element.Keeps.refl {k : Kind} (e : Element k) : e.Keeps e := ⟨rfl, rfl, .refl _⟩

theorem Element.keeps_mapAnnotations {k : Kind} (g : AnnotationSet → AnnotationSet)
    (e : Element k) : e.Keeps (e.mapAnnotations g) :=
  ⟨rfl, rfl, .refl _⟩

theorem Parts.keeps_grow {layout : List Slot} {fresh : (s : Step) → Element s.kind}
    (p : Parts layout) (s : Step) (f : Element s.kind → Element s.kind) :
    p.Keeps (p.grow fresh s f) := by
  refine ⟨contractSet_grow s f, fun m entries h => ?_⟩
  by_cases hs : s.slot ∈ layout
  · obtain ⟨content, hc⟩ := p.exists_slot? hs
    rw [grow_of_slot? hc]
    by_cases hm : .keyed m = s.slot
    · cases s with
      | fixed _ | optional _ => cases hm
      | keyed m key =>
        cases hm
        obtain rfl := Option.some.inj (hc.symm.trans h)
        have hput : ∀ grown : Entries m, (p.setSlot (.keyed m) grown).slot? (.keyed m) =
            some grown := by
          intro grown
          rw [slot?_setSlot_self, h]
          rfl
        exact ⟨_, hput _, Entries.keys_prefix_insert content key _⟩
    · exact ⟨entries, by rw [slot?_setSlot_of_ne p hm, h], List.prefix_rfl⟩
  · rw [grow_of_not_mem hs]
    exact ⟨entries, h, List.prefix_rfl⟩

abbrev Reading := Address → Option SomeElement

/-- What following the address creates: the steps of it that lead nowhere in the old reading, and
what comes with a new element of their kind. -/
def Address.Creates (address : Address) (old : Reading) (q : Address) : Prop :=
  ∃ front step rest tail, address = front ++ step :: rest ∧ old (front ++ [step]) = none ∧
    tail ∈ [] :: step.kind.builtIn ∧ q = front ++ step :: tail

/-- The new reading has what the old one had and what following the address creates. Other
annotations are at the address only. -/
structure Address.Extends (address : Address) (old new : Reading) : Prop where
  kept : ∀ q x, old q = some x → ∃ y : Element x.1, new q = some ⟨x.1, y⟩ ∧ x.2.Keeps y ∧
    (q ≠ address → y.annotations = x.2.annotations)
  isSome_iff : ∀ q, (new q).isSome ↔ (old q).isSome ∨ address.Creates old q
  created : ∀ q y, old q = none → new q = some y →
    y.2.contracts = [] ∧ (q ≠ address → y.2.annotations = [])

namespace Parts

variable {layout : List Slot} {fresh : (s : Step) → Element s.kind} {p : Parts layout}
  {s t : Step} {rest q : Address}

theorem find?_grow_self (hs : s.slot ∈ layout) (f : Element s.kind → Element s.kind) :
    (p.grow fresh s f).find? (s :: q) = (f ((p.child? s).getD (fresh s))).find? q := by
  rw [find?, child?_grow_self hs, Option.bind_some]

theorem find?_grow_of_ne (h : t ≠ s) (f : Element s.kind → Element s.kind) :
    (p.grow fresh s f).find? (t :: q) = p.find? (t :: q) := by
  rw [find?, child?_grow_of_ne h, find?]

theorem creates_cons_of_ne (h : t ≠ s) : ¬ Address.Creates (s :: rest) p.find? (t :: q) := by
  rintro ⟨_ | ⟨u, front⟩, step, rest', tail, ha, -, -, hq⟩ <;> cases ha <;> cases hq <;>
    exact h rfl

/-- Nothing is created at a step that leads to a child, only below it. -/
theorem creates_cons_of_some {child : Element s.kind} (h : p.child? s = some child) :
    Address.Creates (s :: rest) p.find? (s :: q) ↔ rest.Creates (fun q => child.find? q) q := by
  have hfind : ∀ q, p.find? (s :: q) = child.find? q := by
    intro q
    rw [find?, h, Option.bind_some]
  constructor
  · rintro ⟨_ | ⟨u, front⟩, step, rest', tail, ha, hnone, ht, hq⟩
    · cases ha
      rw [List.nil_append, hfind] at hnone
      cases hnone
    · cases ha
      rw [List.cons_append, hfind] at hnone
      exact ⟨front, step, rest', tail, rfl, hnone, ht, (List.cons.inj hq).2⟩
  · rintro ⟨front, step, rest', tail, rfl, hnone, ht, rfl⟩
    exact ⟨s :: front, step, rest', tail, rfl, (hfind _).trans hnone, ht, rfl⟩

/-- At a step that leads nowhere, all of the new child is created, and what is below it. -/
theorem creates_cons_of_none (h : p.child? s = none) {child : Element s.kind}
    (hnew : child.IsNew) : Address.Creates (s :: rest) p.find? (s :: q) ↔
      (child.find? q).isSome ∨ rest.Creates (fun q => child.find? q) q := by
  have hfind : ∀ q, p.find? (s :: q) = none := by
    intro q
    rw [find?, h, Option.bind_none]
  constructor
  · rintro ⟨_ | ⟨u, front⟩, step, rest', tail, ha, -, ht, hq⟩
    · cases ha
      cases hq
      exact .inl ((hnew.isSome_find? _).mpr ht)
    · cases ha
      obtain ⟨-, rfl⟩ := List.cons.inj hq
      cases hstep : child.find? (front ++ [step]) with
      | none => exact .inr ⟨front, step, rest', tail, rfl, hstep, ht, rfl⟩
      | some x =>
        have hmem := (hnew.isSome_find? _).mp (Option.isSome_of_eq_some hstep)
        have hbuilt : front ++ [step] ∈ s.kind.builtIn := by simpa using hmem
        refine .inl ((hnew.isSome_find? _).mpr (List.mem_cons_of_mem _ ?_))
        exact Kind.mem_builtIn_trans hbuilt ht
  · rintro (hq | ⟨front, step, rest', tail, rfl, -, ht, rfl⟩)
    · exact ⟨[], s, rest, q, rfl, hfind [], (hnew.isSome_find? q).mp hq, rfl⟩
    · exact ⟨s :: front, step, rest', tail, rfl, hfind _, ht, rfl⟩

section

variable (hs : s.slot ∈ layout) {f : Element s.kind → Element s.kind}
  (hf : ∀ c, rest.Extends (fun q => c.find? q) fun q => (f c).find? q)
include hs hf

theorem kept_grow {x : SomeElement} (hx : p.find? q = some x) :
    ∃ y : Element x.1, (p.grow fresh s f).find? q = some ⟨x.1, y⟩ ∧ x.2.Keeps y ∧
      (q ≠ s :: rest → y.annotations = x.2.annotations) := by
  cases q with
  | nil => cases hx
  | cons t q =>
    by_cases hts : t = s
    · subst hts
      obtain ⟨child, hchild, hx⟩ := find?_cons.mp hx
      obtain ⟨y, hy, hkeeps, hsame⟩ := (hf child).kept q x hx
      rw [find?_grow_self hs, hchild]
      exact ⟨y, hy, hkeeps, fun hq => hsame fun he => hq (he ▸ rfl)⟩
    · rw [find?_grow_of_ne hts]
      exact ⟨x.2, hx, .refl _, fun _ => rfl⟩

variable (hnew : (fresh s).IsNew)
include hnew

theorem isSome_find?_grow : ((p.grow fresh s f).find? q).isSome ↔
    (p.find? q).isSome ∨ Address.Creates (s :: rest) p.find? q := by
  cases q with
  | nil => simp [find?, Address.Creates]
  | cons t q =>
    by_cases hts : t = s
    · subst hts
      rw [find?_grow_self hs, (hf _).isSome_iff]
      cases hc : p.child? t with
      | some child =>
        rw [creates_cons_of_some hc, find?, hc]
        rfl
      | none =>
        rw [creates_cons_of_none hc hnew, find?, hc]
        simp
    · rw [find?_grow_of_ne hts]
      simp [creates_cons_of_ne hts]

theorem created_grow {y : SomeElement} (hold : p.find? q = none)
    (hy : (p.grow fresh s f).find? q = some y) :
    y.2.contracts = [] ∧ (q ≠ s :: rest → y.2.annotations = []) := by
  cases q with
  | nil => cases hy
  | cons t q =>
    by_cases hts : t = s
    · subst hts
      rw [find?_grow_self hs] at hy
      have hbelow : ∀ c : Element t.kind, c.find? q = none → (f c).find? q = some y →
          y.2.contracts = [] ∧ (t :: q ≠ t :: rest → y.2.annotations = []) := by
        intro c hc hfc
        obtain ⟨hcontracts, hsame⟩ := (hf c).created q y hc hfc
        exact ⟨hcontracts, fun hq => hsame fun he => hq (he ▸ rfl)⟩
      cases hc : p.child? t with
      | some child =>
        rw [hc] at hy
        rw [find?, hc] at hold
        exact hbelow child hold hy
      | none =>
        rw [hc] at hy
        cases hx : (fresh t).find? q with
        | none => exact hbelow (fresh t) hx hy
        | some x =>
          -- it came with the new child, and had nothing
          obtain ⟨hannotations, hcontracts⟩ := List.append_eq_nil_iff.mp (hnew.attached q x hx)
          obtain ⟨y', hy', hkeeps, hsame⟩ := (hf (fresh t)).kept q x hx
          obtain rfl := Option.some.inj (hy.symm.trans hy')
          refine ⟨hkeeps.parts.contracts.trans hcontracts, fun hq => ?_⟩
          exact (hsame fun he => hq (he ▸ rfl)).trans hannotations
    · rw [find?_grow_of_ne hts, hold] at hy
      cases hy

/-- One step of an edit: if what is done to the child extends it, the parts are extended. -/
theorem extends_grow : Address.Extends (s :: rest) p.find? (p.grow fresh s f).find? :=
  ⟨fun _ _ hx => kept_grow hs hf hx, fun _ => isSome_find?_grow hs hf hnew,
    fun _ _ hold hy => created_grow hs hf hnew hold hy⟩

end

end Parts

namespace Element

variable {k : Kind}

theorem extends_mapAnnotations (g : AnnotationSet → AnnotationSet) (e : Element k) :
    Address.Extends [] (fun q => e.find? q) fun q => (e.mapAnnotations g).find? q := by
  refine ⟨?_, ?_, ?_⟩
  · rintro (_ | ⟨t, q⟩) x hx
    · obtain rfl := Option.some.inj hx
      exact ⟨e.mapAnnotations g, rfl, e.keeps_mapAnnotations g, fun h => absurd rfl h⟩
    · exact ⟨x.2, hx, .refl _, fun _ => rfl⟩
  · rintro (_ | ⟨t, q⟩)
    · simp [find?]
    · have hnone : ¬ Address.Creates [] (fun q => e.find? q) (t :: q) := by
        rintro ⟨front, step, rest, tail, ha, -⟩
        simp at ha
      simp only [hnone, or_false]
      rfl
  · rintro (_ | ⟨t, q⟩) y hold hy
    · cases hold
    · cases hold.symm.trans hy

/-- An element is extended when its parts are and its header stays. -/
theorem extends_of_parts {e e' : Element k} {s : Step} {rest : Address}
    (hheader : e'.header = e.header) (hkeeps : e.parts.Keeps e'.parts)
    (h : Address.Extends (s :: rest) e.parts.find? e'.parts.find?) :
    Address.Extends (s :: rest) (fun q => e.find? q) fun q => e'.find? q := by
  have hcreates : ∀ q, Address.Creates (s :: rest) (fun q => e.find? q) q ↔
      Address.Creates (s :: rest) e.parts.find? q := by
    intro q
    have hne : ∀ front (step : Step), e.find? (front ++ [step]) = e.parts.find? (front ++ [step]) :=
      fun front step => find?_of_ne_nil (by simp)
    simp only [Address.Creates, hne]
  refine ⟨?_, ?_, ?_⟩
  · rintro (_ | ⟨t, q⟩) x hx
    · obtain rfl := Option.some.inj hx
      exact ⟨e', rfl, ⟨congrArg Header.description hheader, congrArg Header.detail hheader, hkeeps⟩,
        fun _ => congrArg Header.annotations hheader⟩
    · exact h.kept (t :: q) x hx
  · rintro (_ | ⟨t, q⟩)
    · simp [find?]
    · rw [hcreates]
      exact h.isSome_iff (t :: q)
  · rintro (_ | ⟨t, q⟩) y hold hy
    · cases hold
    · exact h.created (t :: q) y hold hy

/-- A whole edit, step by step along the address. -/
theorem extends_editAt (g : AnnotationSet → AnnotationSet) {address : Address} {e : Element k}
    (hfit : Address.Fits k.layout address) :
    address.Extends (fun q => e.find? q) fun q => (e.editAt g address).find? q := by
  induction address generalizing k with
  | nil => exact e.extends_mapAnnotations g
  | cons s rest ih =>
    refine extends_of_parts (header_grow_cons _ s rest e) ?_ ?_
    · rw [editAt, parts_grow_cons]
      exact e.parts.keeps_grow s _
    · rw [editAt, parts_grow_cons]
      exact Parts.extends_grow hfit.1 (fun c => ih hfit.2) (e.header.isNew_fresh s)

end Element

namespace Scene

variable {s : Scene} {address : Address}

theorem keeps_editAt (g : AnnotationSet → AnnotationSet) (address : Address) (s : Scene) :
    s.parts.Keeps (s.editAt g address).parts := by
  cases address with
  | nil => exact .refl _
  | cons first rest =>
    rw [editAt, parts_grow_cons]
    exact s.parts.keeps_grow first _

theorem extends_editAt (g : AnnotationSet → AnnotationSet)
    (hfit : Address.Fits Scene.layout address) (hne : address ≠ []) :
    address.Extends s.find? (s.editAt g address).find? := by
  rw [show s.find? = s.parts.find? from funext s.find?_eq_parts,
    show (s.editAt g address).find? = (s.editAt g address).parts.find? from
      funext (s.editAt g address).find?_eq_parts]
  cases address with
  | nil => exact absurd rfl hne
  | cons first rest =>
    rw [editAt, parts_grow_cons]
    exact Parts.extends_grow hfit.1 (fun c => Element.extends_editAt g hfit.2) (isNew_fresh first)

end Scene

end AnnotationScene
