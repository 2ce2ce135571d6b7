import AnnotationScene.Proofs.Differences
import AnnotationScene.Proofs.Reaching

/-!
# An annotation changes one place

A place is an element by its address, seen under some of its facets; facets share the annotations
of the element. So to annotate at a place is to edit one set, at the address, whatever the facets.
Every other set stays, and to take the annotation out again leaves what navigating alone would have
left.
-/

namespace AnnotationScene

-- ---------------------------------------------------------------------------
-- Facets
-- ---------------------------------------------------------------------------

def Facet.owners : Facet → List Kind
  | .declaration => [.field, .method, .classType]
  | .expression => [.block]
  | .plain => [.declaration, .expression, .type]
  | .type => [.cast]

/-- Each facet is one of the facet before it, and the first one of an element of the kind. -/
def Facet.Fit : Kind → List Facet → Prop
  | _, [] => True
  | k, f :: rest => k ∈ f.owners ∧ Facet.Fit f.kind rest

namespace Element

variable {k : Kind} {α : Type}

def editSet (g : AnnotationSet → α × AnnotationSet) (e : Element k) : α × Element k :=
  ((g e.annotations).1, e.mapAnnotations fun set => (g set).2)

theorem annotate_eq_editSet (e : Element k) (a : Annotation) :
    e.annotate a = e.editSet fun set => set.insert a := rfl

theorem unannotate_eq_editSet (e : Element k) (a : Annotation) :
    e.unannotate a = e.editSet fun set => set.erase a := rfl

theorem mapAnnotations_eq_self {e : Element k} {g : AnnotationSet → AnnotationSet}
    (h : g e.annotations = e.annotations) : e.mapAnnotations g = e := by
  obtain ⟨header, parts⟩ := e
  exact congrArg (mk · parts) (congrArg (Header.mk _ · _) h)

theorem facet?_of_owner {f : Facet} (h : k ∈ f.owners) (e : Element k) :
    ∃ facet, e.facet? f = some facet ∧ facet.annotations = e.annotations ∧
      ∀ g, e.withFacet f (facet.mapAnnotations g) = e.mapAnnotations g := by
  obtain ⟨header, p⟩ := e
  cases f <;> simp only [Facet.owners, List.mem_cons, List.not_mem_nil, or_false] at h
  case declaration =>
    have hp (rest : List Slot) (p : Parts (Kind.declarationLayout ++ rest)) :=
      p.append_split Kind.declarationLayout
    rcases h with rfl | rfl | rfl <;>
      exact ⟨_, rfl, rfl, fun g => congrArg (mk _) (hp _ p)⟩
  case expression =>
    obtain rfl := h
    exact ⟨_, rfl, rfl, fun g => congrArg (mk _) (p.append_split Kind.expressionLayout)⟩
  case plain =>
    rcases h with rfl | rfl | rfl
    · exact ⟨_, rfl, rfl, fun g => congrArg (mk _) (p.append_split Kind.plainLayout)⟩
    · exact ⟨_, rfl, rfl, fun g => congrArg (mk _) (p.append_split Kind.plainLayout)⟩
    · exact ⟨_, rfl, rfl, fun g => rfl⟩
  case type =>
    obtain rfl := h
    exact ⟨_, rfl, rfl, fun g => rfl⟩

theorem facet?_of_not_owner {f : Facet} (h : k ∉ f.owners) (e : Element k) :
    e.facet? f = none := by
  obtain ⟨header, p⟩ := e
  cases f <;> cases k <;> simp_all [Facet.owners, facet?]

theorem alterFacets_editSet {facets : List Facet} (hfit : Facet.Fit k facets)
    (g : AnnotationSet → α × AnnotationSet) (e : Element k) :
    e.alterFacets (fun _ e => e.editSet g) facets =
      (some (g e.annotations).1, e.mapAnnotations fun set => (g set).2) := by
  induction facets generalizing k with
  | nil => rfl
  | cons f rest ih =>
    obtain ⟨facet, hfacet, hshared, hput⟩ := e.facet?_of_owner hfit.1
    rw [alterFacets, hfacet]
    simp only [ih hfit.2, hshared, hput]

theorem exists_facets? {facets : List Facet} (hfit : Facet.Fit k facets) (e : Element k) :
    ∃ x, e.facets? facets = some x := by
  induction facets generalizing k with
  | nil => exact ⟨_, rfl⟩
  | cons f rest ih =>
    obtain ⟨facet, hfacet, -⟩ := e.facet?_of_owner hfit.1
    rw [facets?, hfacet]
    exact ih hfit.2 facet

theorem annotations_of_facets? {facets : List Facet} {e : Element k} {x : SomeElement}
    (h : e.facets? facets = some x) : x.2.annotations = e.annotations := by
  induction facets generalizing k with
  | nil =>
    obtain rfl := Option.some.inj h
    rfl
  | cons f rest ih =>
    by_cases hf : k ∈ f.owners
    · obtain ⟨facet, hfacet, hshared, -⟩ := e.facet?_of_owner hf
      rw [facets?, hfacet] at h
      exact (ih h).trans hshared
    · rw [facets?, facet?_of_not_owner hf] at h
      cases h

end Element

-- ---------------------------------------------------------------------------
-- Places
-- ---------------------------------------------------------------------------

/-- The steps of the place lead somewhere, and the element there has its facets. -/
structure Place.Fits (p : Place) : Prop where
  steps : Address.Fits Scene.layout p.address
  facets : ∃ last, p.address.getLast? = some last ∧ Facet.Fit last.kind p.facets

/-- Where a path into a type leads from the address of its element: the empty path stays there. -/
def Address.atPath (q : Address) (path : TypePath) : Address :=
  if path.isEmpty then q else q ++ [.keyed .innerTypes path]

theorem Place.Fits.exists_cons {p : Place} (h : p.Fits) :
    ∃ first rest, p.address = first :: rest := by
  obtain ⟨last, hlast, -⟩ := h.facets
  exact List.exists_cons_of_ne_nil fun hnil => by simp [hnil] at hlast

namespace Scene

variable {s : Scene} {p : Place} {a : Annotation} {α : Type}

theorem facetsFit_reach (hp : p.Fits) {first : Step} {rest : Address}
    (haddress : p.address = first :: rest) : Facet.Fit (s.reach first rest).1 p.facets := by
  obtain ⟨last, hlast, hfacets⟩ := hp.facets
  rw [haddress] at hlast
  rw [reach, Element.fst_reach hlast]
  exact hfacets

/-- An edit of the set at a place answers for the set that was there, and is the edit at the
address. -/
theorem change_editSet (hp : p.Fits) (g : AnnotationSet → α × AnnotationSet) :
    s.change .vivify (fun _ e => e.editSet g) p =
      (some (g (s.annotationsAt p.address)).1, s.editAt (fun set => (g set).2) p.address) := by
  obtain ⟨first, rest, haddress⟩ := hp.exists_cons
  have hsteps := hp.steps
  have hedit := Element.alterFacets_editSet (facetsFit_reach hp haddress) g (s.reach first rest).2
  rw [haddress] at hsteps ⊢
  refine Prod.ext ?_ ?_
  · rw [change, haddress]
    simp only [alter_vivify_fst hsteps, hedit, annotations_reach, Option.join_some]
  · rw [change, haddress]
    simp only [alter_vivify]
    exact grow_congr (congrArg Prod.snd hedit)

theorem annotationsAt_editAt_self (hp : p.Fits) (g : AnnotationSet → AnnotationSet) :
    (s.editAt g p.address).annotationsAt p.address = g (s.annotationsAt p.address) := by
  obtain ⟨first, rest, haddress⟩ := hp.exists_cons
  have hsteps := hp.steps
  rw [haddress] at hsteps ⊢
  rw [annotationsAt, editAt, find?_grow hsteps, ← annotations_reach]
  rfl

theorem extends_editAt_place (hp : p.Fits) (g : AnnotationSet → AnnotationSet) :
    p.address.Extends s.find? (s.editAt g p.address).find? := by
  obtain ⟨first, rest, haddress⟩ := hp.exists_cons
  exact extends_editAt g hp.steps (by simp [haddress])

theorem annotationsAt_editAt_of_ne (hp : p.Fits) (g : AnnotationSet → AnnotationSet)
    {q : Address} (hq : q ≠ p.address) :
    (s.editAt g p.address).annotationsAt q = s.annotationsAt q := by
  have hext := extends_editAt_place (s := s) hp g
  rw [annotationsAt, annotationsAt]
  cases hx : s.find? q with
  | some x =>
    obtain ⟨y, hy, -, hsame⟩ := hext.kept q x hx
    rw [hy]
    exact hsame hq
  | none =>
    cases hy : (s.editAt g p.address).find? q with
    | none => rfl
    | some y => exact (hext.created q y hx hy).2 hq

theorem editAt_editAt (g h : AnnotationSet → AnnotationSet) (address : Address) :
    (s.editAt g address).editAt h address = s.editAt (fun set => h (g set)) address :=
  s.grow_grow _ _ address

/-- An edit that gives back the set it finds only navigates. -/
theorem editAt_eq_navigate (hp : p.Fits) {g : AnnotationSet → AnnotationSet}
    (h : g (s.annotationsAt p.address) = s.annotationsAt p.address) :
    s.editAt g p.address = s.navigate p.address := by
  obtain ⟨first, rest, haddress⟩ := hp.exists_cons
  rw [haddress] at h ⊢
  rw [← annotations_reach] at h
  rw [navigate, alter_vivify]
  exact grow_congr (Element.mapAnnotations_eq_self h)

theorem annotationsAt_navigate (hp : p.Fits) (q : Address) :
    (s.navigate p.address).annotationsAt q = s.annotationsAt q := by
  rw [← editAt_eq_navigate (g := fun set => set) hp rfl]
  by_cases hq : q = p.address
  · subst hq
    exact annotationsAt_editAt_self hp _
  · exact annotationsAt_editAt_of_ne hp _ hq

theorem exists_at?_editAt (hp : p.Fits) (g : AnnotationSet → AnnotationSet) :
    ∃ x, (s.editAt g p.address).at? p = some x := by
  obtain ⟨first, rest, haddress⟩ := hp.exists_cons
  have hsteps := hp.steps
  rw [haddress] at hsteps
  rw [at?, haddress, editAt, find?_grow hsteps]
  exact Element.exists_facets? (facetsFit_reach hp haddress) _

theorem annotations_of_at? {q : Place} {x : SomeElement} (h : s.at? q = some x) :
    x.2.annotations = s.annotationsAt q.address := by
  obtain ⟨e, he, hx⟩ := Option.bind_eq_some_iff.mp h
  rw [annotationsAt, he]
  exact Element.annotations_of_facets? hx

theorem annotations_of_atPath? {q : Address} {x y : Element .type} {path : TypePath}
    (hx : s.find? q = some ⟨.type, x⟩) (hy : x.atPath? path = some y) :
    y.annotations = s.annotationsAt (q.atPath path) := by
  rw [annotationsAt]
  cases path with
  | nil =>
    obtain rfl : x = y := Option.some.inj hy
    rw [show q.atPath [] = q from rfl, hx]
    rfl
  | cons step path =>
    have hchild : x.parts.child? (.keyed .innerTypes (step :: path)) = some y := hy
    rw [show q.atPath (step :: path) = q ++ [.keyed .innerTypes (step :: path)] from rfl,
      find?_concat hx hchild]
    rfl

end Scene

-- ---------------------------------------------------------------------------
-- In and out again
-- ---------------------------------------------------------------------------

namespace AnnotationSet

variable {set : AnnotationSet} {a : Annotation}

theorem insert_cases (set : AnnotationSet) (a : Annotation) :
    (set.insert a = (true, set ++ [a]) ∧ ∀ b ∈ set, a.same b = false) ∨
      (set.insert a = (false, set) ∧ ∃ b ∈ set, a.same b = true) := by
  rw [← contains_iff]
  cases h : set.contains a with
  | true => exact .inr ⟨by simp [insert, h], rfl⟩
  | false =>
    refine .inl ⟨by simp [insert, h], fun b hb => ?_⟩
    cases hab : a.same b with
    | false => rfl
    | true => simp [contains_iff.mpr ⟨b, hb, hab⟩] at h

theorem erase_append (h : ∀ b ∈ set, a.same b = false) :
    erase (set ++ [a]) a = (true, set) := by
  have hlast : contains (set ++ [a]) a = true :=
    contains_iff.mpr ⟨a, by simp, a.same_refl⟩
  have hearlier : ∀ b ∈ set, ¬ (b.digest == a.digest && a.isSame b) = true := by
    intro b hb
    simp [h b hb]
  rw [erase, hlast, List.eraseP_append_right _ hearlier]
  simp [a.same_refl]

end AnnotationSet

namespace Scene

variable {s : Scene} {p : Place} {a : Annotation}

theorem change_of_find? {α : Type} {x : SomeElement} (h : s.find? p.address = some x)
    (d : Descent) (f : (k : Kind) → Element k → α × Element k) :
    s.change d f p = s.change .vivify f p := by
  rw [change, change, alter_of_find? h d]

theorem unannotate_editAt (hp : p.Fits) (d : Descent)
    (hnew : ∀ b ∈ s.annotationsAt p.address, a.same b = false) :
    (s.editAt (fun set => (set.insert a).2) p.address).change d (fun _ e => e.unannotate a) p =
      (some true, s.navigate p.address) := by
  have hinsert : ((s.annotationsAt p.address).insert a).2 = s.annotationsAt p.address ++ [a] := by
    rcases AnnotationSet.insert_cases (s.annotationsAt p.address) a with ⟨h, -⟩ | ⟨-, b, hb, hab⟩
    · rw [h]
    · simp [hnew b hb] at hab
  obtain ⟨x, hx⟩ := exists_at?_editAt (s := s) hp fun set => (set.insert a).2
  obtain ⟨e, he, -⟩ := Option.bind_eq_some_iff.mp hx
  simp only [change_of_find? he, Element.unannotate_eq_editSet]
  rw [change_editSet hp, annotationsAt_editAt_self hp, hinsert, AnnotationSet.erase_append hnew,
    editAt_editAt, editAt_eq_navigate hp]
  rw [hinsert, AnnotationSet.erase_append hnew]

/-- To annotate at a place changes the set there, and no other. The set gets the annotation at its
end, unless it has the same one already, and every facet of an element shows its set, as the empty
path into a type does. What could be found before keeps its data, each map lists the keys it had
first and in their order, and what can be found now and could not before is what was created on the
way, with empty sets. To take a new annotation out again leaves what navigating to the place would
have left, with every set as it was. -/
theorem annotate_changes_one_place (s : Scene) (a : Annotation) {p : Place} (hp : p.Fits) :
    let old := s.annotationsAt p.address
    let r := s.change .vivify (fun _ e => e.annotate a) p
    ((r.1 = some true ∧ r.2.annotationsAt p.address = old ++ [a] ∧ ∀ b ∈ old, a.same b = false) ∨
      (r.1 = some false ∧ r.2.annotationsAt p.address = old ∧ ∃ b ∈ old, a.same b = true)) ∧
    (∃ x, r.2.at? p = some x) ∧
    (∀ q x, r.2.at? q = some x → x.2.annotations = r.2.annotationsAt q.address) ∧
    (∀ q x path y, r.2.find? q = some ⟨.type, x⟩ → x.atPath? path = some y →
      y.annotations = r.2.annotationsAt (q.atPath path)) ∧
    (∀ q, q ≠ p.address → r.2.annotationsAt q = s.annotationsAt q) ∧
    (∀ q x, s.find? q = some x →
      ∃ y : Element x.1, r.2.find? q = some ⟨x.1, y⟩ ∧ x.2.Keeps y) ∧
    s.parts.Keeps r.2.parts ∧ r.2.imports = s.imports ∧
    (∀ q, (r.2.find? q).isSome ↔ (s.find? q).isSome ∨ p.address.Creates s.find? q) ∧
    (∀ q x, s.find? q = none → r.2.find? q = some x →
      x.2.contracts = [] ∧ (q ≠ p.address → x.2.annotations = [])) ∧
    ((∀ b ∈ old, a.same b = false) →
      ∀ d, r.2.change d (fun _ e => e.unannotate a) p = (some true, s.navigate p.address)) ∧
    ∀ q, (s.navigate p.address).annotationsAt q = s.annotationsAt q := by
  intro old r
  have hr : r = (some (old.insert a).1, s.editAt (fun set => (set.insert a).2) p.address) := by
    simp only [r, Element.annotate_eq_editSet]
    exact change_editSet hp _
  have hext := extends_editAt_place (s := s) hp fun set => (set.insert a).2
  rw [hr]
  refine ⟨?_, exists_at?_editAt hp _, fun q x => annotations_of_at?,
    fun q x path y => annotations_of_atPath?, fun q => annotationsAt_editAt_of_ne hp _, ?_,
    keeps_editAt _ _ s, imports_grow _ _ s, hext.isSome_iff, hext.created,
    fun hnew d => unannotate_editAt hp d hnew, annotationsAt_navigate hp⟩
  · rw [annotationsAt_editAt_self hp]
    rcases AnnotationSet.insert_cases old a with ⟨h, hall⟩ | ⟨h, hsome⟩
    · exact .inl ⟨by rw [h], by rw [h], hall⟩
    · exact .inr ⟨by rw [h], by rw [h], hsome⟩
  · intro q x hx
    obtain ⟨y, hy, hkeeps, -⟩ := hext.kept q x hx
    exact ⟨y, hy, hkeeps⟩

/-- The body of a method that the class does not have yet, annotated as an expression. -/
theorem annotate_changes_one_place_body :
    let mark (name : String) : Annotation := .marker (.ofName name "p")
    let owner := (Element.classType "C").withAnnotations [mark "B"]
    let fields : Entries .fields := .cons "f" ((Element.field "f").withAnnotations [mark "F"]) .nil
    let members := owner.parts.setSlot (.keyed .fields) fields
    let s : Scene := { classes := .cons "C" (owner.withParts members) .nil }
    let toClass : Address := [.keyed .classes "C"]
    let toMethod : Address := toClass ++ [.keyed .methods "m()V"]
    let p : Place := ⟨toMethod ++ [.fixed .body], [.expression]⟩
    let r := s.change .vivify (fun _ e => e.annotate (mark "A")) p
    p.Fits ∧ r.1 = some true ∧ r.2.annotationsAt p.address = [mark "A"] ∧
      r.2.annotationsAt toClass = [mark "B"] ∧
      r.2.annotationsAt (toClass ++ [.keyed .fields "f"]) = [mark "F"] ∧
      (r.2.find? (toMethod ++ [.fixed .receiver, .optional .type])).isSome ∧
      r.2.change .edit (fun _ e => e.unannotate (mark "A")) p =
        (some true, s.navigate p.address) := by
  intro mark owner fields members s toClass toMethod p r
  have hp : p.Fits := by
    refine ⟨⟨by decide, by decide, by decide, trivial⟩, .fixed .body, rfl, ?_⟩
    exact ⟨by decide, trivial⟩
  have hnone : s.annotationsAt p.address = [] := rfl
  obtain ⟨hset, -, -, -, hothers, -, -, -, hfound, -, hagain, -⟩ :=
    annotate_changes_one_place s (mark "A") hp
  obtain ⟨hanswer, hadded⟩ : r.1 = some true ∧ r.2.annotationsAt p.address = [mark "A"] := by
    rcases hset with ⟨h, hadd, -⟩ | ⟨-, -, b, hb, -⟩
    · exact ⟨h, hadd.trans (by rw [hnone]; rfl)⟩
    · rw [hnone] at hb
      cases hb
  have hcreated : p.address.Creates s.find? (toMethod ++ [.fixed .receiver, .optional .type]) :=
    ⟨toClass, .keyed .methods "m()V", [.fixed .body], [.fixed .receiver, .optional .type], rfl,
      rfl, by simp [Kind.builtIn, Step.kind, ChildMap.kind], rfl⟩
  refine ⟨hp, hanswer, hadded, ?_, ?_, (hfound _).mpr (.inr hcreated), ?_⟩
  · exact hothers toClass (by simp [p, toClass, toMethod])
  · exact hothers _ (by simp [p, toClass, toMethod])
  · exact hagain (by simp [hnone]) .edit

end Scene

end AnnotationScene
