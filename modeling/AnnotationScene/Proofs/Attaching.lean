import AnnotationScene.Element.Edit
import AnnotationScene.Proofs.Growing
import AnnotationScene.Proofs.Inserting
import AnnotationScene.Scene.Place

/-!
# The order of attachments

To attach an annotation is to grow to an element and to insert into one of its sets. Sets and maps
are compared in any order, and what one attachment creates on its way is what another would have
created. So two attachments may change places, and a list of them builds the same scene in any
order.
-/

namespace AnnotationScene

/-- An annotation for the element at a place, or one for the contracts of a method. -/
inductive Attachment
  | annotate (place : Place) (a : Annotation.Valid)
  | contract (address : Address) (a : Annotation.Valid)

def Attachment.content : Attachment → Annotation.Valid
  | .annotate _ a => a
  | .contract _ a => a

def Scene.attach (s : Scene) : Attachment → Scene
  | .annotate place a => (s.change .vivify (fun _ e => e.annotate a.1) place).2
  | .contract address a => (s.alter .vivify (fun _ e => e.contract a.1) address).2

-- ---------------------------------------------------------------------------
-- Elements by their sets and children
-- ---------------------------------------------------------------------------

theorem Element.WellFormed.annotations {k : Kind} {e : Element k} (hw : e.WellFormed) :
    AnnotationSet.WellFormed e.header.annotations :=
  (Element.wellFormed_iff.mp hw).1

theorem Parts.WellFormed.contractSet {layout : List Slot} (hl : layout.Nodup) {p : Parts layout}
    (hw : p.WellFormed) : AnnotationSet.WellFormed p.contractSet := by
  by_cases hs : .contracts ∈ layout
  · obtain ⟨set, hset⟩ := p.exists_slot? hs
    rw [contractSet_of_slot? hset]
    exact hw.slot? hl hset
  · rw [contractSet_eq_nil hs]
    trivial

theorem Element.same_iff {k : Kind} {e f : Element k} : e.same f = true ↔
    Detail.same k e.header.detail f.header.detail = true ∧
      AnnotationSet.same e.header.annotations f.header.annotations = true ∧
      e.parts.same f.parts = true := by
  obtain ⟨header, parts⟩ := e
  obtain ⟨header', parts'⟩ := f
  rw [Element.same, Header.same, Bool.and_eq_true, Bool.and_eq_true, and_assoc]
  rfl

theorem Element.same_iff_children {k : Kind} {e f : Element k} (he : e.WellFormed)
    (hf : f.WellFormed) : e.same f = true ↔
      Detail.same k e.header.detail f.header.detail = true ∧
      AnnotationSet.same e.header.annotations f.header.annotations = true ∧
      AnnotationSet.same e.parts.contractSet f.parts.contractSet = true ∧
      ∀ s, Option.Rel (fun c d => c.same d = true) (e.parts.child? s) (f.parts.child? s) := by
  rw [Element.same_iff, Parts.same_iff_children k.layout_nodup he.parts hf.parts]

theorem Parts.rel_child?_refl {layout : List Slot} {p : Parts layout} (hw : p.WellFormed)
    (s : Step) : Option.Rel (fun c d => c.same d = true) (p.child? s) (p.child? s) := by
  cases hc : p.child? s with
  | none => exact .none
  | some child => exact .some (child.same_refl ((p.owns_of_child? hc).wellFormed hw))

-- ---------------------------------------------------------------------------
-- Deposits
-- ---------------------------------------------------------------------------

namespace AnnotationSet

variable {s t : AnnotationSet} {a b : Annotation} {wanted wanted' : Bool}

def addIf (wanted : Bool) (a : Annotation) (s : AnnotationSet) : AnnotationSet :=
  if wanted then (insert s a).2 else s

theorem wellFormedSet_addIf (hs : AnnotationSet.WellFormed s) (ha : a.WellFormed) :
    AnnotationSet.WellFormed (addIf wanted a s) := by
  cases wanted with
  | false => exact hs
  | true => exact wellFormedSet_insert hs ha

theorem addIf_same (hs : AnnotationSet.WellFormed s) (ht : AnnotationSet.WellFormed t)
    (ha : a.WellFormed) (h : same s t = true) :
    same (addIf wanted a s) (addIf wanted a t) = true := by
  cases wanted with
  | false => exact h
  | true => exact insert_same hs ht ha h

theorem addIf_comm (hs : AnnotationSet.WellFormed s) (ha : a.WellFormed) (hb : b.WellFormed) :
    same (addIf wanted' b (addIf wanted a s)) (addIf wanted a (addIf wanted' b s)) = true := by
  cases wanted <;> cases wanted'
  case true.true => exact insert_comm hs ha hb
  all_goals exact same_refl _

end AnnotationSet

/-- The second element is the first with an annotation more in those of its sets that want it. -/
structure Element.Deposited {k : Kind} (annotated contracted : Bool) (a : Annotation)
    (e e' : Element k) : Prop where
  detail : e'.header.detail = e.header.detail
  annotations : e'.header.annotations = AnnotationSet.addIf annotated a e.header.annotations
  contracts : e'.parts.contractSet = AnnotationSet.addIf contracted a e.parts.contractSet
  slot? : ∀ s, s ≠ .contracts → e'.parts.slot? s = e.parts.slot? s

namespace Element.Deposited

variable {k : Kind} {annotated contracted : Bool} {a : Annotation} {e e' : Element k}

theorem refl (e : Element k) : e.Deposited false false a e := ⟨rfl, rfl, rfl, fun _ _ => rfl⟩

theorem child? (h : e.Deposited annotated contracted a e') (s : Step) :
    e'.parts.child? s = e.parts.child? s := by
  have hs : s.slot ≠ .contracts := by cases s <;> simp [Step.slot]
  rw [Parts.child?, Parts.child?, h.slot? s.slot hs]

theorem wellFormed (h : e.Deposited annotated contracted a e') (ha : a.WellFormed)
    (hw : e.WellFormed) : e'.WellFormed := by
  have hl := k.layout_nodup
  refine Element.wellFormed_iff.mpr ⟨?_, (Parts.wellFormed_iff_slots hl).mpr ?_⟩
  · rw [Header.WellFormed, h.annotations]
    exact AnnotationSet.wellFormedSet_addIf hw.annotations ha
  · intro s content hs
    by_cases hc : s = .contracts
    · subst hc
      rw [← Parts.contractSet_of_slot? hs, h.contracts]
      exact AnnotationSet.wellFormedSet_addIf (hw.parts.contractSet hl) ha
    · rw [h.slot? s hc] at hs
      exact hw.parts.slot? hl hs

end Element.Deposited

/-- To which of its sets an element adds the annotation is a matter of its kind; the rest of it
stays. -/
def IsDeposit (a : Annotation) (g : (k : Kind) → Element k → Element k) : Prop :=
  ∀ k, ∃ annotated contracted, ∀ e : Element k, e.Deposited annotated contracted a (g k e)

namespace IsDeposit

variable {a b : Annotation} {g h : (k : Kind) → Element k → Element k} {k : Kind}
  {e f : Element k}

theorem wellFormed (hg : IsDeposit a g) (ha : a.WellFormed) (hw : e.WellFormed) :
    (g k e).WellFormed := by
  obtain ⟨_, _, hdep⟩ := hg k
  exact (hdep e).wellFormed ha hw

theorem same (hg : IsDeposit a g) (ha : a.WellFormed) (he : e.WellFormed) (hf : f.WellFormed)
    (hsame : e.same f = true) : (g k e).same (g k f) = true := by
  have hl := k.layout_nodup
  rw [Element.same_iff_children he hf] at hsame
  rw [Element.same_iff_children (hg.wellFormed ha he) (hg.wellFormed ha hf)]
  obtain ⟨hdetail, hannotations, hcontracts, hchildren⟩ := hsame
  obtain ⟨annotated, contracted, hdep⟩ := hg k
  refine ⟨?_, ?_, ?_, ?_⟩
  · rw [(hdep e).detail, (hdep f).detail]
    exact hdetail
  · rw [(hdep e).annotations, (hdep f).annotations]
    exact AnnotationSet.addIf_same he.annotations hf.annotations ha hannotations
  · rw [(hdep e).contracts, (hdep f).contracts]
    exact AnnotationSet.addIf_same (he.parts.contractSet hl) (hf.parts.contractSet hl) ha hcontracts
  · intro s
    rw [(hdep e).child?, (hdep f).child?]
    exact hchildren s

theorem comm (hg : IsDeposit a g) (hh : IsDeposit b h) (ha : a.WellFormed) (hb : b.WellFormed)
    (hw : e.WellFormed) : (h k (g k e)).same (g k (h k e)) = true := by
  rw [Element.same_iff_children (hh.wellFormed hb (hg.wellFormed ha hw))
    (hg.wellFormed ha (hh.wellFormed hb hw))]
  obtain ⟨_, _, hdep⟩ := hg k
  obtain ⟨_, _, hdep'⟩ := hh k
  refine ⟨?_, ?_, ?_, ?_⟩
  · rw [(hdep' _).detail, (hdep e).detail, (hdep _).detail, (hdep' e).detail]
    exact Detail.same_refl k _
  · rw [(hdep' _).annotations, (hdep e).annotations, (hdep _).annotations, (hdep' e).annotations]
    exact AnnotationSet.addIf_comm hw.annotations ha hb
  · rw [(hdep' _).contracts, (hdep e).contracts, (hdep _).contracts, (hdep' e).contracts]
    exact AnnotationSet.addIf_comm (hw.parts.contractSet k.layout_nodup) ha hb
  · intro s
    rw [(hdep' _).child?, (hdep e).child?, (hdep _).child?, (hdep' e).child?]
    exact Parts.rel_child?_refl hw.parts s

end IsDeposit

-- ---------------------------------------------------------------------------
-- Which operations are deposits
-- ---------------------------------------------------------------------------

namespace Element

variable {k : Kind} {a : Annotation}

theorem deposited_annotate (e : Element k) : e.Deposited true false a (e.annotate a).2 :=
  ⟨rfl, rfl, rfl, fun _ _ => rfl⟩

theorem deposited_contract (e : Element k) :
    e.Deposited false (decide (.contracts ∈ k.layout)) a (e.contract a).2 := by
  refine ⟨rfl, rfl, ?_, fun s hs => e.parts.slot?_setSlot_of_ne hs _⟩
  by_cases hs : .contracts ∈ k.layout
  · obtain ⟨set, hset⟩ := e.parts.exists_slot? hs
    have hslot : (e.contract a).2.parts.slot? .contracts =
        some (AnnotationSet.insert e.contracts a).2 := by
      refine (e.parts.slot?_setSlot_self .contracts _).trans ?_
      rw [hset]
      rfl
    rw [Parts.contractSet_of_slot? hslot, decide_eq_true hs]
    rfl
  · rw [Parts.contractSet_eq_nil hs, Parts.contractSet_eq_nil hs, decide_eq_false hs]
    rfl

/-- A facet shares its annotations with the element: what is added to them is added to both. -/
theorem facet?_cases (a : Annotation) (k : Kind) (f : Facet) :
    (∀ e : Element k, e.facet? f = none) ∨
      ∀ e : Element k, ∃ facet, e.facet? f = some facet ∧ e.withFacet f facet = e ∧
        e.withFacet f (facet.annotate a).2 = (e.annotate a).2 := by
  cases k <;> cases f
  case type.plain | cast.type => exact .inr fun ⟨_, _⟩ => ⟨_, rfl, rfl, rfl⟩
  case field.declaration | method.declaration | classType.declaration =>
    refine .inr fun ⟨header, p⟩ => ?_
    have hp := p.append_split Kind.declarationLayout
    exact ⟨_, rfl, congrArg (mk _) hp, congrArg (mk _) hp⟩
  case block.expression =>
    refine .inr fun ⟨header, p⟩ => ?_
    have hp := p.append_split Kind.expressionLayout
    exact ⟨_, rfl, congrArg (mk _) hp, congrArg (mk _) hp⟩
  case declaration.plain | expression.plain =>
    refine .inr fun ⟨header, p⟩ => ?_
    have hp := p.append_split Kind.plainLayout
    exact ⟨_, rfl, congrArg (mk _) hp, congrArg (mk _) hp⟩
  all_goals exact .inl fun ⟨_, _⟩ => rfl

theorem alterFacets_annotate (a : Annotation) (facets : List Facet) (k : Kind) :
    (∀ e : Element k, (e.alterFacets (fun _ e => e.annotate a) facets).2 = (e.annotate a).2) ∨
      ∀ e : Element k, (e.alterFacets (fun _ e => e.annotate a) facets).2 = e := by
  induction facets generalizing k with
  | nil => exact .inl fun e => rfl
  | cons f rest ih =>
    rcases facet?_cases a k f with hnone | hfacet
    · right
      intro e
      rw [alterFacets, hnone e]
    · rcases ih f.kind with hinner | hinner
      · left
        intro e
        obtain ⟨facet, hf, -, hput⟩ := hfacet e
        rw [alterFacets, hf]
        simp only [hinner, hput]
      · right
        intro e
        obtain ⟨facet, hf, hput, -⟩ := hfacet e
        rw [alterFacets, hf]
        simp only [hinner, hput]

theorem isDeposit_annotate (a : Annotation) (facets : List Facet) :
    IsDeposit a fun _ e => (e.alterFacets (fun _ e => e.annotate a) facets).2 := by
  intro k
  rcases alterFacets_annotate a facets k with h | h
  · refine ⟨true, false, fun e => ?_⟩
    simp only [h e]
    exact e.deposited_annotate
  · refine ⟨false, false, fun e => ?_⟩
    simp only [h e]
    exact .refl e

theorem isDeposit_contract (a : Annotation) : IsDeposit a fun _ e => (e.contract a).2 :=
  fun k => ⟨false, decide (.contracts ∈ k.layout), fun e => e.deposited_contract⟩

end Element

-- ---------------------------------------------------------------------------
-- Growing to the same
-- ---------------------------------------------------------------------------

/-- Fresh children differ in their descriptions only, whatever their owners are called. -/
theorem Header.fresh_same {k l : Kind} (g : Header k) (h : Header l) :
    (s : Step) → (g.fresh s).same (h.fresh s) = true
  | .fixed .returnType => rfl
  | .fixed .receiver => rfl
  | .fixed .body => rfl
  | .optional .type => rfl
  | .optional .init => rfl
  | .keyed m key => (m.fresh key).same_refl (m.wellFormed_fresh key)

namespace Parts

variable {layout : List Slot} {fresh fresh' : (s : Step) → Element s.kind} {p q : Parts layout}
  {s t : Step}

theorem rel_child?_grow (hp : p.WellFormed) (hq : q.WellFormed) (hfresh : (fresh s).WellFormed)
    (hfresh' : (fresh' s).WellFormed) (hsame : (fresh s).same (fresh' s) = true)
    {f : Element s.kind → Element s.kind}
    (hf : ∀ {c d}, c.WellFormed → d.WellFormed → c.same d = true → (f c).same (f d) = true)
    (h : ∀ u, Option.Rel (fun c d => c.same d = true) (p.child? u) (q.child? u)) (u : Step) :
    Option.Rel (fun c d => c.same d = true) ((p.grow fresh s f).child? u)
      ((q.grow fresh' s f).child? u) := by
  by_cases hu : u = s
  · subst hu
    by_cases hslot : u.slot ∈ layout
    · rw [child?_grow_self hslot, child?_grow_self hslot]
      refine .some (hf (wellFormed_child? hp hfresh) (wellFormed_child? hq hfresh') ?_)
      have hcd := h u
      generalize p.child? u = x, q.child? u = y at hcd ⊢
      cases hcd with
      | none => exact hsame
      | some hcd => exact hcd
    · rw [grow_of_not_mem hslot, grow_of_not_mem hslot]
      exact h u
  · rw [child?_grow_of_ne hu, child?_grow_of_ne hu]
    exact h u

theorem child?_grow_congr (h : p.child? s = q.child? s) (f : Element s.kind → Element s.kind) :
    (p.grow fresh s f).child? s = (q.grow fresh s f).child? s := by
  by_cases hs : s.slot ∈ layout
  · rw [child?_grow_self hs, child?_grow_self hs, h]
  · rw [grow_of_not_mem hs, grow_of_not_mem hs, h]

theorem same_grow (hl : layout.Nodup) (hp : p.WellFormed) (hq : q.WellFormed)
    (hfresh : ∀ s, (fresh s).WellFormed) (hfresh' : ∀ s, (fresh' s).WellFormed)
    (hsame : (fresh s).same (fresh' s) = true) {f : Element s.kind → Element s.kind}
    (hw : ∀ {c}, c.WellFormed → (f c).WellFormed)
    (hf : ∀ {c d}, c.WellFormed → d.WellFormed → c.same d = true → (f c).same (f d) = true)
    (h : p.same q = true) : (p.grow fresh s f).same (q.grow fresh' s f) = true := by
  obtain ⟨hcontracts, hchildren⟩ := (same_iff_children hl hp hq).mp h
  rw [same_iff_children hl (hp.grow hl hfresh hw) (hq.grow hl hfresh' hw), contractSet_grow,
    contractSet_grow]
  exact ⟨hcontracts, rel_child?_grow hp hq (hfresh s) (hfresh' s) hsame hf hchildren⟩

theorem grow_comm_self (hl : layout.Nodup) (hp : p.WellFormed) (hfresh : ∀ s, (fresh s).WellFormed)
    {f g : Element s.kind → Element s.kind} (hf : ∀ {c}, c.WellFormed → (f c).WellFormed)
    (hg : ∀ {c}, c.WellFormed → (g c).WellFormed)
    (hcomm : ∀ {c}, c.WellFormed → (g (f c)).same (f (g c)) = true) :
    ((p.grow fresh s f).grow fresh s g).same ((p.grow fresh s g).grow fresh s f) = true := by
  rw [same_iff_children hl ((hp.grow hl hfresh hf).grow hl hfresh hg)
    ((hp.grow hl hfresh hg).grow hl hfresh hf)]
  simp only [contractSet_grow]
  refine ⟨AnnotationSet.same_refl _, fun u => ?_⟩
  by_cases hu : u = s
  · subst hu
    by_cases hslot : u.slot ∈ layout
    · simp only [child?_grow_self hslot, Option.getD_some]
      exact .some (hcomm (wellFormed_child? hp (hfresh u)))
    · simp only [grow_of_not_mem hslot]
      exact rel_child?_refl hp u
  · simp only [child?_grow_of_ne hu]
    exact rel_child?_refl hp u

theorem grow_comm_of_ne (hl : layout.Nodup) (hp : p.WellFormed)
    (hfresh : ∀ s, (fresh s).WellFormed) {f : Element s.kind → Element s.kind}
    {g : Element t.kind → Element t.kind} (hf : ∀ {c}, c.WellFormed → (f c).WellFormed)
    (hg : ∀ {c}, c.WellFormed → (g c).WellFormed) (hst : s ≠ t) :
    ((p.grow fresh s f).grow fresh t g).same ((p.grow fresh t g).grow fresh s f) = true := by
  have hw := (hp.grow hl hfresh hf).grow hl hfresh hg
  have hchild : ∀ u, ((p.grow fresh t g).grow fresh s f).child? u =
      ((p.grow fresh s f).grow fresh t g).child? u := by
    intro u
    by_cases hus : u = s
    · subst hus
      rw [child?_grow_of_ne hst, child?_grow_congr (child?_grow_of_ne hst g)]
    · rw [child?_grow_of_ne hus]
      by_cases hut : u = t
      · subst hut
        rw [child?_grow_congr (child?_grow_of_ne hus f)]
      · rw [child?_grow_of_ne hut, child?_grow_of_ne hut, child?_grow_of_ne hus]
  rw [same_iff_children hl hw ((hp.grow hl hfresh hg).grow hl hfresh hf)]
  simp only [contractSet_grow]
  refine ⟨AnnotationSet.same_refl _, fun u => ?_⟩
  rw [hchild]
  exact rel_child?_refl hw u

/-- Two children may be changed in either order; if it is one child, the changes must commute. -/
theorem grow_comm (hl : layout.Nodup) (hp : p.WellFormed) (hfresh : ∀ s, (fresh s).WellFormed)
    (s t : Step) {f g : (k : Kind) → Element k → Element k}
    (hf : ∀ {k} {c : Element k}, c.WellFormed → (f k c).WellFormed)
    (hg : ∀ {k} {c : Element k}, c.WellFormed → (g k c).WellFormed)
    (hcomm : ∀ {k} {c : Element k}, c.WellFormed → (g k (f k c)).same (f k (g k c)) = true) :
    ((p.grow fresh s (f _)).grow fresh t (g _)).same
      ((p.grow fresh t (g _)).grow fresh s (f _)) = true := by
  by_cases hst : s = t
  · subst hst
    exact grow_comm_self hl hp hfresh hf hg hcomm
  · exact grow_comm_of_ne hl hp hfresh hf hg hst

end Parts

namespace IsDeposit

variable {a b : Annotation} {g h : (k : Kind) → Element k → Element k}

theorem wellFormed_grow (hg : IsDeposit a g) (ha : a.WellFormed) {address : Address} {k : Kind}
    {e : Element k} (hw : e.WellFormed) : (e.grow g address).WellFormed :=
  hw.grow (hg.wellFormed ha)

theorem same_grow (hg : IsDeposit a g) (ha : a.WellFormed) {address : Address} {k : Kind}
    {e f : Element k} (he : e.WellFormed) (hf : f.WellFormed) (hsame : e.same f = true) :
    (e.grow g address).same (f.grow g address) = true := by
  induction address generalizing k with
  | nil => exact hg.same ha he hf hsame
  | cons s rest ih =>
    obtain ⟨hdetail, hannotations, hparts⟩ := Element.same_iff.mp hsame
    rw [Element.same_iff, Element.header_grow_cons, Element.header_grow_cons,
      Element.parts_grow_cons, Element.parts_grow_cons]
    refine ⟨hdetail, hannotations, ?_⟩
    exact Parts.same_grow k.layout_nodup he.parts hf.parts e.header.wellFormed_fresh
      f.header.wellFormed_fresh (e.header.fresh_same f.header s) (hg.wellFormed_grow ha) ih hparts

/-- Growing below an element touches none of its sets. -/
theorem comm_grow (hg : IsDeposit a g) (hh : IsDeposit b h) (ha : a.WellFormed)
    (hb : b.WellFormed) {s : Step} {rest : Address} {k : Kind} {e : Element k}
    (hw : e.WellFormed) :
    ((g k e).grow h (s :: rest)).same (g k (e.grow h (s :: rest))) = true := by
  have hwg := hg.wellFormed ha hw
  rw [Element.same_iff_children (hh.wellFormed_grow hb hwg)
    (hg.wellFormed ha (hh.wellFormed_grow hb hw))]
  obtain ⟨_, _, hdep⟩ := hg k
  refine ⟨?_, ?_, ?_, fun u => ?_⟩
  · rw [Element.header_grow_cons, (hdep _).detail, (hdep _).detail, Element.header_grow_cons]
    exact Detail.same_refl k _
  · rw [Element.header_grow_cons, (hdep _).annotations, (hdep _).annotations,
      Element.header_grow_cons]
    exact AnnotationSet.same_refl _
  · rw [Element.parts_grow_cons, Parts.contractSet_grow, (hdep _).contracts, (hdep _).contracts,
      Element.parts_grow_cons, Parts.contractSet_grow]
    exact AnnotationSet.same_refl _
  · rw [(hdep _).child?, Element.parts_grow_cons, Element.parts_grow_cons]
    apply Parts.rel_child?_grow hwg.parts hw.parts (Header.wellFormed_fresh _ s)
      (Header.wellFormed_fresh _ s) (Header.fresh_same _ _ s) (hh.same_grow hb)
    intro u
    rw [(hdep e).child?]
    exact Parts.rel_child?_refl hw.parts u

theorem grow_comm (hg : IsDeposit a g) (hh : IsDeposit b h) (ha : a.WellFormed)
    (hb : b.WellFormed) {address address' : Address} {k : Kind} {e : Element k}
    (hw : e.WellFormed) :
    ((e.grow g address).grow h address').same ((e.grow h address').grow g address) = true := by
  -- along the steps that both addresses share; where one ends, its deposit meets the other's growth
  induction address generalizing address' k with
  | nil =>
    cases address' with
    | nil => exact hg.comm hh ha hb hw
    | cons t rest' => exact hg.comm_grow hh ha hb hw
  | cons s rest ih =>
    cases address' with
    | nil =>
      apply Element.same_symm _ (hg.wellFormed_grow ha (hh.wellFormed hb hw))
      exact hh.comm_grow hg hb ha hw
    | cons t rest' =>
      rw [Element.same_iff]
      simp only [Element.header_grow_cons, Element.parts_grow_cons]
      refine ⟨Detail.same_refl k _, AnnotationSet.same_refl _, ?_⟩
      exact Parts.grow_comm k.layout_nodup hw.parts e.header.wellFormed_fresh s t
        (f := fun _ c => c.grow g rest) (g := fun _ c => c.grow h rest') (hg.wellFormed_grow ha)
        (hh.wellFormed_grow hb) ih

end IsDeposit

-- ---------------------------------------------------------------------------
-- Scenes
-- ---------------------------------------------------------------------------

namespace Scene

variable {s t : Scene}

theorem same_grow {a : Annotation} {g : (k : Kind) → Element k → Element k} (hg : IsDeposit a g)
    (ha : a.WellFormed) {s t : Valid} (h : s.same t = true) {address : Address} :
    (s.grow g address).same (t.grow g address) = true := by
  cases address with
  | nil => exact h
  | cons first rest =>
    rw [same_eq_parts] at h ⊢
    rw [parts_grow_cons, parts_grow_cons]
    exact Parts.same_grow layout_nodup s.wellFormed.parts t.wellFormed.parts wellFormed_fresh
      wellFormed_fresh (Element.same_refl _ (wellFormed_fresh first)) (hg.wellFormed_grow ha)
      (hg.same_grow ha) h

theorem grow_comm {a b : Annotation} {g h : (k : Kind) → Element k → Element k}
    (hg : IsDeposit a g) (hh : IsDeposit b h) (ha : a.WellFormed) (hb : b.WellFormed)
    (s : Valid) {address address' : Address} :
    ((s.grow g address).grow h address').same ((s.grow h address').grow g address) = true := by
  cases address with
  | nil => exact same_refl (s.wellFormed.grow (hh.wellFormed hb))
  | cons first rest =>
    cases address' with
    | nil =>
      have hw : (s.grow g (first :: rest)).WellFormed :=
        s.wellFormed.grow (hg.wellFormed ha)
      exact same_refl hw
    | cons first' rest' =>
      rw [same_eq_parts]
      simp only [parts_grow_cons]
      exact Parts.grow_comm layout_nodup s.wellFormed.parts wellFormed_fresh first first'
        (f := fun _ c => c.grow g rest) (g := fun _ c => c.grow h rest') (hg.wellFormed_grow ha)
        (hh.wellFormed_grow hb) (hg.grow_comm hh ha hb)

/-- Every attachment grows the scene at an address and deposits its annotation there. -/
theorem attach_eq_grow (op : Attachment) : ∃ address g, IsDeposit op.content.1 g ∧
    ∀ s : Scene, s.attach op = s.grow g address := by
  cases op with
  | annotate place a =>
    refine ⟨place.address, _, Element.isDeposit_annotate a.1 place.facets, fun s => ?_⟩
    exact alter_vivify (fun _ e => e.alterFacets (fun _ e => e.annotate a.1) place.facets) _ s
  | contract address a =>
    exact ⟨address, _, Element.isDeposit_contract a.1, fun s => alter_vivify _ _ s⟩

theorem WellFormed.attach (hs : s.WellFormed) (op : Attachment) : (s.attach op).WellFormed := by
  obtain ⟨address, g, hg, hgrow⟩ := attach_eq_grow op
  rw [hgrow]
  exact hs.grow (hg.wellFormed op.content.2)

def Valid.attach (s : Valid) (op : Attachment) : Valid :=
  ⟨s.toScene.attach op, s.wellFormed.attach op⟩

def Valid.attachAll (s : Valid) (ops : List Attachment) : Valid := ops.foldl Valid.attach s

theorem attach_same {s t : Valid} (h : s.same t = true) (op : Attachment) :
    (s.attach op).same (t.attach op) = true := by
  obtain ⟨address, g, hg, hgrow⟩ := attach_eq_grow op
  simp only [Valid.attach, hgrow]
  exact same_grow hg op.content.2 h

theorem attach_comm (s : Valid) (op op' : Attachment) :
    ((s.attach op).attach op').same ((s.attach op').attach op) = true := by
  obtain ⟨address, g, hg, hgrow⟩ := attach_eq_grow op
  obtain ⟨address', g', hg', hgrow'⟩ := attach_eq_grow op'
  simp only [Valid.attach, hgrow, hgrow']
  exact grow_comm hg hg' op.content.2 op'.content.2 s

theorem attachAll_same {s t : Valid} (h : s.same t = true) (ops : List Attachment) :
    (s.attachAll ops).same (t.attachAll ops) = true := by
  induction ops generalizing s t with
  | nil => exact h
  | cons op rest ih => exact ih (attach_same h op)

/-- Attachments build the same scene in whatever order they come. -/
theorem attachAll_perm (s : Valid) {ops ops' : List Attachment} (h : ops.Perm ops') :
    (s.attachAll ops).same (s.attachAll ops') = true := by
  induction h generalizing s with
  | nil => exact same_refl s.wellFormed
  | cons op _ ih => exact ih (s.attach op)
  | swap op op' rest => exact attachAll_same (attach_comm s op' op) rest
  | trans _ _ ih₁ ih₂ => exact same_trans (ih₁ s) (ih₂ s)

theorem attachAll_perm_reversed :
    let marker (source : String) : Annotation.Valid :=
      ⟨.marker (.ofName "A" source), trivial, trivial⟩
    let type : Address := [.keyed .classes "C", .keyed .fields "f", .optional .type]
    let ops : List Attachment :=
      [.annotate ⟨type, []⟩ (marker "p"), .annotate ⟨type, [.plain]⟩ (marker "q"),
        .contract [.keyed .classes "D", .keyed .methods "m()V"] (marker "r")]
    let empty : Valid := ⟨{}, trivial, trivial⟩
    (empty.attachAll ops).gather.map (·.definition.source) = ["p", "r"] ∧
      (empty.attachAll ops.reverse).gather.map (·.definition.source) = ["r", "q"] ∧
      (empty.attachAll ops).same (empty.attachAll ops.reverse) = true := by
  intro marker type ops empty
  refine ⟨?_, ?_, attachAll_perm empty ops.reverse_perm.symm⟩
  · decide +kernel
  · decide +kernel

end Scene

end AnnotationScene
