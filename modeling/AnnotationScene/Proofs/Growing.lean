import AnnotationScene.Proofs.Slots

/-!
# Growing along an address

To vivify along an address is to create what is missing on the way and to change the element at
its end. Each step of it touches one child: the header, the contracts and every other child stay
as they are. What grows out of well-formed elements is well formed.
-/

namespace AnnotationScene

instance {k : Kind} (e : Element k) : Decidable e.WellFormed := e.decWellFormed

-- ---------------------------------------------------------------------------
-- Fresh elements
-- ---------------------------------------------------------------------------

theorem ChildMap.wellFormed_fresh (m : ChildMap) (key : m.Key) : (m.fresh key).WellFormed := by
  cases m <;> exact of_decide_eq_true rfl

theorem FixedChild.wellFormed_fresh (f : FixedChild) (name : String) :
    (f.fresh name).WellFormed := by
  cases f <;> exact of_decide_eq_true rfl

theorem Header.wellFormed_fresh {k : Kind} (h : Header k) : (s : Step) → (h.fresh s).WellFormed
  | .fixed f => f.wellFormed_fresh h.name
  | .optional .type => of_decide_eq_true rfl
  | .optional .init => of_decide_eq_true rfl
  | .keyed m key => m.wellFormed_fresh key

theorem Scene.wellFormed_fresh : (s : Step) → (Scene.fresh s).WellFormed
  | .fixed f => f.wellFormed_fresh ""
  | .optional .type => of_decide_eq_true rfl
  | .optional .init => of_decide_eq_true rfl
  | .keyed m key => m.wellFormed_fresh key

-- ---------------------------------------------------------------------------
-- One step
-- ---------------------------------------------------------------------------

namespace Step

theorem pick?_put : (s : Step) → (child : Element s.kind) → (content : s.slot.Content) →
    s.pick? (s.put child content) = some child
  | .fixed _, _, _ => rfl
  | .optional _, _, _ => rfl
  | .keyed _ key, child, entries => Entries.get?_insert_self entries key child

theorem wellFormed_put : (s : Step) → {child : Element s.kind} → {content : s.slot.Content} →
    child.WellFormed → s.slot.WellFormed content → s.slot.WellFormed (s.put child content)
  | .fixed _, _, _, hc, _ => hc
  | .optional _, _, _, hc, _ => fun _ h => Option.some.inj h ▸ hc
  | .keyed _ key, _, _, hc, hw => Entries.WellFormed.insert hw key hc

/-- Two steps lead into one slot only if they are the keys of one map. -/
theorem eq_or_keyed {s t : Step} (h : t.slot = s.slot) :
    t = s ∨ ∃ m key other, s = .keyed m key ∧ t = .keyed m other := by
  cases s <;> cases t <;> simp [Step.slot] at h
  case keyed.keyed m key m' other =>
    subst h
    exact .inr ⟨m', key, other, rfl, rfl⟩
  all_goals exact .inl (h ▸ rfl)

end Step

namespace Parts

variable {layout : List Slot} {fresh : (s : Step) → Element s.kind} {p : Parts layout}

/-- The child that a step leads to, changed, or else a fresh one, changed and put there. -/
def grow (fresh : (s : Step) → Element s.kind) (p : Parts layout) (s : Step)
    (f : Element s.kind → Element s.kind) : Parts layout :=
  match p.slot? s.slot with
  | none => p
  | some content => p.setSlot s.slot (s.put (f ((s.pick? content).getD (fresh s))) content)

theorem descend_vivify {α : Type} (s : Step) (f : Element s.kind → Option α × Element s.kind) :
    (p.descend .vivify fresh s f).2 = p.grow fresh s fun child => (f child).2 := by
  rw [descend, grow]
  cases p.slot? s.slot with
  | none => rfl
  | some content => cases h : s.pick? content <;> simp [h, Descent.creates]

theorem grow_of_not_mem {s : Step} (hs : s.slot ∉ layout)
    (f : Element s.kind → Element s.kind) : p.grow fresh s f = p := by
  rw [grow, slot?_eq_none hs]

theorem grow_of_slot? {s : Step} {content : s.slot.Content} (h : p.slot? s.slot = some content)
    (f : Element s.kind → Element s.kind) :
    p.grow fresh s f = p.setSlot s.slot (s.put (f ((p.child? s).getD (fresh s))) content) := by
  rw [grow, h, child?_of_slot? h]

theorem child?_grow_self {s : Step} (hs : s.slot ∈ layout)
    (f : Element s.kind → Element s.kind) :
    (p.grow fresh s f).child? s = some (f ((p.child? s).getD (fresh s))) := by
  obtain ⟨content, hc⟩ := p.exists_slot? hs
  have hslot : (p.grow fresh s f).slot? s.slot =
      some (s.put (f ((p.child? s).getD (fresh s))) content) := by
    rw [grow_of_slot? hc, slot?_setSlot_self, hc]
    rfl
  rw [child?_of_slot? hslot, s.pick?_put]

theorem child?_put_of_ne {s t : Step} (h : t ≠ s) {content : s.slot.Content}
    (hc : p.slot? s.slot = some content) (child : Element s.kind) :
    (p.setSlot s.slot (s.put child content)).child? t = p.child? t := by
  by_cases hslot : t.slot = s.slot
  · rcases Step.eq_or_keyed hslot with rfl | ⟨m, key, other, rfl, rfl⟩
    · exact absurd rfl h
    · have hne : other ≠ key := fun he => h (he ▸ rfl)
      have hput : (p.setSlot (.keyed m) (Entries.insert content key child)).slot? (.keyed m) =
          some (Entries.insert content key child) := by
        rw [slot?_setSlot_self]
        exact congrArg _ hc
      have hread := child?_of_slot? (s := .keyed m other) hput
      have hread' := child?_of_slot? (s := .keyed m other) hc
      exact hread.trans ((Entries.get?_insert_of_ne content hne child).trans hread'.symm)
  · simp only [child?, slot?_setSlot_of_ne p hslot]

theorem child?_grow_of_ne {s t : Step} (h : t ≠ s) (f : Element s.kind → Element s.kind) :
    (p.grow fresh s f).child? t = p.child? t := by
  by_cases hs : s.slot ∈ layout
  · obtain ⟨content, hc⟩ := p.exists_slot? hs
    rw [grow_of_slot? hc, child?_put_of_ne h hc]
  · rw [grow_of_not_mem hs]

theorem contractSet_grow (s : Step) (f : Element s.kind → Element s.kind) :
    (p.grow fresh s f).contractSet = p.contractSet := by
  by_cases hs : s.slot ∈ layout
  · obtain ⟨content, hc⟩ := p.exists_slot? hs
    have hne : Slot.contracts ≠ s.slot := by
      cases s <;> simp [Step.slot]
    rw [grow_of_slot? hc, contractSet, contractSet, slot?_setSlot_of_ne p hne]
  · rw [grow_of_not_mem hs]

theorem wellFormed_child? (hw : p.WellFormed) {s : Step} (hfresh : (fresh s).WellFormed) :
    ((p.child? s).getD (fresh s)).WellFormed := by
  cases hc : p.child? s with
  | none => exact hfresh
  | some child => exact (p.owns_of_child? hc).wellFormed hw

theorem WellFormed.grow (hl : layout.Nodup) (hw : p.WellFormed)
    (hfresh : ∀ s, (fresh s).WellFormed) {s : Step} {f : Element s.kind → Element s.kind}
    (hf : ∀ {c}, c.WellFormed → (f c).WellFormed) : (p.grow fresh s f).WellFormed := by
  by_cases hs : s.slot ∈ layout
  · obtain ⟨content, hc⟩ := p.exists_slot? hs
    have hchild := hf (wellFormed_child? hw (hfresh s))
    rw [grow_of_slot? hc]
    exact hw.setSlot hl (s.wellFormed_put hchild (hw.slot? hl hc))
  · rw [grow_of_not_mem hs]
    exact hw

end Parts

-- ---------------------------------------------------------------------------
-- Whole addresses
-- ---------------------------------------------------------------------------

namespace Element

def grow (f : (k : Kind) → Element k → Element k) : Address → {k : Kind} → Element k → Element k
  | [], k, e => f k e
  | s :: rest, _, .mk header parts =>
    .mk header (parts.grow header.fresh s fun child => child.grow f rest)

theorem alter_vivify {α : Type} (f : (k : Kind) → Element k → α × Element k) (address : Address)
    {k : Kind} (e : Element k) :
    (e.alter .vivify f address).2 = e.grow (fun k e => (f k e).2) address := by
  induction address generalizing k with
  | nil => rfl
  | cons s rest ih =>
    obtain ⟨header, parts⟩ := e
    rw [alter, grow]
    simp only [Parts.descend_vivify, ih]

theorem header_grow_cons (f : (k : Kind) → Element k → Element k) (s : Step) (rest : Address)
    {k : Kind} (e : Element k) : (e.grow f (s :: rest)).header = e.header := by
  obtain ⟨header, parts⟩ := e
  rfl

theorem parts_grow_cons (f : (k : Kind) → Element k → Element k) (s : Step) (rest : Address)
    {k : Kind} (e : Element k) : (e.grow f (s :: rest)).parts =
      e.parts.grow e.header.fresh s fun child => child.grow f rest := by
  obtain ⟨header, parts⟩ := e
  rfl

theorem wellFormed_iff {k : Kind} {e : Element k} :
    e.WellFormed ↔ e.header.WellFormed ∧ e.parts.WellFormed := by
  obtain ⟨header, parts⟩ := e
  rfl

theorem WellFormed.grow {f : (k : Kind) → Element k → Element k}
    (hf : ∀ {k} {e : Element k}, e.WellFormed → (f k e).WellFormed) {address : Address}
    {k : Kind} {e : Element k} (hw : e.WellFormed) : (e.grow f address).WellFormed := by
  induction address generalizing k with
  | nil => exact hf hw
  | cons s rest ih =>
    obtain ⟨hheader, hparts⟩ := wellFormed_iff.mp hw
    refine wellFormed_iff.mpr ⟨?_, ?_⟩
    · rw [header_grow_cons]
      exact hheader
    · rw [parts_grow_cons]
      exact hparts.grow k.layout_nodup e.header.wellFormed_fresh ih

end Element

namespace Scene

def grow (f : (k : Kind) → Element k → Element k) (address : Address) (s : Scene) : Scene :=
  match address with
  | [] => s
  | first :: rest => s.withParts (s.parts.grow fresh first fun child => child.grow f rest)

theorem alter_vivify {α : Type} (f : (k : Kind) → Element k → α × Element k) (address : Address)
    (s : Scene) : (s.alter .vivify f address).2 = s.grow (fun k e => (f k e).2) address := by
  cases address with
  | nil => rfl
  | cons first rest =>
    rw [alter, grow]
    simp only [Parts.descend_vivify, Element.alter_vivify]

theorem parts_withParts (s : Scene) (p : Parts layout) : (s.withParts p).parts = p := by
  match p with
  | .keyed _ (.keyed _ .nil) => rfl

theorem parts_grow_cons (f : (k : Kind) → Element k → Element k) (first : Step) (rest : Address)
    (s : Scene) : (s.grow f (first :: rest)).parts =
      s.parts.grow fresh first fun child => child.grow f rest :=
  parts_withParts s _

theorem imports_grow (f : (k : Kind) → Element k → Element k) (address : Address) (s : Scene) :
    (s.grow f address).imports = s.imports := by
  cases address with
  | nil => rfl
  | cons first rest =>
    rw [grow]
    match s.parts.grow fresh first fun child => child.grow f rest with
    | .keyed _ (.keyed _ .nil) => rfl

theorem wellFormed_iff_parts {s : Scene} : s.WellFormed ↔ s.parts.WellFormed := by
  simp [Scene.WellFormed, Scene.parts, Parts.WellFormed]

theorem WellFormed.grow {f : (k : Kind) → Element k → Element k}
    (hf : ∀ {k} {e : Element k}, e.WellFormed → (f k e).WellFormed) {address : Address}
    {s : Scene} (hw : s.WellFormed) : (s.grow f address).WellFormed := by
  cases address with
  | nil => exact hw
  | cons first rest =>
    rw [wellFormed_iff_parts, parts_grow_cons]
    exact hw.parts.grow layout_nodup wellFormed_fresh (Element.WellFormed.grow hf)

end Scene

end AnnotationScene
