import AnnotationScene.Proofs.Ownership
import AnnotationScene.Proofs.Reach

/-!
# Gathering is complete

Gathering meets exactly the annotations that sit on the elements addresses lead to, contracts
included. It goes by parts and entries, an address by one child after the other; the two agree
because maps list no key twice. The order is that of the walk.
-/

namespace AnnotationScene

theorem Kind.visitOrder_perm {α : Type} (k : Kind) (l : List α) : (k.visitOrder l).Perm l := by
  cases k with
  | classType =>
    have hl : l = l.take 6 ++ ((l.drop 6).take 2 ++ l.drop 8) := by
      conv => lhs; rw [← List.take_append_drop 6 l, ← List.take_append_drop 2 (l.drop 6)]
      rw [List.drop_drop]
    conv => rhs; rw [hl]
    rw [Kind.visitOrder, List.append_assoc]
    exact List.perm_append_comm.append_left _
  | _ => exact List.Perm.refl _

theorem Kind.mem_flatten_visitOrder {α : Type} (k : Kind) {l : List (List α)} {x : α} :
    x ∈ (k.visitOrder l).flatten ↔ x ∈ l.flatten := by
  simp only [List.mem_flatten, (k.visitOrder_perm l).mem_iff]

theorem Element.mem_gather_iff {k : Kind} {e : Element k} {a : Annotation} :
    a ∈ e.gather ↔ a ∈ e.attached ∨ a ∈ e.parts.gathers.flatten := by
  obtain ⟨header, parts⟩ := e
  rw [Element.gather, List.mem_append, k.mem_flatten_visitOrder]
  rfl

-- ---------------------------------------------------------------------------
-- From addresses to what is gathered
-- ---------------------------------------------------------------------------

theorem Entries.gather_subset_of_get? {m : ChildMap} {key : m.Key} {child : Element m.kind} :
    (e : Entries m) → e.get? key = some child → child.gather ⊆ e.gather
  | .nil, h => nomatch h
  | .cons k c more, h => by
    rw [Entries.get?_cons] at h
    rw [Entries.gather]
    split at h
    next =>
      obtain rfl := Option.some.inj h
      exact List.subset_append_left _ _
    next =>
      exact List.subset_append_of_subset_right _ (more.gather_subset_of_get? h)

theorem Parts.Owns.gather_subset {layout : List Slot} {p : Parts layout} {s : Step}
    {child : Element s.kind} (h : p.Owns s child) : child.gather ⊆ p.gathers.flatten := by
  induction h with
  | fixed child more => exact List.subset_append_left _ _
  | present child more => exact List.subset_append_left _ _
  | keyed more hget =>
    exact List.subset_append_of_subset_left _ (Entries.gather_subset_of_get? _ hget)
  | afterFixed _ _ ih | afterAbsent _ ih | afterPresent _ _ ih | afterKeyed _ _ ih
  | afterContracts _ _ ih => exact List.subset_append_of_subset_right _ ih

theorem Element.find?_cons {k : Kind} {e : Element k} {s : Step} {rest : Address}
    {x : SomeElement} : e.find? (s :: rest) = some x ↔
      ∃ child, e.parts.child? s = some child ∧ child.find? rest = some x := by
  rw [Element.find?, Option.bind_eq_some_iff]

theorem Element.mem_gather_of_find? {a : Annotation} {x : SomeElement} (hx : a ∈ x.2.attached)
    {address : Address} {k : Kind} {e : Element k} (h : e.find? address = some x) :
    a ∈ e.gather := by
  induction address generalizing k with
  | nil =>
    obtain rfl := Option.some.inj h
    exact Element.mem_gather_iff.mpr (.inl hx)
  | cons s rest ih =>
    obtain ⟨child, hchild, h⟩ := Element.find?_cons.mp h
    exact Element.mem_gather_iff.mpr (.inr ((e.parts.owns_of_child? hchild).gather_subset (ih h)))

-- ---------------------------------------------------------------------------
-- From what is gathered to addresses
-- ---------------------------------------------------------------------------

theorem Element.Carries.of_child {k : Kind} {e : Element k} {s : Step} {child : Element s.kind}
    {a : Annotation} (hs : e.parts.Owns s child) (h : child.Carries a) : e.Carries a := by
  obtain ⟨address, x, hx, ha⟩ := h
  have hchild := Parts.child?_of_owns k.layout_nodup hs
  exact ⟨s :: address, x, Element.find?_cons.mpr ⟨child, hchild, hx⟩, ha⟩

mutual
theorem Element.carries_of_mem_gather {k : Kind} {a : Annotation} : (e : Element k) →
    e.WellFormed → a ∈ e.gather → e.Carries a
  | .mk header parts, hw, h => by
    rcases Element.mem_gather_iff.mp h with h | h
    · exact ⟨[], _, rfl, h⟩
    · obtain ⟨s, child, hs, hc⟩ := parts.owns_of_mem_gathers hw.2 h
      exact hc.of_child hs
theorem Parts.owns_of_mem_gathers {layout : List Slot} {a : Annotation} :
    (p : Parts layout) → p.WellFormed → a ∈ p.gathers.flatten →
    ∃ s child, p.Owns s child ∧ child.Carries a
  | .nil, _, h => nomatch h
  | .fixed c more, hw, h => by
    rcases List.mem_append.mp h with h | h
    · exact ⟨.fixed _, c, .fixed c more, c.carries_of_mem_gather hw.1 h⟩
    · obtain ⟨s, child, hs, hc⟩ := more.owns_of_mem_gathers hw.2 h
      exact ⟨s, child, .afterFixed c hs, hc⟩
  | .absent more, hw, h => by
    obtain ⟨s, child, hs, hc⟩ := more.owns_of_mem_gathers hw h
    exact ⟨s, child, .afterAbsent hs, hc⟩
  | .present c more, hw, h => by
    rcases List.mem_append.mp h with h | h
    · exact ⟨.optional _, c, .present c more, c.carries_of_mem_gather hw.1 h⟩
    · obtain ⟨s, child, hs, hc⟩ := more.owns_of_mem_gathers hw.2 h
      exact ⟨s, child, .afterPresent c hs, hc⟩
  | .keyed entries more, hw, h => by
    rcases List.mem_append.mp h with h | h
    · obtain ⟨key, child, hget, hc⟩ := entries.get?_of_mem_gather hw.1 h
      exact ⟨.keyed _ key, child, .keyed more hget, hc⟩
    · obtain ⟨s, child, hs, hc⟩ := more.owns_of_mem_gathers hw.2 h
      exact ⟨s, child, .afterKeyed entries hs, hc⟩
  | .contracts set more, hw, h => by
    obtain ⟨s, child, hs, hc⟩ := more.owns_of_mem_gathers hw.2 h
    exact ⟨s, child, .afterContracts set hs, hc⟩
theorem Entries.get?_of_mem_gather {m : ChildMap} {a : Annotation} : (e : Entries m) →
    e.WellFormed → a ∈ e.gather → ∃ key child, e.get? key = some child ∧ child.Carries a
  | .nil, _, h => nomatch h
  | .cons key c more, hw, h => by
    rcases List.mem_append.mp h with h | h
    · exact ⟨key, c, by rw [Entries.get?_cons, if_pos rfl], c.carries_of_mem_gather hw.2.1 h⟩
    · obtain ⟨key', child, hget, hc⟩ := more.get?_of_mem_gather hw.2.2 h
      have hne : key ≠ key' := fun he => hw.1 (he ▸ Entries.mem_keys_of_get? hget)
      exact ⟨key', child, by rw [Entries.get?_cons, if_neg hne]; exact hget, hc⟩
end

-- ---------------------------------------------------------------------------
-- Well-formedness along an address
-- ---------------------------------------------------------------------------

theorem Entries.WellFormed.get? {m : ChildMap} {key : m.Key} {child : Element m.kind} :
    {e : Entries m} → e.WellFormed → e.get? key = some child → child.WellFormed
  | .nil, _, h => nomatch h
  | .cons k c more, hw, h => by
    rw [Entries.get?_cons] at h
    split at h
    next =>
      obtain rfl := Option.some.inj h
      exact hw.2.1
    next => exact Entries.WellFormed.get? hw.2.2 h

theorem Parts.Owns.wellFormed {layout : List Slot} {p : Parts layout} {s : Step}
    {child : Element s.kind} (h : p.Owns s child) (hw : p.WellFormed) : child.WellFormed := by
  induction h with
  | fixed => exact hw.1
  | present => exact hw.1
  | keyed more hget => exact hw.1.get? hget
  | afterAbsent _ ih => exact ih hw
  | afterFixed _ _ ih | afterPresent _ _ ih | afterKeyed _ _ ih | afterContracts _ _ ih =>
    exact ih hw.2

theorem Element.WellFormed.parts {k : Kind} {e : Element k} (hw : e.WellFormed) :
    e.parts.WellFormed := by
  obtain ⟨header, parts⟩ := e
  exact hw.2

theorem Element.WellFormed.find? {x : SomeElement} {address : Address} {k : Kind} {e : Element k}
    (hw : e.WellFormed) (h : e.find? address = some x) : x.2.WellFormed := by
  induction address generalizing k with
  | nil =>
    obtain rfl := Option.some.inj h
    exact hw
  | cons s rest ih =>
    obtain ⟨child, hchild, h⟩ := Element.find?_cons.mp h
    exact ih ((e.parts.owns_of_child? hchild).wellFormed hw.parts) h

theorem Parts.wellFormed_of_mem_contractSet {layout : List Slot} {a : Annotation} :
    (p : Parts layout) → p.WellFormed → a ∈ p.contractSet → a.WellFormed
  | .nil, _, h => nomatch h
  | .fixed _ more, hw, h | .present _ more, hw, h | .keyed _ more, hw, h =>
    more.wellFormed_of_mem_contractSet hw.2 h
  | .absent more, hw, h => more.wellFormed_of_mem_contractSet hw h
  | .contracts _ _, hw, h => (AnnotationSet.wellFormed_iff.mp hw.1).1 a h

theorem Element.wellFormed_of_mem_attached {k : Kind} {e : Element k} {a : Annotation}
    (hw : e.WellFormed) (h : a ∈ e.attached) : a.WellFormed := by
  obtain ⟨header, parts⟩ := e
  rcases List.mem_append.mp h with h | h
  · exact (AnnotationSet.wellFormed_iff.mp hw.1).1 a h
  · exact parts.wellFormed_of_mem_contractSet hw.2 h

-- ---------------------------------------------------------------------------
-- Scenes
-- ---------------------------------------------------------------------------

namespace Scene

variable {s : Scene}

theorem WellFormed.parts (hw : s.WellFormed) : s.parts.WellFormed := ⟨hw.1, hw.2, trivial⟩

theorem find?_cons {first : Step} {rest : Address} {x : SomeElement} :
    s.find? (first :: rest) = some x ↔
      ∃ child, s.parts.Owns first child ∧ child.find? rest = some x := by
  simp only [find?, Option.bind_eq_some_iff, Parts.child?_eq_some_iff layout_nodup]

theorem mem_gather_iff_parts {a : Annotation} :
    a ∈ s.gather ↔ a ∈ s.parts.gathers.flatten := by
  rw [show s.parts.gathers.flatten = s.packages.gather ++ (s.classes.gather ++ []) from rfl,
    List.append_nil]
  rfl

theorem mem_gather_iff {s : Valid} {a : Annotation} : a ∈ s.gather ↔ s.Attaches a := by
  rw [mem_gather_iff_parts]
  constructor
  · intro h
    obtain ⟨first, child, hc, rest, x, hx, ha⟩ := s.parts.owns_of_mem_gathers s.wellFormed.parts h
    exact ⟨first :: rest, x, find?_cons.mpr ⟨child, hc, hx⟩, ha⟩
  · rintro ⟨_ | ⟨first, rest⟩, x, hx, ha⟩
    · nomatch hx
    obtain ⟨child, hc, hx⟩ := find?_cons.mp hx
    exact hc.gather_subset (Element.mem_gather_of_find? ha hx)

theorem Valid.wellFormed_of_attaches (s : Valid) {a : Annotation} (h : s.Attaches a) :
    a.WellFormed := by
  obtain ⟨_ | ⟨first, rest⟩, x, hx, ha⟩ := h
  · nomatch hx
  obtain ⟨child, hc, hx⟩ := find?_cons.mp hx
  exact Element.wellFormed_of_mem_attached ((hc.wellFormed s.wellFormed.parts).find? hx) ha

theorem Valid.wellFormed_of_reaches (s : Valid) {config : CollectorConfig} {d : Definition}
    (h : s.Reaches config d) : d.WellFormed := by
  induction h with
  | attached ha hm => exact hm.wellFormed (s.wellFormed_of_attaches ha)
  | uses _ hu ih => exact hu.wellFormed ih

end Scene

-- ---------------------------------------------------------------------------
-- The order of the walk
-- ---------------------------------------------------------------------------

theorem Kind.visitOrder_map {α β : Type} (k : Kind) (f : α → β) (l : List α) :
    k.visitOrder (l.map f) = (k.visitOrder l).map f := by
  cases k <;> simp [Kind.visitOrder]

theorem Kind.flatMap_flatten_visitOrder {α β : Type} (k : Kind) (f : α → List β)
    (l : List (List α)) :
    (k.visitOrder l).flatten.flatMap f = (k.visitOrder (l.map (·.flatMap f))).flatten := by
  rw [k.visitOrder_map]
  induction k.visitOrder l with
  | nil => rfl
  | cons x rest ih => simp [ih]

mutual
theorem Element.gather_eq_walk {k : Kind} : (e : Element k) →
    e.gather = e.walk.flatMap fun x => x.2.attached
  | .mk header parts => by
    rw [Element.gather, Element.walk, List.flatMap_cons, k.flatMap_flatten_visitOrder,
      parts.gathers_eq_walks]
    rfl
theorem Parts.gathers_eq_walks {layout : List Slot} : (p : Parts layout) →
    p.gathers = p.walks.map fun l => l.flatMap fun x => x.2.attached
  | .nil => rfl
  | .fixed c more | .present c more => by
    rw [Parts.gathers, Parts.walks, List.map_cons, c.gather_eq_walk, more.gathers_eq_walks]
  | .absent more | .contracts _ more => by
    rw [Parts.gathers, Parts.walks, List.map_cons, more.gathers_eq_walks, List.flatMap_nil]
  | .keyed entries more => by
    rw [Parts.gathers, Parts.walks, List.map_cons, entries.gather_eq_walk, more.gathers_eq_walks]
theorem Entries.gather_eq_walk {m : ChildMap} : (e : Entries m) →
    e.gather = e.walk.flatMap fun x => x.2.attached
  | .nil => rfl
  | .cons _ c more => by
    rw [Entries.gather, Entries.walk, List.flatMap_append, c.gather_eq_walk, more.gather_eq_walk]
end

namespace Scene

theorem gather_eq_walk (s : Scene) : s.gather = s.walk.flatMap fun x => x.2.attached := by
  rw [gather, walk, List.flatMap_append, Entries.gather_eq_walk, Entries.gather_eq_walk]

/-- The annotations at the elements of a walk, each before those nested in its values. -/
def mentioned (s : Scene) : List Annotation :=
  s.walk.flatMap fun x => x.2.attached.flatMap fun a => a :: a.nestedAnnotations

theorem mentioned_eq_gather (s : Scene) :
    s.mentioned = s.gather.flatMap fun a => a :: a.nestedAnnotations := by
  rw [gather_eq_walk, List.flatMap_assoc]
  rfl

theorem mem_mentioned_iff {s : Valid} {b : Annotation} :
    b ∈ s.mentioned ↔ ∃ a, s.Attaches a ∧ a.Mentions b := by
  simp only [mentioned_eq_gather, List.mem_flatMap, mem_gather_iff,
    Annotation.mem_cons_nestedAnnotations_iff]

end Scene

end AnnotationScene
