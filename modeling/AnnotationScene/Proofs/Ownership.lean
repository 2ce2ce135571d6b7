import AnnotationScene.Proofs.Maps
import AnnotationScene.Proofs.WellFormed

/-!
# Children and the steps that lead to them

`Parts.Owns` says where a child stands among the parts. For the layouts that occur, in which no
slot stands twice, it is what a step finds; facts about all children of an element are then shown
by going over the parts once.
-/

namespace AnnotationScene

-- ---------------------------------------------------------------------------
-- Entries of a map of children
-- ---------------------------------------------------------------------------

namespace Entries

variable {m : ChildMap}

theorem get?_cons (key : m.Key) (child : Element m.kind) (more : Entries m) (k : m.Key) :
    (cons key child more).get? k = if key = k then some child else more.get? k := by
  by_cases h : key = k <;> simp [get?, toMap, toList, OrderedMap.get?, h]

theorem mem_keys_of_get? {e : Entries m} {key : m.Key} {child : Element m.kind}
    (h : e.get? key = some child) : key ∈ e.keys :=
  OrderedMap.mem_keys_of_get? h

theorem mem_keys_iff {e : Entries m} {key : m.Key} :
    key ∈ e.keys ↔ ∃ child, e.get? key = some child :=
  OrderedMap.mem_keys_iff

end Entries

-- ---------------------------------------------------------------------------
-- Children among the parts
-- ---------------------------------------------------------------------------

inductive Parts.Owns : {layout : List Slot} → Parts layout → (s : Step) → Element s.kind → Prop
  | fixed {f : FixedChild} {rest : List Slot} (child : Element f.kind) (more : Parts rest) :
      Parts.Owns (.fixed child more) (.fixed f) child
  | present {o : OptionalChild} {rest : List Slot} (child : Element o.kind) (more : Parts rest) :
      Parts.Owns (.present child more) (.optional o) child
  | keyed {m : ChildMap} {rest : List Slot} {entries : Entries m} {key : m.Key}
      {child : Element m.kind} (more : Parts rest) : entries.get? key = some child →
      Parts.Owns (.keyed entries more) (.keyed m key) child
  | afterFixed {f : FixedChild} {rest : List Slot} {s : Step} {child : Element s.kind}
      (c : Element f.kind) {more : Parts rest} : more.Owns s child →
      Parts.Owns (.fixed c more) s child
  | afterAbsent {o : OptionalChild} {rest : List Slot} {s : Step} {child : Element s.kind}
      {more : Parts rest} : more.Owns s child → Parts.Owns (.absent (o := o) more) s child
  | afterPresent {o : OptionalChild} {rest : List Slot} {s : Step} {child : Element s.kind}
      (c : Element o.kind) {more : Parts rest} : more.Owns s child →
      Parts.Owns (.present c more) s child
  | afterKeyed {m : ChildMap} {rest : List Slot} {s : Step} {child : Element s.kind}
      (entries : Entries m) {more : Parts rest} : more.Owns s child →
      Parts.Owns (.keyed entries more) s child
  | afterContracts {rest : List Slot} {s : Step} {child : Element s.kind} (set : AnnotationSet)
      {more : Parts rest} : more.Owns s child → Parts.Owns (.contracts set more) s child

namespace Parts

variable {layout : List Slot}

theorem Owns.slot_mem {p : Parts layout} {s : Step} {child : Element s.kind}
    (h : p.Owns s child) : s.slot ∈ layout := by
  induction h with
  | fixed => exact List.mem_cons_self
  | present => exact List.mem_cons_self
  | keyed => exact List.mem_cons_self
  | afterFixed _ _ ih | afterAbsent _ ih | afterPresent _ _ ih | afterKeyed _ _ ih
  | afterContracts _ _ ih => exact List.mem_cons_of_mem _ ih

theorem child?_of_owns {p : Parts layout} {s : Step} {child : Element s.kind}
    (hl : layout.Nodup) (h : p.Owns s child) : p.child? s = some child := by
  induction h with
  | fixed child more =>
    simp only [child?, slot?, Step.slot, ↓reduceDIte]
    rfl
  | present child more =>
    simp only [child?, slot?, Step.slot, ↓reduceDIte]
    rfl
  | keyed more hget =>
    simp only [child?, slot?, Step.slot, ↓reduceDIte]
    exact hget
  | afterFixed _ hrest ih | afterAbsent hrest ih | afterPresent _ hrest ih
  | afterKeyed _ hrest ih | afterContracts _ hrest ih =>
    obtain ⟨hnot, hl⟩ := List.nodup_cons.mp hl
    simp only [child?, slot?]
    split
    next he => exact absurd (he ▸ hrest.slot_mem) hnot
    next => exact ih hl

theorem owns_of_child? : {layout : List Slot} → (p : Parts layout) → {s : Step} →
    {child : Element s.kind} → p.child? s = some child → p.Owns s child
  | _, .fixed c more, s, child, h => by
    simp only [child?, slot?] at h
    split at h
    next hs =>
      cases s <;> cases hs
      obtain rfl := Option.some.inj h
      exact .fixed c more
    next => exact .afterFixed c (more.owns_of_child? h)
  | _, .absent more, s, child, h => by
    simp only [child?, slot?] at h
    split at h
    next hs =>
      cases s <;> cases hs
      cases h
    next => exact .afterAbsent (more.owns_of_child? h)
  | _, .present c more, s, child, h => by
    simp only [child?, slot?] at h
    split at h
    next hs =>
      cases s <;> cases hs
      obtain rfl := Option.some.inj h
      exact .present c more
    next => exact .afterPresent c (more.owns_of_child? h)
  | _, .keyed entries more, s, child, h => by
    simp only [child?, slot?] at h
    split at h
    next hs =>
      cases s <;> cases hs
      exact .keyed more h
    next => exact .afterKeyed entries (more.owns_of_child? h)
  | _, .contracts set more, s, child, h => by
    simp only [child?, slot?] at h
    split at h
    next hs =>
      cases s <;> cases hs
    next => exact .afterContracts set (more.owns_of_child? h)

theorem child?_eq_some_iff (hl : layout.Nodup) {p : Parts layout} {s : Step}
    {child : Element s.kind} : p.child? s = some child ↔ p.Owns s child :=
  ⟨p.owns_of_child?, child?_of_owns hl⟩

end Parts

theorem Kind.layout_nodup (k : Kind) : k.layout.Nodup := by
  cases k <;> decide

theorem Scene.layout_nodup : Scene.layout.Nodup := by decide

/-- The annotation is at the element or at one that an address leads to from it. -/
def Element.Carries {k : Kind} (e : Element k) (a : Annotation) : Prop :=
  ∃ address x, e.find? address = some x ∧ a ∈ x.2.attached

end AnnotationScene
