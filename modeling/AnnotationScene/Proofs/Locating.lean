import AnnotationScene.Element.Edit
import AnnotationScene.Proofs.Walking
import Mathlib.Data.List.Nodup

/-!
# Every annotation once

`located` is the walk with the address of each element. It lists each address that leads somewhere
just once, although it goes by slots and entries: no slot stands twice in a layout and no key twice
in a map. Gathering takes the sets of the elements in this order, so it meets each annotation of a
set as often as the set lists it, and nothing else.
-/

namespace AnnotationScene

/-- An element of a walk with the address that leads to it. -/
abbrev Located := Address × SomeElement

def Located.below (s : Step) (x : Located) : Located := (s :: x.1, x.2)

mutual
def Element.located {k : Kind} : Element k → List Located
  | .mk header parts => ([], ⟨k, .mk header parts⟩) :: (k.visitOrder parts.located).flatten
def Parts.located {layout : List Slot} : Parts layout → List (List Located)
  | .nil => []
  | .fixed (f := f) child more => child.located.map (Located.below (.fixed f)) :: more.located
  | .absent more => [] :: more.located
  | .present (o := o) child more =>
    child.located.map (Located.below (.optional o)) :: more.located
  | .keyed entries more => entries.located :: more.located
  | .contracts _ more => [] :: more.located
def Entries.located {m : ChildMap} : Entries m → List Located
  | .nil => []
  | .cons key child more => child.located.map (Located.below (.keyed m key)) ++ more.located
end

def Scene.located (s : Scene) : List Located := s.packages.located ++ s.classes.located

-- ---------------------------------------------------------------------------
-- The order is that of the walk
-- ---------------------------------------------------------------------------

theorem Located.map_snd_below (s : Step) (l : List Located) :
    (l.map (Located.below s)).map Prod.snd = l.map Prod.snd := by
  rw [List.map_map]
  rfl

mutual
theorem Element.walk_eq_located {k : Kind} : (e : Element k) → e.walk = e.located.map Prod.snd
  | .mk header parts => by
    rw [Element.walk, Element.located, List.map_cons, List.map_flatten, ← k.visitOrder_map,
      parts.walks_eq_located]
theorem Parts.walks_eq_located {layout : List Slot} : (p : Parts layout) →
    p.walks = p.located.map (List.map Prod.snd)
  | .nil => rfl
  | .fixed c more | .present c more => by
    rw [Parts.walks, Parts.located, List.map_cons, Located.map_snd_below, c.walk_eq_located,
      more.walks_eq_located]
  | .absent more | .contracts _ more => by
    rw [Parts.walks, Parts.located, List.map_cons, more.walks_eq_located, List.map_nil]
  | .keyed entries more => by
    rw [Parts.walks, Parts.located, List.map_cons, entries.walk_eq_located,
      more.walks_eq_located]
theorem Entries.walk_eq_located {m : ChildMap} : (e : Entries m) →
    e.walk = e.located.map Prod.snd
  | .nil => rfl
  | .cons _ c more => by
    rw [Entries.walk, Entries.located, List.map_append, Located.map_snd_below,
      c.walk_eq_located, more.walk_eq_located]
end

-- ---------------------------------------------------------------------------
-- From addresses to what is located
-- ---------------------------------------------------------------------------

theorem Located.mem_map_below {s : Step} {l : List Located} {a : Address} {x : SomeElement} :
    (a, x) ∈ l.map (Located.below s) ↔ ∃ rest, a = s :: rest ∧ (rest, x) ∈ l := by
  constructor
  · intro h
    obtain ⟨⟨rest, y⟩, hmem, heq⟩ := List.mem_map.mp h
    obtain ⟨rfl, rfl⟩ := Prod.mk.inj heq
    exact ⟨rest, rfl, hmem⟩
  · rintro ⟨rest, rfl, hmem⟩
    exact List.mem_map.mpr ⟨(rest, x), hmem, rfl⟩

theorem Element.mem_located {k : Kind} {e : Element k} {y : Located} :
    y ∈ e.located ↔ y = ([], ⟨k, e⟩) ∨ y ∈ e.parts.located.flatten := by
  obtain ⟨header, parts⟩ := e
  rw [Element.located, List.mem_cons, k.mem_flatten_visitOrder]
  rfl

theorem Entries.map_below_subset {m : ChildMap} {key : m.Key} {child : Element m.kind} :
    (e : Entries m) → e.get? key = some child →
    child.located.map (Located.below (.keyed m key)) ⊆ e.located
  | .nil, h => nomatch h
  | .cons k c more, h => by
    rw [Entries.get?_cons] at h
    rw [Entries.located]
    split at h
    next he =>
      subst he
      obtain rfl := Option.some.inj h
      exact List.subset_append_left _ _
    next => exact List.subset_append_of_subset_right _ (more.map_below_subset h)

theorem Parts.Owns.map_below_subset {layout : List Slot} {p : Parts layout} {s : Step}
    {child : Element s.kind} (h : p.Owns s child) :
    child.located.map (Located.below s) ⊆ p.located.flatten := by
  induction h with
  | fixed child more => exact List.subset_append_left _ _
  | present child more => exact List.subset_append_left _ _
  | keyed more hget =>
    exact List.subset_append_of_subset_left _ (Entries.map_below_subset _ hget)
  | afterFixed _ _ ih | afterAbsent _ ih | afterPresent _ _ ih | afterKeyed _ _ ih
  | afterContracts _ _ ih => exact List.subset_append_of_subset_right _ ih

theorem Element.mem_located_of_find? {x : SomeElement} {a : Address} {k : Kind} {e : Element k}
    (h : e.find? a = some x) : (a, x) ∈ e.located := by
  rw [Element.mem_located]
  induction a generalizing k with
  | nil =>
    obtain rfl := Option.some.inj h
    exact .inl rfl
  | cons s rest ih =>
    obtain ⟨child, hchild, h⟩ := Element.find?_cons.mp h
    have hmem : (rest, x) ∈ child.located := Element.mem_located.mpr (ih h)
    exact .inr ((e.parts.owns_of_child? hchild).map_below_subset
      (Located.mem_map_below.mpr ⟨rest, rfl, hmem⟩))

-- ---------------------------------------------------------------------------
-- From what is located to addresses
-- ---------------------------------------------------------------------------

theorem Entries.get?_of_mem_located {m : ChildMap} {a : Address} {x : SomeElement} :
    (e : Entries m) → e.WellFormed → (a, x) ∈ e.located →
    ∃ key child rest, e.get? key = some child ∧ a = .keyed m key :: rest ∧
      (rest, x) ∈ child.located
  | .nil, _, h => nomatch h
  | .cons k c more, hw, h => by
    rcases List.mem_append.mp h with h | h
    · obtain ⟨rest, rfl, hmem⟩ := Located.mem_map_below.mp h
      exact ⟨k, c, rest, by rw [Entries.get?_cons, if_pos rfl], rfl, hmem⟩
    · obtain ⟨key, child, rest, hget, rfl, hmem⟩ := more.get?_of_mem_located hw.2.2 h
      have hne : k ≠ key := fun he => hw.1 (he ▸ Entries.mem_keys_of_get? hget)
      exact ⟨key, child, rest, by rw [Entries.get?_cons, if_neg hne]; exact hget, rfl, hmem⟩

theorem Parts.owns_of_mem_located {a : Address} {x : SomeElement} : {layout : List Slot} →
    (p : Parts layout) → p.WellFormed → (a, x) ∈ p.located.flatten →
    ∃ s child rest, p.Owns s child ∧ a = s :: rest ∧ (rest, x) ∈ child.located
  | _, .nil, _, h => nomatch h
  | _, .fixed (f := f) c more, hw, h => by
    rcases List.mem_append.mp h with h | h
    · obtain ⟨rest, rfl, hmem⟩ := Located.mem_map_below.mp h
      exact ⟨.fixed f, c, rest, .fixed c more, rfl, hmem⟩
    · obtain ⟨s, child, rest, howns, rfl, hmem⟩ := more.owns_of_mem_located hw.2 h
      exact ⟨s, child, rest, .afterFixed c howns, rfl, hmem⟩
  | _, .absent more, hw, h => by
    obtain ⟨s, child, rest, howns, rfl, hmem⟩ := more.owns_of_mem_located hw h
    exact ⟨s, child, rest, .afterAbsent howns, rfl, hmem⟩
  | _, .present (o := o) c more, hw, h => by
    rcases List.mem_append.mp h with h | h
    · obtain ⟨rest, rfl, hmem⟩ := Located.mem_map_below.mp h
      exact ⟨.optional o, c, rest, .present c more, rfl, hmem⟩
    · obtain ⟨s, child, rest, howns, rfl, hmem⟩ := more.owns_of_mem_located hw.2 h
      exact ⟨s, child, rest, .afterPresent c howns, rfl, hmem⟩
  | _, .keyed (m := m) entries more, hw, h => by
    rcases List.mem_append.mp h with h | h
    · obtain ⟨key, child, rest, hget, rfl, hmem⟩ := entries.get?_of_mem_located hw.1 h
      exact ⟨.keyed m key, child, rest, .keyed more hget, rfl, hmem⟩
    · obtain ⟨s, child, rest, howns, rfl, hmem⟩ := more.owns_of_mem_located hw.2 h
      exact ⟨s, child, rest, .afterKeyed entries howns, rfl, hmem⟩
  | _, .contracts set more, hw, h => by
    obtain ⟨s, child, rest, howns, rfl, hmem⟩ := more.owns_of_mem_located hw.2 h
    exact ⟨s, child, rest, .afterContracts set howns, rfl, hmem⟩

theorem Element.find?_of_mem_located {x : SomeElement} {a : Address} {k : Kind} {e : Element k}
    (hw : e.WellFormed) (h : (a, x) ∈ e.located) : e.find? a = some x := by
  induction a generalizing k with
  | nil =>
    rcases Element.mem_located.mp h with h | h
    · obtain ⟨-, rfl⟩ := Prod.mk.inj h
      rfl
    · obtain ⟨_, _, _, -, ha, -⟩ := e.parts.owns_of_mem_located hw.parts h
      cases ha
  | cons s rest ih =>
    rcases Element.mem_located.mp h with h | h
    · cases h
    · obtain ⟨_, child, _, howns, ha, hmem⟩ := e.parts.owns_of_mem_located hw.parts h
      obtain ⟨rfl, rfl⟩ := List.cons.inj ha
      exact Element.find?_cons.mpr ⟨child, Parts.child?_of_owns k.layout_nodup howns,
        ih (howns.wellFormed hw.parts) hmem⟩

-- ---------------------------------------------------------------------------
-- No address twice
-- ---------------------------------------------------------------------------

theorem Located.map_fst_below (s : Step) (l : List Located) :
    (l.map (Located.below s)).map Prod.fst = (l.map Prod.fst).map (s :: ·) := by
  rw [List.map_map, List.map_map]
  rfl

theorem Located.nodup_below (s : Step) {l : List Located} (h : (l.map Prod.fst).Nodup) :
    ((l.map (Located.below s)).map Prod.fst).Nodup := by
  rw [Located.map_fst_below]
  exact h.map fun _ _ heq => (List.cons.inj heq).2

def Located.StartsIn (slot : Slot) (l : List Located) : Prop :=
  ∀ a x, (a, x) ∈ l → ∃ s rest, a = s :: rest ∧ s.slot = slot

theorem Located.startsIn_below (s : Step) (l : List Located) :
    Located.StartsIn s.slot (l.map (Located.below s)) := by
  intro a x h
  obtain ⟨rest, rfl, -⟩ := Located.mem_map_below.mp h
  exact ⟨s, rest, rfl, rfl⟩

theorem Entries.startsIn_located {m : ChildMap} {e : Entries m} (hw : e.WellFormed) :
    Located.StartsIn (.keyed m) e.located := by
  intro a x h
  obtain ⟨key, _, rest, -, rfl, -⟩ := e.get?_of_mem_located hw h
  exact ⟨.keyed m key, rest, rfl, rfl⟩

/-- What starts in the first slot meets nothing that starts in a later one. -/
theorem Parts.nodup_append_located {t : Slot} {slots : List Slot} {more : Parts slots}
    (hw : more.WellFormed) (ht : t ∉ slots) {l : List Located} (hl : Located.StartsIn t l)
    (hnodup : (l.map Prod.fst).Nodup) (hmore : (more.located.flatten.map Prod.fst).Nodup) :
    ((l ++ more.located.flatten).map Prod.fst).Nodup := by
  rw [List.map_append]
  refine hnodup.append hmore fun a ha ha' => ?_
  obtain ⟨⟨_, x⟩, hx, rfl⟩ := List.mem_map.mp ha
  obtain ⟨⟨_, y⟩, hy, rfl⟩ := List.mem_map.mp ha'
  obtain ⟨s, _, rfl, rfl⟩ := hl _ _ hx
  obtain ⟨_, _, _, howns, heq, -⟩ := more.owns_of_mem_located hw hy
  obtain ⟨rfl, -⟩ := List.cons.inj heq
  exact ht howns.slot_mem

mutual
theorem Element.nodup_located {k : Kind} : (e : Element k) → e.WellFormed →
    (e.located.map Prod.fst).Nodup
  | .mk header parts, hw => by
    have hperm := (k.visitOrder_perm parts.located).flatten
    rw [Element.located, List.map_cons, List.nodup_cons, (hperm.map _).mem_iff,
      (hperm.map _).nodup_iff]
    refine ⟨fun h => ?_, parts.nodup_located hw.2 k.layout_nodup⟩
    obtain ⟨⟨_, x⟩, hx, rfl⟩ := List.mem_map.mp h
    obtain ⟨_, _, _, -, heq, -⟩ := parts.owns_of_mem_located hw.2 hx
    cases heq
theorem Parts.nodup_located : {layout : List Slot} → (p : Parts layout) → p.WellFormed →
    layout.Nodup → (p.located.flatten.map Prod.fst).Nodup
  | _, .nil, _, _ => List.nodup_nil
  | _, .fixed (f := f) c more, hw, hl => by
    obtain ⟨hnot, hl⟩ := List.nodup_cons.mp hl
    exact Parts.nodup_append_located hw.2 hnot (Located.startsIn_below (.fixed f) _)
      (Located.nodup_below _ (c.nodup_located hw.1)) (more.nodup_located hw.2 hl)
  | _, .absent more, hw, hl => more.nodup_located hw hl.of_cons
  | _, .present (o := o) c more, hw, hl => by
    obtain ⟨hnot, hl⟩ := List.nodup_cons.mp hl
    exact Parts.nodup_append_located hw.2 hnot (Located.startsIn_below (.optional o) _)
      (Located.nodup_below _ (c.nodup_located hw.1)) (more.nodup_located hw.2 hl)
  | _, .keyed entries more, hw, hl => by
    obtain ⟨hnot, hl⟩ := List.nodup_cons.mp hl
    exact Parts.nodup_append_located hw.2 hnot (Entries.startsIn_located hw.1)
      (entries.nodup_located hw.1) (more.nodup_located hw.2 hl)
  | _, .contracts _ more, hw, hl => more.nodup_located hw.2 hl.of_cons
theorem Entries.nodup_located {m : ChildMap} : (e : Entries m) → e.WellFormed →
    (e.located.map Prod.fst).Nodup
  | .nil, _ => List.nodup_nil
  | .cons key c more, hw => by
    rw [Entries.located, List.map_append]
    refine (Located.nodup_below _ (c.nodup_located hw.2.1)).append
      (more.nodup_located hw.2.2) fun a ha ha' => ?_
    obtain ⟨⟨_, x⟩, hx, rfl⟩ := List.mem_map.mp ha
    obtain ⟨⟨_, y⟩, hy, rfl⟩ := List.mem_map.mp ha'
    obtain ⟨_, rfl, -⟩ := Located.mem_map_below.mp hx
    obtain ⟨key', _, _, hget, heq, -⟩ := more.get?_of_mem_located hw.2.2 hy
    obtain ⟨hkey, -⟩ := List.cons.inj heq
    cases hkey
    exact hw.1 (Entries.mem_keys_of_get? hget)
end

-- ---------------------------------------------------------------------------
-- Scenes
-- ---------------------------------------------------------------------------

namespace Scene

variable {s : Scene}

theorem located_eq_parts (s : Scene) : s.located = s.parts.located.flatten := by
  rw [show s.parts.located.flatten = s.packages.located ++ (s.classes.located ++ []) from rfl,
    List.append_nil]
  rfl

theorem walk_eq_located (s : Scene) : s.walk = s.located.map Prod.snd := by
  rw [walk, located, List.map_append, Entries.walk_eq_located, Entries.walk_eq_located]

theorem mem_located_of_find? {a : Address} {x : SomeElement} (h : s.find? a = some x) :
    (a, x) ∈ s.located := by
  rw [located_eq_parts]
  cases a with
  | nil => cases h
  | cons first rest =>
    obtain ⟨child, howns, h⟩ := find?_cons.mp h
    exact howns.map_below_subset
      (Located.mem_map_below.mpr ⟨rest, rfl, Element.mem_located_of_find? h⟩)

theorem find?_of_mem_located {s : Valid} {a : Address} {x : SomeElement}
    (h : (a, x) ∈ s.located) : s.find? a = some x := by
  have hw := s.wellFormed
  rw [located_eq_parts] at h
  obtain ⟨first, child, rest, howns, rfl, hmem⟩ := s.parts.owns_of_mem_located hw.parts h
  exact find?_cons.mpr
    ⟨child, howns, Element.find?_of_mem_located (howns.wellFormed hw.parts) hmem⟩

/-- What is gathered, set by set: at each address that leads somewhere, and once for each, the
annotations of the element and then, if it is a method, its contracts. The addresses come in the
order of the walk. -/
theorem gather_visits_each_once (s : Valid) :
    (∀ a x, (a, x) ∈ s.located ↔ s.find? a = some x) ∧
    (s.located.map Prod.fst).Nodup ∧
    s.located.map Prod.snd = s.walk ∧
    s.gather = s.located.flatMap (fun y => y.2.2.annotations ++ y.2.2.contracts) ∧
    ∀ y ∈ s.located, y.2.1 ≠ .method → y.2.2.contracts = [] := by
  refine ⟨fun a x => ⟨find?_of_mem_located, mem_located_of_find?⟩, ?_,
    s.walk_eq_located.symm, ?_, ?_⟩
  · rw [located_eq_parts]
    exact s.parts.nodup_located s.wellFormed.parts layout_nodup
  · rw [gather_eq_walk, walk_eq_located, List.flatMap_map]
    rfl
  · intro y _ hk
    exact y.2.2.contracts_eq_nil hk

theorem gather_visits_each_once_lambda :
    let mark (name : String) : Annotation := .marker (.ofName name "p")
    let lambda := ((Element.method "lambda").withAnnotations [mark "L"]).withContracts [mark "K"]
    let body := (Element.block "m()V").withParts
      ((Element.block "m()V").parts.setSlot (.keyed .lambdas) (.cons ⟨3, -1, 0⟩ lambda .nil))
    let method := ((Element.method "m()V").withAnnotations [mark "M"]).withContracts [mark "N"]
    let start := (Element.block "<clinit>").withAnnotations [mark "S"]
    let field := (Element.field "f").withAnnotations [mark "F"]
    let owner := (Element.classType "C").withAnnotations [mark "C"]
    let members := ((owner.parts.setSlot (.keyed .methods)
      (.cons "m()V" (method.withParts (method.parts.setSlot (.fixed .body) body)) .nil)).setSlot
        (.keyed .staticInits) (.cons 0 start .nil)).setSlot (.keyed .fields) (.cons "f" field .nil)
    let s : Scene := { classes := .cons "C" (owner.withParts members) .nil }
    s.WellFormed ∧ s.gather.map (·.name) = ["C", "M", "N", "L", "K", "F", "S"] ∧
      (s.located.map Prod.fst).Nodup ∧ ∀ a x, (a, x) ∈ s.located ↔ s.find? a = some x := by
  intro mark lambda body method start field owner members s
  have hw : s.WellFormed := by decide
  obtain ⟨hfound, hnodup, -⟩ := gather_visits_each_once ⟨s, hw⟩
  exact ⟨hw, by decide +kernel, hnodup, hfound⟩

end Scene

end AnnotationScene
