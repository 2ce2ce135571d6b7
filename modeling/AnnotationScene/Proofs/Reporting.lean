import AnnotationScene.Proofs.Congruence
import AnnotationScene.Proofs.Slots
import Mathlib.Algebra.GroupWithZero.Nat
import Mathlib.Algebra.Order.BigOperators.Group.List
import Mathlib.Algebra.Order.Group.Nat

/-!
# What pruning reports

Pruning works from the inside out, and each map that drops entries says how many. `losses` lists
these maps with their addresses in the order of their events. The entries they drop are all that
the scene loses, at any depth: what is dropped with its owner was dropped from its own map before.
-/

namespace AnnotationScene

/-- A map that pruning drops entries from, with how many it drops and how many it keeps. -/
structure MapLoss where
  address : Address
  map : ChildMap
  dropped : Nat
  kept : Nat

namespace MapLoss

def event (x : MapLoss) : Event := .prunedMap x.dropped x.kept

def below (s : Step) (x : MapLoss) : MapLoss := { x with address := s :: x.address }

/-- The other map is this one, or it is at or below an entry of this one. -/
def Covers (x y : MapLoss) : Prop :=
  (y.address = x.address ∧ y.map = x.map) ∨
    ∃ key rest, y.address = x.address ++ .keyed x.map key :: rest

/-- The slot in which the way to the map starts, or in which the map itself is. -/
def slot (x : MapLoss) : Slot :=
  match x.address with
  | [] => .keyed x.map
  | s :: _ => s.slot

end MapLoss

/-- How many entries the event says were dropped from a map. -/
def Event.dropped : Event → Nat
  | .prunedMap dropped _ => dropped
  | _ => 0

def Entries.loss {m : ChildMap} (e : Entries m) : List MapLoss :=
  if e.prune.size < e.size then [⟨[], m, e.size - e.prune.size, e.prune.size⟩] else []

mutual
def Element.losses {k : Kind} : Element k → List MapLoss
  | .mk _ parts => if k = .cast then [] else parts.losses
def Parts.losses {layout : List Slot} : Parts layout → List MapLoss
  | .nil => []
  | .fixed (f := f) child more => child.losses.map (MapLoss.below (.fixed f)) ++ more.losses
  | .absent more => more.losses
  | .present (o := o) child more => child.losses.map (MapLoss.below (.optional o)) ++ more.losses
  | .keyed entries more => entries.childLosses ++ entries.loss ++ more.losses
  | .contracts _ more => more.losses
def Entries.childLosses {m : ChildMap} : Entries m → List MapLoss
  | .nil => []
  | .cons key child more => child.losses.map (MapLoss.below (.keyed m key)) ++ more.childLosses
end

def Scene.losses (s : Scene) : List MapLoss := s.parts.losses

-- The entries of all maps, at any depth. Maps below casts count too: pruning keeps them.
mutual
def Element.entryCount {k : Kind} : Element k → Nat
  | .mk _ parts => parts.entryCount
def Parts.entryCount {layout : List Slot} : Parts layout → Nat
  | .nil => 0
  | .fixed child more => child.entryCount + more.entryCount
  | .absent more => more.entryCount
  | .present child more => child.entryCount + more.entryCount
  | .keyed entries more => entries.entryCount + more.entryCount
  | .contracts _ more => more.entryCount
def Entries.entryCount {m : ChildMap} : Entries m → Nat
  | .nil => 0
  | .cons _ child more => 1 + child.entryCount + more.entryCount
end

def Scene.entryCount (s : Scene) : Nat := s.packages.entryCount + s.classes.entryCount

-- ---------------------------------------------------------------------------
-- The events are those of the losses
-- ---------------------------------------------------------------------------

theorem MapLoss.map_event_below (s : Step) (l : List MapLoss) :
    (l.map (MapLoss.below s)).map MapLoss.event = l.map MapLoss.event := by
  simp [MapLoss.event, MapLoss.below]

theorem Entries.tally_eq_loss {m : ChildMap} (e : Entries m) :
    OrderedMap.tally e.size e.prune.size = e.loss.map MapLoss.event := by
  unfold OrderedMap.tally Entries.loss
  split <;> simp [MapLoss.event]

mutual
theorem Element.pruneEvents_eq_losses {k : Kind} : (e : Element k) →
    e.pruneEvents = e.losses.map MapLoss.event
  | .mk _ parts => by
    by_cases h : k = .cast
    · simp [Element.pruneEvents, Element.losses, h]
    · simp [Element.pruneEvents, Element.losses, h, parts.pruneEvents_eq_losses]
theorem Parts.pruneEvents_eq_losses {layout : List Slot} : (p : Parts layout) →
    p.pruneEvents = p.losses.map MapLoss.event
  | .nil => rfl
  | .fixed c more | .present c more => by
    simp only [Parts.pruneEvents, Parts.losses, List.map_append, MapLoss.map_event_below,
      c.pruneEvents_eq_losses, more.pruneEvents_eq_losses]
  | .absent more | .contracts _ more => by
    simp only [Parts.pruneEvents, Parts.losses, more.pruneEvents_eq_losses]
  | .keyed entries more => by
    simp only [Parts.pruneEvents, Parts.losses, List.map_append, entries.childEvents_eq_losses,
      entries.tally_eq_loss, more.pruneEvents_eq_losses]
theorem Entries.childEvents_eq_losses {m : ChildMap} : (e : Entries m) →
    e.childEvents = e.childLosses.map MapLoss.event
  | .nil => rfl
  | .cons _ c more => by
    simp only [Entries.childEvents, Entries.childLosses, List.map_append,
      MapLoss.map_event_below, c.pruneEvents_eq_losses, more.childEvents_eq_losses]
end

-- ---------------------------------------------------------------------------
-- What is dropped is what is lost
-- ---------------------------------------------------------------------------

mutual
theorem Element.entryCount_prune_of_isVacuous {k : Kind} : (e : Element k) →
    e.isVacuous = true → e.prune.entryCount = 0
  | .mk header parts, hv => by
    simp only [Element.isVacuous, Header.isVacuous, Bool.and_eq_true, bne_iff_ne] at hv
    obtain ⟨⟨hk, -⟩, hv⟩ := hv
    rw [Element.prune, if_neg hk]
    exact parts.entryCount_prune_of_isVacuous hv
theorem Parts.entryCount_prune_of_isVacuous {layout : List Slot} : (p : Parts layout) →
    p.isVacuous = true → p.prune.entryCount = 0
  | .nil, _ => rfl
  | .fixed c more, hv | .present (o := .type) c more, hv => by
    simp only [Parts.isVacuous, Bool.and_eq_true] at hv
    simp only [Parts.prune, Parts.entryCount, c.entryCount_prune_of_isVacuous hv.1,
      more.entryCount_prune_of_isVacuous hv.2]
  | .absent more, hv => more.entryCount_prune_of_isVacuous hv
  | .present (o := .init) c more, hv => by
    simp only [Parts.isVacuous, Bool.and_eq_true] at hv
    simp only [Parts.prune, c.isVacuous_prune, hv.1, ↓reduceIte, Parts.entryCount,
      more.entryCount_prune_of_isVacuous hv.2]
  | .keyed entries more, hv => by
    simp only [Parts.isVacuous, Bool.and_eq_true] at hv
    simp only [Parts.prune, Parts.entryCount, entries.entryCount_prune_of_isVacuous hv.1,
      more.entryCount_prune_of_isVacuous hv.2]
  | .contracts _ more, hv => by
    simp only [Parts.isVacuous, Bool.and_eq_true] at hv
    exact more.entryCount_prune_of_isVacuous hv.2
theorem Entries.entryCount_prune_of_isVacuous {m : ChildMap} : (e : Entries m) →
    e.isVacuous = true → e.prune.entryCount = 0
  | .nil, _ => rfl
  | .cons _ c more, hv => by
    simp only [Entries.isVacuous, Bool.and_eq_true] at hv
    simp only [Entries.prune, c.isVacuous_prune, hv.1, ↓reduceIte]
    exact more.entryCount_prune_of_isVacuous hv.2
end

theorem Entries.size_prune {m : ChildMap} (e : Entries m) :
    e.values.countP Element.isVacuous + e.prune.size = e.size := by
  have hkept : e.prune.size = (e.toList.filter fun x => !x.2.isVacuous).length := by
    change e.prune.toList.length = _
    rw [e.toList_prune, List.length_map]
  have hdropped : e.values.countP Element.isVacuous = e.toList.countP fun x => x.2.isVacuous := by
    change (e.toList.map Prod.snd).countP _ = _
    rw [List.countP_map]
    rfl
  rw [hkept, hdropped, ← List.countP_eq_length_filter]
  change _ = e.toList.length
  rw [List.length_eq_countP_add_countP fun x => x.2.isVacuous]
  simp

theorem Event.sum_dropped_tally {before after : Nat} (h : after ≤ before) :
    ((OrderedMap.tally before after).map Event.dropped).sum + after = before := by
  unfold OrderedMap.tally
  split
  next =>
    simp only [List.map_cons, List.map_nil, List.sum_singleton, Event.dropped]
    omega
  next =>
    simp only [List.map_nil, List.sum_nil]
    omega

mutual
theorem Element.sum_dropped_pruneEvents {k : Kind} : (e : Element k) →
    (e.pruneEvents.map Event.dropped).sum + e.prune.entryCount = e.entryCount
  | .mk _ parts => by
    have ih := parts.sum_dropped_pruneEvents
    by_cases h : k = .cast
    · simp [Element.pruneEvents, Element.prune, h]
    · simpa [Element.pruneEvents, Element.prune, h, Element.entryCount] using ih
theorem Parts.sum_dropped_pruneEvents {layout : List Slot} : (p : Parts layout) →
    (p.pruneEvents.map Event.dropped).sum + p.prune.entryCount = p.entryCount
  | .nil => rfl
  | .fixed c more | .present (o := .type) c more => by
    have ihc := c.sum_dropped_pruneEvents
    have ih := more.sum_dropped_pruneEvents
    simp only [Parts.pruneEvents, Parts.prune, Parts.entryCount, List.map_append, List.sum_append]
    omega
  | .absent more | .contracts _ more => more.sum_dropped_pruneEvents
  | .present (o := .init) c more => by
    have ihc := c.sum_dropped_pruneEvents
    have ih := more.sum_dropped_pruneEvents
    simp only [Parts.pruneEvents, Parts.prune, c.isVacuous_prune, List.map_append, List.sum_append]
    split
    next hv =>
      have hzero := c.entryCount_prune_of_isVacuous hv
      simp only [Parts.entryCount]
      omega
    next =>
      simp only [Parts.entryCount]
      omega
  | .keyed entries more => by
    have ihe := entries.sum_dropped_childEvents
    have ih := more.sum_dropped_pruneEvents
    have hsize := entries.size_prune
    have hown := Event.sum_dropped_tally (show entries.prune.size ≤ entries.size by omega)
    simp only [Parts.pruneEvents, Parts.prune, Parts.entryCount, List.map_append, List.sum_append]
    omega
/-- The events of the children, and that of the map itself as the difference of its sizes. -/
theorem Entries.sum_dropped_childEvents {m : ChildMap} : (e : Entries m) →
    (e.childEvents.map Event.dropped).sum + e.size + e.prune.entryCount =
      e.entryCount + e.prune.size
  | .nil => rfl
  | .cons key c more => by
    have ihc := c.sum_dropped_pruneEvents
    have ih := more.sum_dropped_childEvents
    have hsize : (Entries.cons key c more).size = more.size + 1 := rfl
    simp only [Entries.childEvents, Entries.prune, c.isVacuous_prune, List.map_append,
      List.sum_append, Entries.entryCount, hsize]
    split
    next hv =>
      have hzero := c.entryCount_prune_of_isVacuous hv
      omega
    next =>
      have hkept : (Entries.cons key c.prune more.prune).size = more.prune.size + 1 := rfl
      simp only [Entries.entryCount, hkept]
      omega
end

-- ---------------------------------------------------------------------------
-- Which maps lose entries
-- ---------------------------------------------------------------------------

/-- Pruning drops so many entries of the map, at least one, and keeps so many. -/
def Entries.Drops {m : ChildMap} (e : Entries m) (dropped kept : Nat) : Prop :=
  0 < dropped ∧ dropped = e.values.countP Element.isVacuous ∧ dropped + kept = e.size

theorem Entries.mem_loss {m : ChildMap} {e : Entries m} {x : MapLoss} :
    x ∈ e.loss ↔ x.address = [] ∧ x.map = m ∧ e.Drops x.dropped x.kept := by
  have hsize := e.size_prune
  obtain ⟨address, map, dropped, kept⟩ := x
  unfold Entries.loss Entries.Drops
  split
  next =>
    simp only [List.mem_singleton, MapLoss.mk.injEq]
    refine and_congr_right fun _ => and_congr_right fun _ => ?_
    omega
  next =>
    simp only [List.not_mem_nil, false_iff]
    rintro ⟨-, -, hpos, hdropped, -⟩
    omega

theorem Entries.childLosses_eq {m : ChildMap} (e : Entries m) : e.childLosses =
    e.toList.flatMap fun x => x.2.losses.map (MapLoss.below (.keyed m x.1)) := by
  induction e using Entries.induct with
  | nil => rfl
  | cons key child more ih => rw [Entries.childLosses, Entries.toList, List.flatMap_cons, ih]

theorem Entries.mem_childLosses {m : ChildMap} {e : Entries m} (hw : e.WellFormed)
    {x : MapLoss} : x ∈ e.childLosses ↔
      ∃ key child y, e.get? key = some child ∧ y ∈ child.losses ∧ x = y.below (.keyed m key) := by
  rw [e.childLosses_eq, List.mem_flatMap]
  constructor
  · rintro ⟨⟨key, child⟩, hmem, hx⟩
    obtain ⟨y, hy, rfl⟩ := List.mem_map.mp hx
    exact ⟨key, child, y, OrderedMap.get?_of_mem_entries (Entries.keys_nodup hw) hmem, hy, rfl⟩
  · rintro ⟨key, child, y, hget, hy, rfl⟩
    exact ⟨(key, child), OrderedMap.mem_entries_of_get? hget, List.mem_map_of_mem hy⟩

def Slot.losses : (t : Slot) → t.Content → List MapLoss
  | .fixed f, child => (Element.losses child).map (MapLoss.below (.fixed f))
  | .optional o, child => (child.elim [] Element.losses).map (MapLoss.below (.optional o))
  | .keyed _, entries => Entries.childLosses entries ++ Entries.loss entries
  | .contracts, _ => []

theorem Parts.losses_cons {t : Slot} {rest : List Slot} (p : Parts (t :: rest)) :
    p.losses = t.losses p.head ++ p.tail.losses := by
  cases p <;> simp [Parts.losses, Slot.losses, head, tail]

theorem Parts.mem_losses_iff_slots {layout : List Slot} (hl : layout.Nodup) {p : Parts layout}
    {x : MapLoss} :
    x ∈ p.losses ↔ ∃ t content, p.slot? t = some content ∧ x ∈ t.losses content := by
  induction layout with
  | nil =>
    cases p
    simp [Parts.losses, Parts.slot?]
  | cons t rest ih =>
    obtain ⟨ht, hl⟩ := List.nodup_cons.mp hl
    rw [p.losses_cons, List.mem_append, ih hl]
    constructor
    · rintro (hx | ⟨u, content, hu, hx⟩)
      · exact ⟨t, p.head, p.slot?_head, hx⟩
      · have htu : t ≠ u := by
          rintro rfl
          rw [slot?_eq_none ht] at hu
          cases hu
        exact ⟨u, content, by rw [slot?_tail htu, hu], hx⟩
    · rintro ⟨u, content, hu, hx⟩
      by_cases htu : t = u
      · subst htu
        rw [slot?_head] at hu
        exact .inl (Option.some.inj hu ▸ hx)
      · rw [slot?_tail htu] at hu
        exact .inr ⟨u, content, hu, hx⟩

section

variable {layout : List Slot} {p : Parts layout} (hl : layout.Nodup) (hw : p.WellFormed)
include hl hw

/-- The losses of parts are those of the children, one step further down, and those of their own
maps. -/
theorem Parts.mem_losses_iff {x : MapLoss} : x ∈ p.losses ↔
    (∃ s child y, p.child? s = some child ∧ y ∈ child.losses ∧ x = y.below s) ∨
      ∃ m entries, p.slot? (.keyed m) = some entries ∧ x ∈ entries.loss := by
  rw [Parts.mem_losses_iff_slots hl]
  constructor
  · rintro ⟨t, content, ht, hx⟩
    cases t with
    | fixed f =>
      obtain ⟨y, hy, rfl⟩ := List.mem_map.mp hx
      exact .inl ⟨.fixed f, content, y, child?_of_slot? (s := .fixed f) ht, hy, rfl⟩
    | optional o =>
      obtain ⟨y, hy, rfl⟩ := List.mem_map.mp hx
      cases content with
      | none => cases hy
      | some c => exact .inl ⟨.optional o, c, y, child?_of_slot? (s := .optional o) ht, hy, rfl⟩
    | keyed m =>
      rcases List.mem_append.mp hx with hx | hx
      · obtain ⟨key, child, y, hget, hy, rfl⟩ := (Entries.mem_childLosses (hw.slot? hl ht)).mp hx
        have hchild := child?_of_slot? (s := .keyed m key) ht
        exact .inl ⟨.keyed m key, child, y, hchild.trans hget, hy, rfl⟩
      · exact .inr ⟨m, content, ht, hx⟩
    | contracts => cases hx
  · rintro (⟨s, child, y, hchild, hy, rfl⟩ | ⟨m, entries, hm, hx⟩)
    · obtain ⟨content, hc⟩ := p.exists_slot? (p.owns_of_child? hchild).slot_mem
      rw [child?_of_slot? hc] at hchild
      refine ⟨s.slot, content, hc, ?_⟩
      cases s with
      | fixed f =>
        obtain rfl := Option.some.inj hchild
        exact List.mem_map_of_mem hy
      | optional o =>
        obtain rfl : content = some child := hchild
        exact List.mem_map_of_mem hy
      | keyed m key =>
        exact List.mem_append_left _
          ((Entries.mem_childLosses (hw.slot? hl hc)).mpr ⟨key, child, y, hchild, hy, rfl⟩)
    · exact ⟨.keyed m, entries, hm, List.mem_append_right _ hx⟩

theorem Parts.mem_losses_nil {m : ChildMap} {dropped kept : Nat} :
    ⟨[], m, dropped, kept⟩ ∈ p.losses ↔
      ∃ entries, p.slot? (.keyed m) = some entries ∧ entries.Drops dropped kept := by
  rw [Parts.mem_losses_iff hl hw]
  constructor
  · rintro (⟨s, child, y, -, -, heq⟩ | ⟨m', entries, hm, hx⟩)
    · cases heq
    · obtain ⟨-, rfl, hdrops⟩ := Entries.mem_loss.mp hx
      exact ⟨entries, hm, hdrops⟩
  · rintro ⟨entries, hm, hdrops⟩
    exact .inr ⟨m, entries, hm, Entries.mem_loss.mpr ⟨rfl, rfl, hdrops⟩⟩

theorem Parts.mem_losses_cons {s : Step} {rest : Address} {m : ChildMap} {dropped kept : Nat} :
    ⟨s :: rest, m, dropped, kept⟩ ∈ p.losses ↔
      ∃ child, p.child? s = some child ∧ ⟨rest, m, dropped, kept⟩ ∈ child.losses := by
  rw [Parts.mem_losses_iff hl hw]
  constructor
  · rintro (⟨s', child, ⟨rest', m', d, n⟩, hchild, hy, heq⟩ | ⟨m', entries, hm, hx⟩)
    · cases heq
      exact ⟨child, hchild, hy⟩
    · cases (Entries.mem_loss.mp hx).1
  · rintro ⟨child, hchild, hy⟩
    exact .inl ⟨s, child, _, hchild, hy, rfl⟩

theorem Parts.slot_mem_of_mem_losses {x : MapLoss} (hx : x ∈ p.losses) : x.slot ∈ layout := by
  rcases (Parts.mem_losses_iff hl hw).mp hx with ⟨s, child, y, hchild, -, rfl⟩ | ⟨m, e, hm, hx⟩
  · exact (p.owns_of_child? hchild).slot_mem
  · obtain ⟨haddress, rfl, -⟩ := Entries.mem_loss.mp hx
    rw [MapLoss.slot, haddress]
    exact p.isSome_slot?.mp (Option.isSome_of_eq_some hm)

end

theorem Address.avoidsCasts_cons {s : Step} {rest : Address} :
    Address.AvoidsCasts (s :: rest) ↔ s.kind ≠ .cast ∧ Address.AvoidsCasts rest := by
  refine ⟨Address.AvoidsCasts.cons, ?_⟩
  rintro ⟨hs, hrest⟩ key hmem
  rcases List.mem_cons.mp hmem with rfl | hmem
  · exact hs rfl
  · exact hrest key hmem

theorem Element.mem_losses_iff_parts {k : Kind} {e : Element k} {x : MapLoss} :
    x ∈ e.losses ↔ k ≠ .cast ∧ x ∈ e.parts.losses := by
  obtain ⟨header, parts⟩ := e
  by_cases hk : k = .cast
  · simp [Element.losses, hk]
  · simp [Element.losses, hk, Element.parts]

theorem Element.mem_losses_iff {address : Address} {m : ChildMap} {dropped kept : Nat}
    {k : Kind} {e : Element k} (hw : e.WellFormed) : ⟨address, m, dropped, kept⟩ ∈ e.losses ↔
      k ≠ .cast ∧ Address.AvoidsCasts address ∧ ∃ x entries, e.find? address = some x ∧
        x.2.parts.slot? (.keyed m) = some entries ∧ entries.Drops dropped kept := by
  induction address generalizing k with
  | nil =>
    rw [Element.mem_losses_iff_parts, Parts.mem_losses_nil k.layout_nodup hw.parts]
    simp [Address.avoidsCasts_nil, Element.find?]
  | cons s rest ih =>
    rw [Element.mem_losses_iff_parts, Parts.mem_losses_cons k.layout_nodup hw.parts,
      Address.avoidsCasts_cons]
    refine and_congr_right fun _ => ?_
    constructor
    · rintro ⟨child, hchild, hx⟩
      have hwc := (e.parts.owns_of_child? hchild).wellFormed hw.parts
      obtain ⟨hs, hrest, x, entries, hfind, hslot, hdrops⟩ := (ih hwc).mp hx
      exact ⟨⟨hs, hrest⟩, x, entries, Element.find?_cons.mpr ⟨child, hchild, hfind⟩, hslot, hdrops⟩
    · rintro ⟨⟨hs, hrest⟩, x, entries, hfind, hslot, hdrops⟩
      obtain ⟨child, hchild, hfind⟩ := Element.find?_cons.mp hfind
      have hwc := (e.parts.owns_of_child? hchild).wellFormed hw.parts
      exact ⟨child, hchild, (ih hwc).mpr ⟨hs, hrest, x, entries, hfind, hslot, hdrops⟩⟩

theorem Scene.mem_losses_iff {s : Scene.Valid} {address : Address} {m : ChildMap}
    {dropped kept : Nat} : ⟨address, m, dropped, kept⟩ ∈ s.losses ↔
      Address.AvoidsCasts address ∧
        ∃ entries, s.map? m address = some entries ∧ entries.Drops dropped kept := by
  rw [Scene.losses]
  cases address with
  | nil =>
    rw [Parts.mem_losses_nil Scene.layout_nodup s.wellFormed.parts]
    simp [Address.avoidsCasts_nil, Scene.map?]
  | cons first rest =>
    rw [Parts.mem_losses_cons Scene.layout_nodup s.wellFormed.parts, Address.avoidsCasts_cons]
    simp only [Scene.map?, Scene.find?_eq_parts, Option.bind_eq_some_iff]
    constructor
    · rintro ⟨child, hchild, hx⟩
      have hwc := (s.parts.owns_of_child? hchild).wellFormed s.wellFormed.parts
      obtain ⟨hs, hrest, x, entries, hfind, hslot, hdrops⟩ := (Element.mem_losses_iff hwc).mp hx
      exact ⟨⟨hs, hrest⟩, entries,
        ⟨x, Parts.find?_cons.mpr ⟨child, hchild, hfind⟩, hslot⟩, hdrops⟩
    · rintro ⟨⟨hs, hrest⟩, entries, ⟨x, hfind, hslot⟩, hdrops⟩
      obtain ⟨child, hchild, hfind⟩ := Parts.find?_cons.mp hfind
      have hwc := (s.parts.owns_of_child? hchild).wellFormed s.wellFormed.parts
      exact ⟨child, hchild,
        (Element.mem_losses_iff hwc).mpr ⟨hs, hrest, x, entries, hfind, hslot, hdrops⟩⟩

-- ---------------------------------------------------------------------------
-- From the inside out
-- ---------------------------------------------------------------------------

/-- No map comes before itself or before a map inside it. -/
def MapLoss.InsideOut (l : List MapLoss) : Prop := l.Pairwise fun x y => ¬ x.Covers y

namespace MapLoss

variable {x y : MapLoss}

theorem Covers.slot_eq (h : x.Covers y) : y.slot = x.slot := by
  unfold slot
  rcases h with ⟨haddress, hmap⟩ | ⟨key, rest, haddress⟩
  · rw [haddress, hmap]
  · rw [haddress]
    cases x.address <;> rfl

/-- The way to a map that is covered starts as the way to the one that covers it. -/
theorem Covers.address_eq_cons (h : x.Covers y) {s : Step} {rest : Address}
    (hx : x.address = s :: rest) : ∃ more, y.address = s :: more := by
  rcases h with ⟨haddress, -⟩ | ⟨key, more, haddress⟩
  · exact ⟨rest, haddress.trans hx⟩
  · exact ⟨rest ++ .keyed x.map key :: more, by rw [haddress, hx]; rfl⟩

theorem slot_of_mem_below {s : Step} {l : List MapLoss} (hx : x ∈ l.map (below s)) :
    x.slot = s.slot := by
  obtain ⟨y, -, rfl⟩ := List.mem_map.mp hx
  rfl

theorem covers_below {s : Step} : (x.below s).Covers (y.below s) ↔ x.Covers y := by
  simp [Covers, below]

theorem InsideOut.below {l : List MapLoss} (h : InsideOut l) (s : Step) :
    InsideOut (l.map (below s)) :=
  List.pairwise_map.mpr (h.imp fun hxy => covers_below.not.mpr hxy)

theorem InsideOut.append_of_slot {l r : List MapLoss} (hl : InsideOut l) (hr : InsideOut r)
    {t : Slot} (hleft : ∀ x ∈ l, x.slot = t) (hright : ∀ y ∈ r, y.slot ≠ t) :
    InsideOut (l ++ r) := by
  refine List.pairwise_append.mpr ⟨hl, hr, fun x hx y hy hcovers => ?_⟩
  exact hright y hy (hcovers.slot_eq.trans (hleft x hx))

end MapLoss

theorem Entries.address_of_mem_childLosses {m : ChildMap} {e : Entries m} (hw : e.WellFormed)
    {x : MapLoss} (hx : x ∈ e.childLosses) :
    ∃ key rest, key ∈ e.keys ∧ x.address = .keyed m key :: rest := by
  obtain ⟨key, child, y, hget, -, rfl⟩ := (Entries.mem_childLosses hw).mp hx
  exact ⟨key, y.address, Entries.mem_keys_of_get? hget, rfl⟩

/-- The event of a map follows those of the maps inside it. -/
theorem Entries.insideOut_append_loss {m : ChildMap} {e : Entries m} (hw : e.WellFormed)
    (h : MapLoss.InsideOut e.childLosses) : MapLoss.InsideOut (e.childLosses ++ e.loss) := by
  have hloss : MapLoss.InsideOut e.loss := by
    unfold Entries.loss
    split
    next => exact List.pairwise_singleton _ _
    next => exact List.Pairwise.nil
  refine List.pairwise_append.mpr ⟨h, hloss, fun x hx y hy hcovers => ?_⟩
  obtain ⟨key, rest, -, haddress⟩ := Entries.address_of_mem_childLosses hw hx
  obtain ⟨more, hmore⟩ := hcovers.address_eq_cons haddress
  cases (Entries.mem_loss.mp hy).1.symm.trans hmore

theorem Entries.slot_of_mem_losses {m : ChildMap} {e : Entries m} (hw : e.WellFormed)
    {x : MapLoss} (hx : x ∈ e.childLosses ++ e.loss) : x.slot = .keyed m := by
  rcases List.mem_append.mp hx with hx | hx
  · obtain ⟨key, rest, -, haddress⟩ := Entries.address_of_mem_childLosses hw hx
    rw [MapLoss.slot, haddress]
    rfl
  · obtain ⟨haddress, rfl, -⟩ := Entries.mem_loss.mp hx
    rw [MapLoss.slot, haddress]

theorem Parts.insideOut_append {t : Slot} {slots : List Slot} {more : Parts slots}
    (hw : more.WellFormed) (hl : (t :: slots).Nodup) {l : List MapLoss}
    (h : MapLoss.InsideOut l) (hslot : ∀ x ∈ l, x.slot = t)
    (hmore : MapLoss.InsideOut more.losses) : MapLoss.InsideOut (l ++ more.losses) := by
  obtain ⟨ht, hl⟩ := List.nodup_cons.mp hl
  refine h.append_of_slot hmore hslot fun y hy heq => ?_
  exact ht (heq ▸ Parts.slot_mem_of_mem_losses hl hw hy)

mutual
theorem Element.insideOut_losses {k : Kind} : (e : Element k) → e.WellFormed →
    MapLoss.InsideOut e.losses
  | .mk header parts, hw => by
    rw [Element.losses]
    split
    next => exact List.Pairwise.nil
    next => exact parts.insideOut_losses hw.2 k.layout_nodup
theorem Parts.insideOut_losses : {layout : List Slot} → (p : Parts layout) → p.WellFormed →
    layout.Nodup → MapLoss.InsideOut p.losses
  | _, .nil, _, _ => List.Pairwise.nil
  | _, .fixed (f := f) c more, hw, hl =>
    Parts.insideOut_append hw.2 hl ((c.insideOut_losses hw.1).below (.fixed f))
      (fun _ hx => MapLoss.slot_of_mem_below hx) (more.insideOut_losses hw.2 hl.of_cons)
  | _, .absent more, hw, hl => more.insideOut_losses hw hl.of_cons
  | _, .present (o := o) c more, hw, hl =>
    Parts.insideOut_append hw.2 hl ((c.insideOut_losses hw.1).below (.optional o))
      (fun _ hx => MapLoss.slot_of_mem_below hx) (more.insideOut_losses hw.2 hl.of_cons)
  | _, .keyed entries more, hw, hl =>
    Parts.insideOut_append hw.2 hl
      (Entries.insideOut_append_loss hw.1 (entries.insideOut_childLosses hw.1))
      (fun _ hx => Entries.slot_of_mem_losses hw.1 hx) (more.insideOut_losses hw.2 hl.of_cons)
  | _, .contracts _ more, hw, hl => more.insideOut_losses hw.2 hl.of_cons
theorem Entries.insideOut_childLosses {m : ChildMap} : (e : Entries m) → e.WellFormed →
    MapLoss.InsideOut e.childLosses
  | .nil, _ => List.Pairwise.nil
  | .cons key c more, hw => by
    rw [Entries.childLosses]
    refine List.pairwise_append.mpr ⟨(c.insideOut_losses hw.2.1).below _,
      more.insideOut_childLosses hw.2.2, fun x hx y hy hcovers => ?_⟩
    obtain ⟨x, -, rfl⟩ := List.mem_map.mp hx
    obtain ⟨key', rest, hkey, haddress⟩ := Entries.address_of_mem_childLosses hw.2.2 hy
    obtain ⟨more, hmore⟩ := hcovers.address_eq_cons rfl
    cases haddress.symm.trans hmore
    exact hw.1 hkey
end

-- ---------------------------------------------------------------------------
-- Scenes
-- ---------------------------------------------------------------------------

namespace Scene

variable {s : Scene}

theorem pruneEvents_eq_parts (s : Scene) : s.pruneEvents =
    s.parts.pruneEvents ++ [.prunedScene s.classes.size s.prune.classes.size] := by
  simp [pruneEvents, parts, Parts.pruneEvents, Entries.pruneEvents]

theorem pruneEvents_eq_losses (s : Scene) : s.pruneEvents =
    s.losses.map MapLoss.event ++ [.prunedScene s.classes.size s.prune.classes.size] := by
  rw [pruneEvents_eq_parts, Parts.pruneEvents_eq_losses, losses]

theorem sum_dropped_pruneEvents (s : Scene) :
    (s.pruneEvents.map Event.dropped).sum + s.prune.entryCount = s.entryCount := by
  rw [pruneEvents_eq_parts, List.map_append, List.sum_append]
  exact s.parts.sum_dropped_pruneEvents

theorem dropped_pos (s : Valid) {dropped kept : Nat}
    (h : .prunedMap dropped kept ∈ s.pruneEvents) : 0 < dropped := by
  rw [pruneEvents_eq_losses, List.mem_append, List.mem_map] at h
  rcases h with ⟨⟨address, m, dropped, kept⟩, hx, heq⟩ | h
  · cases heq
    obtain ⟨-, entries, -, hdrops⟩ := mem_losses_iff.mp hx
    exact hdrops.1
  · cases List.mem_singleton.mp h

theorem losses_prune (s : Valid) : s.prune.losses = [] := by
  have htotal := s.prune.sum_dropped_pruneEvents
  rw [prune_prune] at htotal
  refine List.eq_nil_iff_forall_not_mem.mpr fun x hx => ?_
  have hmem : x.event ∈ s.prune.pruneEvents := by
    rw [pruneEvents_eq_losses]
    exact List.mem_append_left _ (List.mem_map_of_mem hx)
  have hpos := dropped_pos s.pruned hmem
  have hle : x.dropped ≤ _ := List.le_sum_of_mem (List.mem_map_of_mem (f := Event.dropped) hmem)
  omega

/-- The report of a prune accounts for every entry that goes. Its numbers of dropped entries are
positive and add up to what the maps of the scene lose at all depths. Its events are those of the
maps outside casts that hold vacuous entries, the maps inside a map before it and none of them
twice. A pruned scene has no such events. -/
theorem pruneEvents_account_for_entries (s : Valid) :
    (s.pruneEvents.map Event.dropped).sum + s.prune.entryCount = s.entryCount ∧
    (∀ dropped kept, .prunedMap dropped kept ∈ s.pruneEvents → 0 < dropped) ∧
    s.pruneEvents =
      s.losses.map MapLoss.event ++ [.prunedScene s.classes.size s.prune.classes.size] ∧
    (∀ address m dropped kept, ⟨address, m, dropped, kept⟩ ∈ s.losses ↔
      Address.AvoidsCasts address ∧
        ∃ entries, s.map? m address = some entries ∧ entries.Drops dropped kept) ∧
    MapLoss.InsideOut s.losses ∧
    s.prune.pruneEvents = [.prunedScene s.prune.classes.size s.prune.classes.size] := by
  refine ⟨s.sum_dropped_pruneEvents, fun _ _ => dropped_pos s, s.pruneEvents_eq_losses,
    fun _ _ _ _ => mem_losses_iff, ?_, ?_⟩
  · exact s.parts.insideOut_losses s.wellFormed.parts layout_nodup
  · rw [pruneEvents_eq_losses, losses_prune s, prune_prune]
    rfl

/-- A field goes from a class that stays, a parameter and its method from one that goes too. -/
theorem pruneEvents_account_for_entries_nested :
    let owner (name : String) := Element.classType name
    let kept := ((owner "C").withAnnotations [.marker (.ofName "A" "p")]).withParts
      ((owner "C").parts.setSlot (.keyed .fields) (.cons "f" (.field "f") .nil))
    let method := (Element.method "m()V").withParts
      ((Element.method "m()V").parts.setSlot (.keyed .parameters) (.cons 0 (.field "0") .nil))
    let gone := (owner "D").withParts
      ((owner "D").parts.setSlot (.keyed .methods) (.cons "m()V" method .nil))
    let s : Scene := { classes := .cons "C" kept (.cons "D" gone .nil) }
    s.WellFormed ∧ s.entryCount = 5 ∧ s.prune.entryCount = 1 ∧
      s.pruneEvents =
        [.prunedMap 1 0, .prunedMap 1 0, .prunedMap 1 0, .prunedMap 1 1, .prunedScene 2 1] ∧
      (s.pruneEvents.map Event.dropped).sum = 4 ∧ MapLoss.InsideOut s.losses ∧
      s.prune.pruneEvents = [.prunedScene 1 1] := by
  intro owner kept method gone s
  have hw : s.WellFormed := by decide
  have hbefore : s.entryCount = 5 := by decide +kernel
  have hafter : s.prune.entryCount = 1 := by decide +kernel
  obtain ⟨hsum, -, -, -, hordered, hagain⟩ := pruneEvents_account_for_entries ⟨s, hw⟩
  change (s.pruneEvents.map Event.dropped).sum + s.prune.entryCount = s.entryCount at hsum
  change s.prune.pruneEvents = [.prunedScene s.prune.classes.size s.prune.classes.size] at hagain
  refine ⟨hw, hbefore, hafter, by decide +kernel, by omega, hordered, ?_⟩
  rw [hagain]
  decide +kernel

end Scene

end AnnotationScene
