import AnnotationScene.Element.Edit
import AnnotationScene.Proofs.Gathering

/-!
# Pruning keeps what is not vacuous

Pruning changes no element's vacuity, so whether an entry is dropped can be read off the entry as
it was. Nothing below a vacuous element is more than vacuous: where an address leads to an element
with information, no step on the way is dropped.
-/

namespace AnnotationScene

-- ---------------------------------------------------------------------------
-- Vacuity
-- ---------------------------------------------------------------------------

theorem Element.isVacuous_cast (e : Element .cast) : e.isVacuous = false := by
  obtain ⟨header, parts⟩ := e
  simp [Element.isVacuous, Header.isVacuous]

theorem Element.prune_cast (e : Element .cast) : e.prune = e := by
  obtain ⟨header, parts⟩ := e
  simp [Element.prune]

theorem Element.parts_prune {k : Kind} (hk : k ≠ .cast) (e : Element k) :
    e.prune.parts = e.parts.prune := by
  obtain ⟨header, parts⟩ := e
  rw [Element.prune, if_neg hk]
  rfl

mutual
theorem Element.isVacuous_prune {k : Kind} : (e : Element k) → e.prune.isVacuous = e.isVacuous
  | .mk header parts => by
    rw [Element.prune]
    split
    next => rfl
    next => rw [Element.isVacuous, Element.isVacuous, parts.isVacuous_prune]
theorem Parts.isVacuous_prune {layout : List Slot} : (p : Parts layout) →
    p.prune.isVacuous = p.isVacuous
  | .nil => rfl
  | .fixed c more | .present (o := .type) c more => by
    simp only [Parts.prune, Parts.isVacuous, c.isVacuous_prune, more.isVacuous_prune]
  | .absent more => by simp only [Parts.prune, Parts.isVacuous, more.isVacuous_prune]
  | .present (o := .init) c more => by
    simp only [Parts.prune, c.isVacuous_prune]
    split
    next h => simp only [Parts.isVacuous, more.isVacuous_prune, h, Bool.true_and]
    next h => simp only [Parts.isVacuous, c.isVacuous_prune, more.isVacuous_prune]
  | .keyed entries more => by
    simp only [Parts.prune, Parts.isVacuous, entries.isVacuous_prune, more.isVacuous_prune]
  | .contracts set more => by simp only [Parts.prune, Parts.isVacuous, more.isVacuous_prune]
theorem Entries.isVacuous_prune {m : ChildMap} : (e : Entries m) →
    e.prune.isVacuous = e.isVacuous
  | .nil => rfl
  | .cons key c more => by
    simp only [Entries.prune, c.isVacuous_prune]
    split
    next h => simp only [Entries.isVacuous, more.isVacuous_prune, h, Bool.true_and]
    next h => simp only [Entries.isVacuous, c.isVacuous_prune, more.isVacuous_prune]
end

mutual
theorem Element.prune_prune {k : Kind} : (e : Element k) → e.prune.prune = e.prune
  | .mk header parts => by
    rw [Element.prune]
    split
    next h => rw [Element.prune, if_pos h]
    next h => rw [Element.prune, if_neg h, parts.prune_prune]
theorem Parts.prune_prune {layout : List Slot} : (p : Parts layout) → p.prune.prune = p.prune
  | .nil => rfl
  | .fixed c more | .present (o := .type) c more => by
    simp only [Parts.prune, c.prune_prune, more.prune_prune]
  | .absent more => by simp only [Parts.prune, more.prune_prune]
  | .present (o := .init) c more => by
    simp only [Parts.prune]
    split
    next => simp only [Parts.prune, more.prune_prune]
    next h =>
      simp only [Parts.prune, c.prune_prune, more.prune_prune]
      rw [if_neg h]
  | .keyed entries more => by
    simp only [Parts.prune, entries.prune_prune, more.prune_prune]
  | .contracts set more => by simp only [Parts.prune, more.prune_prune]
theorem Entries.prune_prune {m : ChildMap} : (e : Entries m) → e.prune.prune = e.prune
  | .nil => rfl
  | .cons key c more => by
    simp only [Entries.prune]
    split
    next => exact more.prune_prune
    next h =>
      simp only [Entries.prune, c.prune_prune, more.prune_prune]
      rw [if_neg h]
end

theorem Scene.prune_prune (s : Scene) : s.prune.prune = s.prune := by
  simp only [Scene.prune, Entries.prune_prune]

/-- What a map keeps, in the order in which it had it. -/
theorem Entries.toList_prune {m : ChildMap} : (e : Entries m) →
    e.prune.toList = (e.toList.filter fun x => !x.2.isVacuous).map fun x => (x.1, x.2.prune)
  | .nil => rfl
  | .cons key c more => by
    have ih := more.toList_prune
    simp only [Entries.prune, c.isVacuous_prune]
    split
    next h => simp [Entries.toList, h, ih]
    next h => simp [Entries.toList, h, ih]

theorem Entries.get?_prune {m : ChildMap} {key : m.Key} : {e : Entries m} → e.WellFormed →
    e.prune.get? key = (e.get? key).bind fun c => if c.isVacuous then none else some c.prune
  | .nil, _ => rfl
  | .cons k c more, hw => by
    have ih : more.prune.get? key = _ := Entries.get?_prune hw.2.2
    simp only [Entries.prune, c.isVacuous_prune, Entries.get?_cons]
    by_cases hk : k = key
    · subst hk
      have hmore : more.get? k = none := OrderedMap.get?_eq_none_iff.mpr hw.1
      split
      next h => simp [h, ih, hmore]
      next h => simp [h, Entries.get?_cons]
    · split
      next => simp [ih]
      next h => simp [hk, ih, Entries.get?_cons]

-- ---------------------------------------------------------------------------
-- Slots and steps
-- ---------------------------------------------------------------------------

def Slot.prune : (s : Slot) → s.Content → s.Content
  | .fixed _, child => Element.prune child
  | .optional .type, child => child.map Element.prune
  | .optional .init, child => child.bind fun c => if c.isVacuous then none else some c.prune
  | .keyed _, entries => Entries.prune entries
  | .contracts, set => set

theorem Parts.slot?_prune {layout : List Slot} (s : Slot) : (p : Parts layout) →
    p.prune.slot? s = (p.slot? s).map s.prune
  | .nil => rfl
  | .fixed (f := f) c more => by
    have ih := more.slot?_prune s
    by_cases h : .fixed f = s
    · subst h
      simp [Parts.prune, slot?, Slot.prune]
    · simp [Parts.prune, slot?, h, ih]
  | .absent (o := o) more => by
    have ih := more.slot?_prune s
    by_cases h : .optional o = s
    · subst h
      cases o <;> simp [Parts.prune, slot?, Slot.prune]
    · simp [Parts.prune, slot?, h, ih]
  | .present (o := .type) c more => by
    have ih := more.slot?_prune s
    by_cases h : .optional .type = s
    · subst h
      simp [Parts.prune, slot?, Slot.prune]
    · simp [Parts.prune, slot?, h, ih]
  | .present (o := .init) c more => by
    have ih := more.slot?_prune s
    simp only [Parts.prune, c.isVacuous_prune]
    by_cases h : .optional .init = s
    · subst h
      split <;> simp_all [slot?, Slot.prune]
    · split <;> simp [slot?, h, ih]
  | .keyed (m := m) entries more => by
    have ih := more.slot?_prune s
    by_cases h : .keyed m = s
    · subst h
      simp [Parts.prune, slot?, Slot.prune]
    · simp [Parts.prune, slot?, h, ih]
  | .contracts set more => by
    have ih := more.slot?_prune s
    by_cases h : .contracts = s
    · subst h
      simp [Parts.prune, slot?, Slot.prune]
    · simp [Parts.prune, slot?, h, ih]

/-- Entries of maps and initializers are dropped when they are vacuous. -/
def Step.isDroppable : Step → Bool
  | .fixed _ => false
  | .optional .type => false
  | .optional .init => true
  | .keyed _ _ => true

def Step.keep? (s : Step) (child : Element s.kind) : Option (Element s.kind) :=
  if s.isDroppable && child.isVacuous then none else some child.prune

theorem Parts.wellFormed_slot? {m : ChildMap} {entries : Entries m} {layout : List Slot} :
    (p : Parts layout) → p.WellFormed → p.slot? (.keyed m) = some entries → entries.WellFormed
  | .fixed _ more, hw, h | .present _ more, hw, h | .contracts _ more, hw, h =>
    more.wellFormed_slot? hw.2 h
  | .absent more, hw, h => more.wellFormed_slot? hw h
  | .keyed _ more, hw, h => by
    simp only [slot?] at h
    split at h
    next he =>
      cases he
      exact Option.some.inj h ▸ hw.1
    next => exact more.wellFormed_slot? hw.2 h

theorem Parts.child?_prune {layout : List Slot} {p : Parts layout} (hw : p.WellFormed)
    (s : Step) : p.prune.child? s = (p.child? s).bind s.keep? := by
  rw [child?, child?, p.slot?_prune]
  cases hs : p.slot? s.slot with
  | none => rfl
  | some content =>
    cases s with
    | fixed f => rfl
    | optional o =>
      cases o <;> cases content <;> rfl
    | keyed m key => exact Entries.get?_prune (p.wellFormed_slot? hw hs)

-- ---------------------------------------------------------------------------
-- Addresses
-- ---------------------------------------------------------------------------

theorem Entries.isVacuous_of_get? {m : ChildMap} {key : m.Key} {child : Element m.kind} :
    (e : Entries m) → e.isVacuous = true → e.get? key = some child → child.isVacuous = true
  | .nil, _, h => nomatch h
  | .cons k c more, hv, h => by
    rw [Entries.isVacuous, Bool.and_eq_true] at hv
    rw [Entries.get?_cons] at h
    split at h
    next => exact Option.some.inj h ▸ hv.1
    next => exact more.isVacuous_of_get? hv.2 h

theorem Parts.Owns.isVacuous {layout : List Slot} {p : Parts layout} {s : Step}
    {child : Element s.kind} (h : p.Owns s child) (hv : p.isVacuous = true) :
    child.isVacuous = true := by
  induction h with
  | fixed => exact (Bool.and_eq_true_iff.mp hv).1
  | present => exact (Bool.and_eq_true_iff.mp hv).1
  | keyed _ hget => exact Entries.isVacuous_of_get? _ (Bool.and_eq_true_iff.mp hv).1 hget
  | afterAbsent _ ih => exact ih hv
  | afterFixed _ _ ih | afterPresent _ _ ih | afterKeyed _ _ ih | afterContracts _ _ ih =>
    exact ih (Bool.and_eq_true_iff.mp hv).2

theorem Element.isVacuous_of_find? {x : SomeElement} {address : Address} {k : Kind}
    {e : Element k} (hv : e.isVacuous = true) (h : e.find? address = some x) :
    x.2.isVacuous = true := by
  induction address generalizing k with
  | nil =>
    obtain rfl := Option.some.inj h
    exact hv
  | cons s rest ih =>
    obtain ⟨child, hchild, h⟩ := Element.find?_cons.mp h
    have hparts : e.parts.isVacuous = true := by
      obtain ⟨header, parts⟩ := e
      exact (Bool.and_eq_true_iff.mp hv).2
    exact ih ((e.parts.owns_of_child? hchild).isVacuous hparts) h

def SomeElement.prune (x : SomeElement) : SomeElement := ⟨x.1, x.2.prune⟩

def Address.AvoidsCasts (address : Address) : Prop :=
  ∀ key, Step.keyed .insertTypecasts key ∉ address

theorem Step.kind_ne_cast {s : Step} (h : ∀ key, s ≠ .keyed .insertTypecasts key) :
    s.kind ≠ .cast := by
  cases s with
  | fixed f => cases f <;> simp [Step.kind, FixedChild.kind]
  | optional o => cases o <;> simp [Step.kind, OptionalChild.kind]
  | keyed m key =>
    intro hk
    cases m <;> simp [Step.kind, ChildMap.kind] at hk
    exact h key rfl

theorem Address.AvoidsCasts.cons {s : Step} {rest : Address}
    (h : Address.AvoidsCasts (s :: rest)) : s.kind ≠ .cast ∧ Address.AvoidsCasts rest := by
  refine ⟨Step.kind_ne_cast fun key hs => h key (hs ▸ List.mem_cons_self), fun key hmem => ?_⟩
  exact h key (List.mem_cons_of_mem _ hmem)

namespace Parts

variable {layout : List Slot}

/-- Reading along an address from parts on, as from an element and as from a scene. -/
def find? (p : Parts layout) : Address → Option SomeElement
  | [] => none
  | s :: rest => (p.child? s).bind fun child => child.find? rest

theorem find?_cons {p : Parts layout} {s : Step} {rest : Address} {x : SomeElement} :
    p.find? (s :: rest) = some x ↔
      ∃ child, p.child? s = some child ∧ child.find? rest = some x := by
  rw [find?, Option.bind_eq_some_iff]

/-- A step after pruning: it leads to a pruned child, unless it was dropped. -/
theorem find?_prune_cons {p : Parts layout} (hw : p.WellFormed) {s : Step} {rest : Address}
    {x : SomeElement} : p.prune.find? (s :: rest) = some x ↔
      ∃ child, p.child? s = some child ∧ (s.isDroppable = true → child.isVacuous = false) ∧
        child.prune.find? rest = some x := by
  rw [find?_cons, child?_prune hw]
  constructor
  · rintro ⟨c, hc, hx⟩
    obtain ⟨child, hchild, hkeep⟩ := Option.bind_eq_some_iff.mp hc
    rw [Step.keep?] at hkeep
    split at hkeep
    next => nomatch hkeep
    next h =>
      obtain rfl := Option.some.inj hkeep
      exact ⟨child, hchild, by simpa using h, hx⟩
  · rintro ⟨child, hchild, hkept, hx⟩
    refine ⟨child.prune, Option.bind_eq_some_iff.mpr ⟨child, hchild, ?_⟩, hx⟩
    rw [Step.keep?, if_neg (by simpa using hkept)]

end Parts

namespace Element

variable {k : Kind} {e : Element k}

theorem find?_of_ne_nil {address : Address} (h : address ≠ []) :
    e.find? address = e.parts.find? address := by
  cases address with
  | nil => exact absurd rfl h
  | cons s rest => rfl

theorem find?_prune (hk : k ≠ .cast) {address : Address} (h : address ≠ []) :
    e.prune.find? address = e.parts.prune.find? address := by
  rw [find?_of_ne_nil h, parts_prune hk]

theorem find?_append (front : Address) {back : Address} :
    e.find? (front ++ back) = (e.find? front).bind fun x => x.2.find? back := by
  induction front generalizing k with
  | nil => rfl
  | cons s rest ih =>
    rw [List.cons_append, Element.find?, Element.find?, Option.bind_assoc]
    exact congrArg _ (funext fun child => ih)

/-- A cast is information, and so is every element above it. -/
theorem isVacuous_of_find?_cast {front rest : Address} {key : ChildMap.Key .insertTypecasts}
    {x : SomeElement} (h : e.find? (front ++ .keyed .insertTypecasts key :: rest) = some x) :
    e.isVacuous = false := by
  rw [find?_append] at h
  obtain ⟨owner, howner, h⟩ := Option.bind_eq_some_iff.mp h
  obtain ⟨cast, hcast, -⟩ := Element.find?_cons.mp h
  cases hv : e.isVacuous with
  | false => rfl
  | true =>
    have hcast' : e.find? (front ++ [.keyed .insertTypecasts key]) = some ⟨.cast, cast⟩ := by
      rw [find?_append, howner, Option.bind_some]
      exact Element.find?_cons.mpr ⟨cast, hcast, rfl⟩
    exact (Element.isVacuous_of_find? hv hcast').symm.trans (Element.isVacuous_cast cast)

end Element

namespace Parts

variable {layout : List Slot}

/-- Where an address ends in a step that may be dropped, pruning keeps just what is not vacuous. -/
theorem find?_prune_concat {p : Parts layout} (hw : p.WellFormed) {front : Address} {last : Step}
    (hfront : Address.AvoidsCasts front) (hlast : last.isDroppable = true) {x : SomeElement} :
    p.prune.find? (front ++ [last]) = some x ↔
      ∃ y, p.find? (front ++ [last]) = some y ∧ y.2.isVacuous = false ∧
        x = SomeElement.prune y := by
  induction front generalizing layout with
  | nil =>
    rw [List.nil_append, find?_prune_cons hw]
    constructor
    · rintro ⟨child, hchild, hkept, hx⟩
      exact ⟨⟨_, child⟩, find?_cons.mpr ⟨child, hchild, rfl⟩, hkept hlast,
        (Option.some.inj hx).symm⟩
    · rintro ⟨y, hy, hkept, rfl⟩
      obtain ⟨child, hchild, hy⟩ := find?_cons.mp hy
      obtain rfl := Option.some.inj hy
      exact ⟨child, hchild, fun _ => hkept, rfl⟩
  | cons s rest ih =>
    obtain ⟨hs, hrest⟩ := hfront.cons
    rw [List.cons_append, find?_prune_cons hw]
    have hstep : ∀ {child : Element s.kind}, p.child? s = some child →
        (child.prune.find? (rest ++ [last]) = some x ↔
          ∃ y, child.find? (rest ++ [last]) = some y ∧ y.2.isVacuous = false ∧
            x = SomeElement.prune y) := by
      intro child hchild
      have hne : rest ++ [last] ≠ [] := by simp
      rw [Element.find?_prune hs hne, Element.find?_of_ne_nil hne]
      exact ih ((p.owns_of_child? hchild).wellFormed hw).parts hrest
    constructor
    · rintro ⟨child, hchild, -, hx⟩
      obtain ⟨y, hy, hkept, rfl⟩ := (hstep hchild).mp hx
      exact ⟨y, find?_cons.mpr ⟨child, hchild, hy⟩, hkept, rfl⟩
    · rintro ⟨y, hy, hkept, rfl⟩
      obtain ⟨child, hchild, hy⟩ := find?_cons.mp hy
      refine ⟨child, hchild, fun _ => ?_, (hstep hchild).mpr ⟨y, hy, hkept, rfl⟩⟩
      cases hv : child.isVacuous with
      | false => rfl
      | true => simp [Element.isVacuous_of_find? hv hy] at hkept

theorem find?_prune_cast {p : Parts layout} (hw : p.WellFormed) {front rest : Address}
    {key : ChildMap.Key .insertTypecasts} (hfront : Address.AvoidsCasts front) :
    p.prune.find? (front ++ .keyed .insertTypecasts key :: rest) =
      p.find? (front ++ .keyed .insertTypecasts key :: rest) := by
  refine Option.ext fun x => ?_
  induction front generalizing layout with
  | nil =>
    rw [List.nil_append, find?_prune_cons hw, find?_cons]
    constructor
    · rintro ⟨cast, hcast, -, hx⟩
      exact ⟨cast, hcast, Element.prune_cast cast ▸ hx⟩
    · rintro ⟨cast, hcast, hx⟩
      exact ⟨cast, hcast, fun _ => Element.isVacuous_cast cast, (Element.prune_cast cast).symm ▸ hx⟩
  | cons s front ih =>
    obtain ⟨hs, hfront⟩ := hfront.cons
    have hne : front ++ Step.keyed .insertTypecasts key :: rest ≠ [] := by simp
    rw [List.cons_append, find?_prune_cons hw, find?_cons]
    constructor
    · rintro ⟨child, hchild, -, hx⟩
      have hwc := ((p.owns_of_child? hchild).wellFormed hw).parts
      rw [Element.find?_prune hs hne, ih hwc hfront, ← Element.find?_of_ne_nil hne] at hx
      exact ⟨child, hchild, hx⟩
    · rintro ⟨child, hchild, hx⟩
      have hwc := ((p.owns_of_child? hchild).wellFormed hw).parts
      refine ⟨child, hchild, fun _ => Element.isVacuous_of_find?_cast hx, ?_⟩
      rw [Element.find?_prune hs hne, ih hwc hfront, ← Element.find?_of_ne_nil hne]
      exact hx

end Parts

namespace Element

variable {k : Kind}

theorem find?_of_prune (hk : k ≠ .cast) {e : Element k} (hw : e.WellFormed) {address : Address}
    (ha : Address.AvoidsCasts address) {x : SomeElement} (h : e.prune.find? address = some x) :
    ∃ y, e.find? address = some y ∧ y.1 ≠ .cast ∧ x = SomeElement.prune y := by
  induction address generalizing k with
  | nil => exact ⟨⟨k, e⟩, rfl, hk, (Option.some.inj h).symm⟩
  | cons s rest ih =>
    obtain ⟨hs, hrest⟩ := ha.cons
    rw [find?_prune hk (List.cons_ne_nil _ _), Parts.find?_prune_cons hw.parts] at h
    obtain ⟨child, hchild, -, h⟩ := h
    have hwc := (e.parts.owns_of_child? hchild).wellFormed hw.parts
    obtain ⟨y, hy, hkind, hx⟩ := ih hs hwc hrest h
    exact ⟨y, Element.find?_cons.mpr ⟨child, hchild, hy⟩, hkind, hx⟩

theorem initializer?_prune (f : Element .field) :
    f.prune.initializer? = (f.initializer?.filter fun i => !i.isVacuous).map Element.prune := by
  rw [initializer?, initializer?, parts_prune (by decide), Parts.slot?_prune]
  cases f.parts.slot? (.optional .init) with
  | none => rfl
  | some content =>
    cases content with
    | none => rfl
    | some i =>
      change (if i.isVacuous then none else some i.prune) =
        Option.map Element.prune (if !i.isVacuous then some i else none)
      cases i.isVacuous <;> rfl

theorem kind_of_find?_type (hk : k = .type ∨ k = .cast) {e : Element k} {address : Address}
    {x : SomeElement} (h : e.find? address = some x) : x.1 = .type ∨ x.1 = .cast := by
  induction address generalizing k with
  | nil =>
    obtain rfl := Option.some.inj h
    exact hk
  | cons s rest ih =>
    obtain ⟨child, hchild, h⟩ := Element.find?_cons.mp h
    have hslot := (e.parts.owns_of_child? hchild).slot_mem
    have hlayout : k.layout = [.keyed .innerTypes] := by
      rcases hk with rfl | rfl <;> rfl
    rw [hlayout, List.mem_singleton] at hslot
    refine ih ?_ h
    cases s with
    | fixed f => nomatch hslot
    | optional o => nomatch hslot
    | keyed m key =>
      obtain rfl := Slot.keyed.inj hslot
      exact .inl rfl

end Element

theorem Parts.kind_of_find?_cast {layout : List Slot} {p : Parts layout} {front rest : Address}
    {key : ChildMap.Key .insertTypecasts} {x : SomeElement}
    (h : p.find? (front ++ .keyed .insertTypecasts key :: rest) = some x) :
    x.1 = .type ∨ x.1 = .cast := by
  induction front generalizing layout with
  | nil =>
    obtain ⟨cast, -, h⟩ := find?_cons.mp h
    exact Element.kind_of_find?_type (.inr rfl) h
  | cons s front ih =>
    obtain ⟨child, -, h⟩ := find?_cons.mp h
    rw [Element.find?_of_ne_nil (by simp)] at h
    exact ih h

theorem Address.avoidsCasts_nil : Address.AvoidsCasts [] := fun _ => List.not_mem_nil

/-- An address avoids casts up to its end, or up to the first cast that it enters. -/
theorem Address.avoidsCasts_or (address : Address) : Address.AvoidsCasts address ∨
    ∃ front key rest, Address.AvoidsCasts front ∧
      address = front ++ .keyed .insertTypecasts key :: rest := by
  induction address with
  | nil => exact .inl avoidsCasts_nil
  | cons s rest ih =>
    by_cases hs : ∃ key, s = .keyed .insertTypecasts key
    · obtain ⟨key, rfl⟩ := hs
      exact .inr ⟨[], key, rest, avoidsCasts_nil, rfl⟩
    · have hcons : ∀ {l}, Address.AvoidsCasts l → Address.AvoidsCasts (s :: l) := by
        intro l hl key hmem
        rcases List.mem_cons.mp hmem with h | h
        · exact hs ⟨key, h.symm⟩
        · exact hl key h
      rcases ih with h | ⟨front, key, rest, hfront, rfl⟩
      · exact .inl (hcons h)
      · exact .inr ⟨s :: front, key, rest, hcons hfront, rfl⟩

-- ---------------------------------------------------------------------------
-- Scenes
-- ---------------------------------------------------------------------------

namespace Scene

variable {s : Valid}

theorem find?_eq_parts (s : Scene) (address : Address) :
    s.find? address = s.parts.find? address := by
  cases address <;> rfl

theorem find?_of_prune {address : Address} (ha : Address.AvoidsCasts address) {x : SomeElement}
    (h : s.prune.find? address = some x) :
    ∃ y, s.find? address = some y ∧ y.1 ≠ .cast ∧ x = SomeElement.prune y := by
  cases address with
  | nil => nomatch h
  | cons first rest =>
    obtain ⟨hfirst, hrest⟩ := ha.cons
    have hw := s.wellFormed.parts
    rw [find?_eq_parts, show s.prune.parts = s.parts.prune from rfl, Parts.find?_prune_cons hw] at h
    obtain ⟨child, hchild, -, h⟩ := h
    have hwc := (s.parts.owns_of_child? hchild).wellFormed hw
    obtain ⟨y, hy, hkind, hx⟩ := Element.find?_of_prune hfirst hwc hrest h
    rw [find?_eq_parts]
    exact ⟨y, Parts.find?_cons.mpr ⟨child, hchild, hy⟩, hkind, hx⟩

theorem map?_of_prune {address : Address} (ha : Address.AvoidsCasts address) {m : ChildMap}
    {kept : Entries m} (h : s.prune.map? m address = some kept) :
    ∃ entries, s.map? m address = some entries ∧ kept = entries.prune := by
  have hslot : ∀ {layout : List Slot} {p : Parts layout},
      p.prune.slot? (.keyed m) = some kept →
      ∃ entries, p.slot? (.keyed m) = some entries ∧ kept = entries.prune := by
    intro layout p h
    rw [p.slot?_prune] at h
    obtain ⟨entries, hentries, rfl⟩ := Option.map_eq_some_iff.mp h
    exact ⟨entries, hentries, rfl⟩
  cases address with
  | nil => exact hslot h
  | cons first rest =>
    obtain ⟨x, hx, hkept⟩ := Option.bind_eq_some_iff.mp h
    obtain ⟨y, hy, hkind, rfl⟩ := find?_of_prune ha hx
    rw [show (SomeElement.prune y).2.parts = y.2.parts.prune from Element.parts_prune hkind _]
      at hkept
    obtain ⟨entries, hentries, rfl⟩ := hslot hkept
    exact ⟨entries, Option.bind_eq_some_iff.mpr ⟨y, hy, hentries⟩, rfl⟩

theorem find?_prune_cast {front rest : Address} {key : ChildMap.Key .insertTypecasts}
    (hfront : Address.AvoidsCasts front) :
    s.prune.find? (front ++ .keyed .insertTypecasts key :: rest) =
      s.find? (front ++ .keyed .insertTypecasts key :: rest) := by
  rw [find?_eq_parts, find?_eq_parts]
  exact Parts.find?_prune_cast s.wellFormed.parts hfront

/-- The fields of a pruned scene are those of the scene, pruned. None of them is below a cast. -/
theorem find?_field_of_prune {address : Address} {f : Element .field}
    (h : s.prune.find? address = some ⟨.field, f⟩) :
    ∃ g : Element .field, s.find? address = some ⟨.field, g⟩ ∧ f = g.prune := by
  rcases address.avoidsCasts_or with ha | ⟨front, key, rest, hfront, rfl⟩
  · obtain ⟨⟨k, g⟩, hg, -, hx⟩ := find?_of_prune ha h
    obtain ⟨rfl, hf⟩ := Sigma.mk.inj hx
    exact ⟨g, hg, eq_of_heq hf⟩
  · rw [find?_prune_cast hfront, find?_eq_parts] at h
    rcases Parts.kind_of_find?_cast h with hk | hk <;> nomatch hk

/-- Pruning keeps just the entries that are not vacuous, pruned and in their order. What is at or
below a cast stays as it is, and so do the imports. Pruning again changes nothing. -/
theorem prune_keeps_nonvacuous (s : Valid) :
    (∀ front m key x, Address.AvoidsCasts front →
      (s.prune.find? (front ++ [.keyed m key]) = some x ↔
        ∃ y, s.find? (front ++ [.keyed m key]) = some y ∧ y.2.isVacuous = false ∧
          x = SomeElement.prune y)) ∧
    (∀ address m kept, Address.AvoidsCasts address → s.prune.map? m address = some kept →
      ∃ entries, s.map? m address = some entries ∧
        kept.toList = (entries.toList.filter fun e => !e.2.isVacuous).map
          fun e => (e.1, e.2.prune)) ∧
    (∀ front key rest, Address.AvoidsCasts front →
      s.prune.find? (front ++ .keyed .insertTypecasts key :: rest) =
        s.find? (front ++ .keyed .insertTypecasts key :: rest)) ∧
    s.prune.imports = s.imports ∧
    (∀ address (f : Element .field), s.prune.find? address = some ⟨.field, f⟩ →
      ∃ g : Element .field, s.find? address = some ⟨.field, g⟩ ∧ f = g.prune ∧
        f.initializer? = (g.initializer?.filter fun i => !i.isVacuous).map Element.prune) ∧
    s.prune.prune = s.prune := by
  refine ⟨?_, ?_, ?_, rfl, ?_, s.prune_prune⟩
  · intro front m key x hfront
    rw [find?_eq_parts, find?_eq_parts]
    exact Parts.find?_prune_concat s.wellFormed.parts hfront rfl
  · intro address m kept ha h
    obtain ⟨entries, hentries, rfl⟩ := map?_of_prune ha h
    exact ⟨entries, hentries, entries.toList_prune⟩
  · intro front key rest hfront
    exact find?_prune_cast hfront
  · intro address f h
    obtain ⟨g, hg, rfl⟩ := find?_field_of_prune h
    exact ⟨g, hg, rfl, g.initializer?_prune⟩

theorem prune_keeps_nonvacuous_fields :
    let field := (Element.field "f").withAnnotations [.marker (.ofName "A" "p")]
    let initialized := field.withParts
      (field.parts.setSlot (.optional .init) (some (.expression "e")))
    let fields : Entries .fields := .cons "g" (.field "g") (.cons "f" initialized .nil)
    let owner := (Element.classType "C").withParts
      ((Element.classType "C").parts.setSlot (.keyed .fields) fields)
    let s : Scene := { classes := .cons "C" owner .nil }
    s.WellFormed ∧ s.prune.find? [.keyed .classes "C", .keyed .fields "g"] = none ∧
      (∃ f : Element .field,
        s.prune.find? [.keyed .classes "C", .keyed .fields "f"] = some ⟨.field, f⟩ ∧
          f.initializer? = none) ∧
      s.prune.prune = s.prune := by
  intro field initialized fields owner s
  have hw : s.WellFormed := by decide
  obtain ⟨hkeep, -, -, -, hinit, hagain⟩ := prune_keeps_nonvacuous ⟨s, hw⟩
  have havoid : Address.AvoidsCasts [.keyed .classes "C"] := by
    intro key h
    nomatch List.mem_singleton.mp h
  refine ⟨hw, ?_, ?_, hagain⟩
  · cases h : s.prune.find? [.keyed .classes "C", .keyed .fields "g"] with
    | none => rfl
    | some x =>
      obtain ⟨y, hy, hv, -⟩ := (hkeep [.keyed .classes "C"] .fields "g" x havoid).mp h
      obtain rfl := Option.some.inj hy
      nomatch hv
  · have hf := (hkeep [.keyed .classes "C"] .fields "f" _ havoid).mpr ⟨_, rfl, rfl, rfl⟩
    obtain ⟨g, hg, -, hnone⟩ := hinit _ _ hf
    obtain rfl := eq_of_heq (Sigma.mk.inj (Option.some.inj hg)).2
    exact ⟨_, hf, hnone⟩

end Scene

end AnnotationScene
