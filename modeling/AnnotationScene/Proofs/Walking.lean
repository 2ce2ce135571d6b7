import AnnotationScene.Proofs.Slots

/-!
# Vacuity by a walk

A walk meets an element and then, child by child, what is below it. Vacuity is asked slot by slot
instead: the two agree that an element is vacuous when nothing that the walk meets carries an
annotation or a contract, and no cast is met.
-/

namespace AnnotationScene

-- ---------------------------------------------------------------------------
-- The walk goes by children
-- ---------------------------------------------------------------------------

theorem Entries.walk_eq_values {m : ChildMap} (e : Entries m) :
    e.walk = e.values.flatMap fun c => c.walk := by
  induction e using Entries.induct with
  | nil => rfl
  | cons key c more ih =>
    rw [Entries.walk, ih]
    rfl

theorem Parts.walks_eq_children {layout : List Slot} : (p : Parts layout) →
    p.walks = p.children.map fun l => l.flatMap fun x => x.2.walk
  | .nil => rfl
  | .fixed c more | .present c more => by
    rw [Parts.walks, Parts.children, List.map_cons, more.walks_eq_children, List.flatMap_singleton]
  | .keyed entries more => by
    rw [Parts.walks, Parts.children, List.map_cons, more.walks_eq_children, List.flatMap_map,
      entries.walk_eq_values]
  | .absent more | .contracts _ more => by
    rw [Parts.walks, Parts.children, List.map_cons, more.walks_eq_children, List.flatMap_nil]

theorem Element.walk_eq_children {k : Kind} (e : Element k) :
    e.walk = ⟨k, e⟩ :: e.children.flatMap fun x => x.2.walk := by
  rw [Element.children, k.flatMap_flatten_visitOrder, ← e.parts.walks_eq_children]
  obtain ⟨header, parts⟩ := e
  rfl

-- ---------------------------------------------------------------------------
-- Nothing on the way
-- ---------------------------------------------------------------------------

/-- An element that carries nothing itself, whatever is below it. -/
def Element.IsBare {k : Kind} (e : Element k) : Prop :=
  k ≠ .cast ∧ e.annotations = [] ∧ e.contracts = []

theorem Header.isVacuous_iff {k : Kind} {h : Header k} :
    h.isVacuous = true ↔ k ≠ .cast ∧ h.annotations = [] := by
  simp [Header.isVacuous]

theorem Element.contracts_eq_nil {k : Kind} (hk : k ≠ .method) (e : Element k) :
    e.contracts = [] := by
  apply Parts.contractSet_eq_nil
  cases k with
  | method => exact absurd rfl hk
  | _ => decide

theorem Element.forall_mem_walk {k : Kind} {e : Element k} {P : SomeElement → Prop} :
    (∀ x ∈ e.walk, P x) ↔ P ⟨k, e⟩ ∧ ∀ x ∈ e.parts.walks.flatten, P x := by
  obtain ⟨header, parts⟩ := e
  simp only [Element.walk, List.forall_mem_cons, k.mem_flatten_visitOrder]
  rfl

mutual
theorem Element.isVacuous_iff_bare {k : Kind} : (e : Element k) →
    (e.isVacuous = true ↔ ∀ x ∈ e.walk, x.2.IsBare)
  | .mk header parts => by
    rw [Element.isVacuous, Bool.and_eq_true, Header.isVacuous_iff,
      parts.isVacuous_iff_bare k.layout_nodup, Element.forall_mem_walk]
    constructor
    · rintro ⟨⟨hk, hown⟩, hcontracts, hbelow⟩
      exact ⟨⟨hk, hown, hcontracts⟩, hbelow⟩
    · rintro ⟨⟨hk, hown, hcontracts⟩, hbelow⟩
      exact ⟨⟨hk, hown⟩, hcontracts, hbelow⟩
/-- The contracts are among the parts, and yet belong to no child. -/
theorem Parts.isVacuous_iff_bare {layout : List Slot} : (p : Parts layout) → layout.Nodup →
    (p.isVacuous = true ↔ p.contractSet = [] ∧ ∀ x ∈ p.walks.flatten, x.2.IsBare)
  | .nil, _ => by simp [Parts.isVacuous, Parts.walks, Parts.contractSet, Parts.slot?]
  | .fixed c more, hl | .present c more, hl => by
    rw [Parts.isVacuous, Bool.and_eq_true, c.isVacuous_iff_bare,
      more.isVacuous_iff_bare hl.of_cons, Parts.walks, List.flatten_cons,
      List.forall_mem_append, and_left_comm]
    rfl
  | .absent more, hl => by
    rw [Parts.isVacuous, more.isVacuous_iff_bare hl.of_cons, Parts.walks, List.flatten_cons,
      List.nil_append]
    rfl
  | .keyed entries more, hl => by
    rw [Parts.isVacuous, Bool.and_eq_true, entries.isVacuous_iff_bare,
      more.isVacuous_iff_bare hl.of_cons, Parts.walks, List.flatten_cons,
      List.forall_mem_append, and_left_comm]
    rfl
  | .contracts set more, hl => by
    obtain ⟨hnot, hl⟩ := List.nodup_cons.mp hl
    rw [Parts.isVacuous, Bool.and_eq_true, List.isEmpty_iff, more.isVacuous_iff_bare hl,
      more.contractSet_eq_nil hnot, Parts.walks, List.flatten_cons, List.nil_append]
    simp [Parts.contractSet, Parts.slot?]
theorem Entries.isVacuous_iff_bare {m : ChildMap} : (e : Entries m) →
    (e.isVacuous = true ↔ ∀ x ∈ e.walk, x.2.IsBare)
  | .nil => by simp [Entries.isVacuous, Entries.walk]
  | .cons _ c more => by
    rw [Entries.isVacuous, Bool.and_eq_true, c.isVacuous_iff_bare, more.isVacuous_iff_bare,
      Entries.walk, List.forall_mem_append]
end

/-- An element is vacuous exactly if every element on its walk has no annotations, every method no
contracts, and none is a cast. The walk is the element and then the walks of its children. -/
theorem Element.isVacuous_iff_walk {k : Kind} (e : Element k) :
    (e.isVacuous = true ↔
      (∀ x ∈ e.walk, x.2.annotations = []) ∧
      (∀ m : Element .method, ⟨.method, m⟩ ∈ e.walk → m.contracts = []) ∧
      ∀ x ∈ e.walk, x.1 ≠ .cast) ∧
    e.walk = ⟨k, e⟩ :: e.children.flatMap fun x => x.2.walk := by
  refine ⟨?_, e.walk_eq_children⟩
  rw [e.isVacuous_iff_bare]
  constructor
  · intro h
    exact ⟨fun x hx => (h x hx).2.1, fun m hm => (h _ hm).2.2, fun x hx => (h x hx).1⟩
  · rintro ⟨hown, hmethods, hcasts⟩ ⟨kind, x⟩ hx
    refine ⟨hcasts _ hx, hown _ hx, ?_⟩
    by_cases hk : kind = .method
    · subst hk
      exact hmethods x hx
    · exact x.contracts_eq_nil hk

end AnnotationScene
