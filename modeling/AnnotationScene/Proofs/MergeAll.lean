import AnnotationScene.Proofs.Merging

/-!
# Merging many views

`Definition.mergeAll?` merges a list of views from the left. Whatever the order, the result is the
least view that has them all as parts, so any two orders give results that are the same.
-/

namespace AnnotationScene

/-- The views of one definition merged one after the other; there has to be one. -/
def Definition.mergeAll? : List Definition → Option Definition
  | [] => none
  | d :: rest => rest.foldlM Definition.unify? d

namespace Definition

theorem mergeAll?_concat {l : List Definition} {m d : Definition} (h : mergeAll? l = some m) :
    mergeAll? (l ++ [d]) = m.unify? d := by
  cases l with
  | nil => cases h
  | cons first rest =>
    simp only [mergeAll?] at h
    simp [mergeAll?, h]

theorem foldlM_unify?_spec {rest : List Definition} {d m : Definition} (hd : d.WellFormed)
    (hrest : ∀ e ∈ rest, e.WellFormed) (h : rest.foldlM unify? d = some m) :
    m.WellFormed ∧ d.PartOf m ∧ ∀ e ∈ rest, e.PartOf m := by
  induction rest generalizing d with
  | nil =>
    obtain rfl := Option.some.inj h
    exact ⟨hd, .refl d, fun e he => nomatch he⟩
  | cons e rest ih =>
    obtain ⟨he, hrest⟩ := List.forall_mem_cons.mp hrest
    rw [List.foldlM_cons, Option.bind_eq_bind, Option.bind_eq_some_iff] at h
    obtain ⟨x, hx, h⟩ := h
    obtain ⟨hdx, hex⟩ := partOf_unify? hd hx
    obtain ⟨hm, hxm, hall⟩ := ih (wellFormed_unify? hd he hx) hrest h
    exact ⟨hm, hdx.trans hxm, List.forall_mem_cons.mpr ⟨hex.trans hxm, hall⟩⟩

theorem mergeAll?_spec {l : List Definition} {m : Definition} (hl : ∀ d ∈ l, d.WellFormed)
    (h : mergeAll? l = some m) : m.WellFormed ∧ ∀ d ∈ l, d.PartOf m := by
  cases l with
  | nil => cases h
  | cons d rest =>
    obtain ⟨hd, hrest⟩ := List.forall_mem_cons.mp hl
    obtain ⟨hm, hdm, hall⟩ := foldlM_unify?_spec hd hrest h
    exact ⟨hm, List.forall_mem_cons.mpr ⟨hdm, hall⟩⟩

theorem foldlM_unify?_least {rest : List Definition} {d f : Definition}
    (hrest : ∀ e ∈ rest, e.WellFormed) (hd : d.PartOf f) (hparts : ∀ e ∈ rest, e.PartOf f) :
    ∃ m, rest.foldlM unify? d = some m ∧ m.PartOf f := by
  induction rest generalizing d with
  | nil => exact ⟨d, rfl, hd⟩
  | cons e rest ih =>
    obtain ⟨he, hrest⟩ := List.forall_mem_cons.mp hrest
    obtain ⟨hef, hparts⟩ := List.forall_mem_cons.mp hparts
    obtain ⟨x, hx, hxf⟩ := unify?_least he hd hef
    obtain ⟨m, hm, hmf⟩ := ih hrest hxf hparts
    exact ⟨m, by simp [hx, hm], hmf⟩

theorem mergeAll?_least {l : List Definition} {f : Definition} (hne : l ≠ [])
    (hl : ∀ d ∈ l, d.WellFormed) (hparts : ∀ d ∈ l, d.PartOf f) :
    ∃ m, mergeAll? l = some m ∧ m.PartOf f := by
  cases l with
  | nil => exact absurd rfl hne
  | cons d rest =>
    obtain ⟨-, hrest⟩ := List.forall_mem_cons.mp hl
    obtain ⟨hd, hparts⟩ := List.forall_mem_cons.mp hparts
    exact foldlM_unify?_least hrest hd hparts

theorem foldlM_unify?_coherent {rest : List Definition} {d f m : Definition}
    (h : rest.foldlM unify? d = some m) (hd : (d.unify? f).isSome)
    (hrest : ∀ e ∈ rest, (e.unify? f).isSome) : (m.unify? f).isSome := by
  induction rest generalizing d with
  | nil =>
    obtain rfl := Option.some.inj h
    exact hd
  | cons e rest ih =>
    obtain ⟨he, hrest⟩ := List.forall_mem_cons.mp hrest
    rw [List.foldlM_cons, Option.bind_eq_bind, Option.bind_eq_some_iff] at h
    obtain ⟨x, hx, h⟩ := h
    exact ih h (unify?_coherent hx hd he) hrest

/-- What contradicts a merged view contradicts one of the views that went into it. -/
theorem exists_unify?_eq_none {l : List Definition} {f m : Definition} (h : mergeAll? l = some m)
    (hnone : m.unify? f = none) : ∃ d ∈ l, d.unify? f = none := by
  refine Classical.byContradiction fun hall => ?_
  have hsome : ∀ d ∈ l, (d.unify? f).isSome := by
    intro d hd
    cases hx : d.unify? f with
    | none => exact absurd ⟨d, hd, hx⟩ hall
    | some x => rfl
  have hm : (m.unify? f).isSome := by
    cases l with
    | nil => cases h
    | cons d rest =>
      obtain ⟨hd, hrest⟩ := List.forall_mem_cons.mp hsome
      exact foldlM_unify?_coherent h hd hrest
  simp [hnone] at hm

theorem name_foldlM_unify? {rest : List Definition} {d m : Definition}
    (h : rest.foldlM unify? d = some m) : m.name = d.name := by
  induction rest generalizing d with
  | nil => exact Option.some.inj h ▸ rfl
  | cons e rest ih =>
    rw [List.foldlM_cons, Option.bind_eq_bind, Option.bind_eq_some_iff] at h
    obtain ⟨x, hx, h⟩ := h
    exact (ih h).trans (name_unify? hx).1

theorem name_mergeAll? {l : List Definition} {n : String} {m : Definition}
    (h : mergeAll? l = some m) (hl : ∀ d ∈ l, d.name = n) : m.name = n := by
  cases l with
  | nil => cases h
  | cons d rest => exact (name_foldlM_unify? h).trans (hl d List.mem_cons_self)

end Definition

end AnnotationScene
