import AnnotationScene.Proofs.Conflicts
import AnnotationScene.Proofs.Pruning

/-!
# Pruning is invisible to collecting

A vacuous element has nothing to gather, at itself or below, and pruning moves no other. So the
annotations that a collector is given are those of the scene as it was, in the same order.
-/

namespace AnnotationScene

-- ---------------------------------------------------------------------------
-- Nothing to gather
-- ---------------------------------------------------------------------------

theorem Parts.contractSet_of_isVacuous {layout : List Slot} : (p : Parts layout) →
    p.isVacuous = true → p.contractSet = []
  | .nil, _ => rfl
  | .fixed _ more, hv | .present _ more, hv | .keyed _ more, hv => by
    rw [Parts.isVacuous, Bool.and_eq_true] at hv
    exact more.contractSet_of_isVacuous hv.2
  | .absent more, hv => more.contractSet_of_isVacuous hv
  | .contracts set more, hv => by
    rw [Parts.isVacuous, Bool.and_eq_true, List.isEmpty_iff] at hv
    exact hv.1

mutual
theorem Element.gather_of_isVacuous {k : Kind} : (e : Element k) → e.isVacuous = true →
    e.gather = []
  | .mk header parts, hv => by
    simp only [Element.isVacuous, Header.isVacuous, Bool.and_eq_true, List.isEmpty_iff] at hv
    obtain ⟨⟨-, hown⟩, hparts⟩ := hv
    refine List.eq_nil_iff_forall_not_mem.mpr fun a ha => ?_
    rcases Element.mem_gather_iff.mp ha with ha | ha
    · simp [Element.attached, Element.annotations, Element.header, hown, Element.contracts,
        Element.parts, parts.contractSet_of_isVacuous hparts] at ha
    · simp [Element.parts, parts.gathers_of_isVacuous hparts] at ha
theorem Parts.gathers_of_isVacuous {layout : List Slot} : (p : Parts layout) →
    p.isVacuous = true → p.gathers.flatten = []
  | .nil, _ => rfl
  | .fixed c more, hv | .present c more, hv => by
    rw [Parts.isVacuous, Bool.and_eq_true] at hv
    simp [Parts.gathers, c.gather_of_isVacuous hv.1, more.gathers_of_isVacuous hv.2]
  | .absent more, hv => by
    simp [Parts.gathers, more.gathers_of_isVacuous hv]
  | .keyed entries more, hv => by
    rw [Parts.isVacuous, Bool.and_eq_true] at hv
    simp [Parts.gathers, entries.gather_of_isVacuous hv.1, more.gathers_of_isVacuous hv.2]
  | .contracts _ more, hv => by
    rw [Parts.isVacuous, Bool.and_eq_true] at hv
    simp [Parts.gathers, more.gathers_of_isVacuous hv.2]
theorem Entries.gather_of_isVacuous {m : ChildMap} : (e : Entries m) → e.isVacuous = true →
    e.gather = []
  | .nil, _ => rfl
  | .cons _ c more, hv => by
    rw [Entries.isVacuous, Bool.and_eq_true] at hv
    simp [Entries.gather, c.gather_of_isVacuous hv.1, more.gather_of_isVacuous hv.2]
end

-- ---------------------------------------------------------------------------
-- What is gathered after pruning
-- ---------------------------------------------------------------------------

theorem Parts.contractSet_prune {layout : List Slot} (p : Parts layout) :
    p.prune.contractSet = p.contractSet := by
  rw [contractSet, contractSet, p.slot?_prune]
  cases p.slot? .contracts <;> rfl

mutual
theorem Element.gather_prune {k : Kind} : (e : Element k) → e.prune.gather = e.gather
  | .mk header parts => by
    rw [Element.prune]
    split
    next => rfl
    next => rw [Element.gather, Element.gather, parts.contractSet_prune, parts.gathers_prune]
/-- Slot by slot, so that the order of a visit stays the same. -/
theorem Parts.gathers_prune {layout : List Slot} : (p : Parts layout) →
    p.prune.gathers = p.gathers
  | .nil => rfl
  | .fixed c more | .present (o := .type) c more => by
    simp only [Parts.prune, Parts.gathers, c.gather_prune, more.gathers_prune]
  | .absent more => by simp only [Parts.prune, Parts.gathers, more.gathers_prune]
  | .present (o := .init) c more => by
    simp only [Parts.prune, c.isVacuous_prune]
    split
    next hv => simp only [Parts.gathers, more.gathers_prune, c.gather_of_isVacuous hv]
    next => simp only [Parts.gathers, c.gather_prune, more.gathers_prune]
  | .keyed entries more => by
    simp only [Parts.prune, Parts.gathers, entries.gather_prune, more.gathers_prune]
  | .contracts set more => by simp only [Parts.prune, Parts.gathers, more.gathers_prune]
theorem Entries.gather_prune {m : ChildMap} : (e : Entries m) → e.prune.gather = e.gather
  | .nil => rfl
  | .cons key c more => by
    simp only [Entries.prune, c.isVacuous_prune]
    split
    next hv => simp [Entries.gather, c.gather_of_isVacuous hv, more.gather_prune]
    next => simp only [Entries.gather, c.gather_prune, more.gather_prune]
end

theorem Scene.gather_prune (s : Scene) : s.prune.gather = s.gather := by
  simp only [Scene.gather, Scene.prune, Entries.gather_prune]

namespace Collector

theorem verification_prune (config : CollectorConfig) (s : Scene) (p : Progress) :
    verification config s.prune p = verification config s p := by
  simp only [verification, s.gather_prune]

/-- A collector is given the same annotations in the same order, and so ends with the same table
or the same failure. -/
theorem ofScene_prune (config : CollectorConfig) (s : Scene) :
    s.prune.gather = s.gather ∧
      (ofScene config s.prune).map Prod.fst = (ofScene config s).map Prod.fst := by
  refine ⟨s.gather_prune, ?_⟩
  cases hg : AnnotationSet.collectAll config s.gather {} with
  | error failure =>
    rw [ofScene_of_gather_error hg, ofScene_of_gather_error (s.gather_prune ▸ hg)]
  | ok p =>
    rw [ofScene_of_gather_ok hg, ofScene_of_gather_ok (s.gather_prune ▸ hg), verification_prune]
    -- only the event that counts the classes is left to differ
    cases verification config s p <;> rfl

end Collector

end AnnotationScene
