import AnnotationScene.Proofs.Collecting
import AnnotationScene.Proofs.Gathering

/-!
# When a scene has no collector

A collection merges each definition it meets into the table and never compares two of them
directly. All the same it stops exactly if two definitions that the scene reaches contradict each
other, and then at a name that has such a pair.
-/

namespace AnnotationScene

open DefinitionTable (Covers Extends)

def Scene.ofPackage (name : String) (annotations : AnnotationSet) : Scene :=
  { packages := .cons name (.mk ⟨name, annotations, ()⟩ (.absent .nil)) .nil }

/-- Two reachable definitions of the name contradict each other. -/
def Scene.Clashes (config : CollectorConfig) (s : Scene) (name : String) : Prop :=
  ∃ d e, s.Reaches config d ∧ s.Reaches config e ∧ d.name = name ∧ e.name = name ∧
    d.unify? e = none

theorem Progress.sound_empty {config : CollectorConfig} {R : Definition → Prop} :
    ({} : Progress).Sound config R where
  distinct := List.nodup_nil
  merged h := nomatch h
  closed h := nomatch h

namespace Scene

variable {config : CollectorConfig} {s : Valid}

theorem useClosed : UseClosed config (s.Reaches config) where
  wellFormed h := s.wellFormed_of_reaches h
  uses h hu := .uses h hu

theorem gather_collects (config : CollectorConfig) (s : Valid) :
    Collects config (s.Reaches config) {}
      (fun x => ∃ a ∈ s.gather, ∃ b, a.Mentions b ∧ x = b.definition)
      (AnnotationSet.collectAll config s.gather {}) := by
  refine AnnotationSet.collectAll_collects useClosed s.gather ?_ Progress.sound_empty
  intro a ha b hb
  exact .attached (mem_gather_iff.mp ha) hb

/-- A collection that ends has met every definition that the scene reaches. -/
theorem gather_complete {p : Progress}
    (h : AnnotationSet.collectAll config s.gather {} = .ok p) :
    p.Sound config (s.Reaches config) ∧ ∀ d, s.Reaches config d → Covers p.table d := by
  have hc := gather_collects config s
  rw [h] at hc
  obtain ⟨hsound, -, hmet⟩ := hc
  refine ⟨hsound, fun d hd => ?_⟩
  induction hd with
  | attached ha hb => exact hmet _ ⟨_, mem_gather_iff.mpr ha, _, hb, rfl⟩
  | uses _ hu ih => exact hsound.covers_uses ih hu

theorem clashes_of_gather_error {failure : Failure}
    (h : AnnotationSet.collectAll config s.gather {} = .error failure) :
    ∃ known found, failure.error = .conflict known found ∧ s.Clashes config found.name := by
  have hc := gather_collects config s
  rw [h] at hc
  obtain ⟨known, found, d, herror, hd, hfound, hname, hnone⟩ := hc
  exact ⟨known, found, herror, d, found, hd, hfound, hname, rfl, hnone⟩

theorem not_clashes_of_gather_ok {p : Progress} {name : String}
    (h : AnnotationSet.collectAll config s.gather {} = .ok p) : ¬ s.Clashes config name := by
  rintro ⟨d, e, hd, he, rfl, hname, hnone⟩
  obtain ⟨-, hcovers⟩ := gather_complete h
  obtain ⟨m, hm, hdm⟩ := hcovers d hd
  obtain ⟨m', hm', hem⟩ := hcovers e he
  obtain rfl : m = m' := Option.some.inj (hm.symm.trans (hname ▸ hm'))
  obtain ⟨x, hx, -⟩ := Definition.unify?_least (s.wellFormed_of_reaches he) hdm hem
  exact nomatch hnone.symm.trans hx

end Scene

namespace Collector

variable {config : CollectorConfig} {s : Scene}

theorem ofScene_of_gather_error {failure : Failure}
    (h : AnnotationSet.collectAll config s.gather {} = .error failure) :
    ofScene config s = .error failure := by
  rw [ofScene, h]
  rfl

theorem ofScene_of_gather_ok {p : Progress}
    (h : AnnotationSet.collectAll config s.gather {} = .ok p) :
    ofScene config s = (verification config s p).map fun _ => (⟨config, p.table⟩,
      p.events ++ [.collectedDefinitions p.table.size s.classes.size]) := by
  rw [ofScene, h]
  change (verification config s p >>= fun _ => _) = _
  cases verification config s p <;> rfl

theorem gather_ok_of_ofScene {c : Collector} {events : List Event}
    (h : ofScene config s = .ok (c, events)) :
    ∃ p, AnnotationSet.collectAll config s.gather {} = .ok p ∧ c = ⟨config, p.table⟩ ∧
      verification config s p = .ok () := by
  cases hg : AnnotationSet.collectAll config s.gather {} with
  | error failure => exact nomatch (ofScene_of_gather_error hg).symm.trans h
  | ok p =>
    rw [ofScene_of_gather_ok hg] at h
    cases hv : verification config s p with
    | error failure =>
      rw [hv] at h
      nomatch h
    | ok u =>
      rw [hv] at h
      obtain ⟨rfl, -⟩ := Prod.mk.inj (Except.ok.inj h)
      exact ⟨p, rfl, rfl, hv⟩

/-- Without verification a collection fails exactly on a contradiction, and tells its name. -/
theorem ofScene_fails_iff_clashes (s : Scene.Valid) (hv : config.verify = false) :
    ((∃ failure, ofScene config s = .error failure) ↔ ∃ name, s.Clashes config name) ∧
      ∀ failure, ofScene config s = .error failure →
        ∃ known found, failure.error = .conflict known found ∧ s.Clashes config found.name := by
  cases hg : AnnotationSet.collectAll config s.gather {} with
  | error failure =>
    obtain ⟨known, found, herror, hclash⟩ := Scene.clashes_of_gather_error hg
    have hs := ofScene_of_gather_error hg
    refine ⟨⟨fun _ => ⟨_, hclash⟩, fun _ => ⟨failure, hs⟩⟩, fun failure' hs' => ?_⟩
    obtain rfl := Except.error.inj (hs.symm.trans hs')
    exact ⟨known, found, herror, hclash⟩
  | ok p =>
    have hok : ∀ failure, ofScene config s ≠ .error failure := by
      intro failure hs
      rw [ofScene_of_gather_ok hg, verification, hv] at hs
      nomatch hs
    refine ⟨⟨fun ⟨failure, hs⟩ => absurd hs (hok failure), fun ⟨name, hclash⟩ => ?_⟩,
      fun failure hs => absurd hs (hok failure)⟩
    exact absurd hclash (Scene.not_clashes_of_gather_ok hg)

theorem ofScene_fails_iff_clashes_nested :
    let numbered : Definition := ⟨"A", [], some [("x", .basic .int)], "p"⟩
    let named : Definition := ⟨"A", [], some [("x", .basic .string)], "p"⟩
    let user : Definition := ⟨"B", [], some [("y", .array (.nested named))], "p"⟩
    let s := Scene.ofPackage "p" [.marker numbered, .marker user]
    s.WellFormed ∧ s.Clashes { verify := false } "A" := by
  intro numbered named user s
  have hw : s.WellFormed := by decide
  refine ⟨hw, ?_⟩
  obtain ⟨known, found, herror, hclash⟩ :=
    (@ofScene_fails_iff_clashes { verify := false } ⟨s, hw⟩ rfl).2 _ rfl
  obtain ⟨-, rfl⟩ := DefinitionError.conflict.inj herror
  exact hclash

end Collector

end AnnotationScene
