import AnnotationScene.Proofs.Conflicts
import Mathlib.Logic.Relation

/-!
# Collected definitions know what they mention

Merging two views may put definitions into field types that were never collected themselves. They
say nothing new all the same: whatever a collected definition mentions, at any depth, is part of
the collected definition of that name, and merging it in once more would change nothing.
-/

namespace AnnotationScene

/-- The second definition is mentioned somewhere inside the first. -/
def Definition.Contains (config : CollectorConfig) : Definition → Definition → Prop :=
  Relation.TransGen (Definition.Uses config)

theorem Definition.partOf_iff_unify? {d m : Definition} (hd : d.WellFormed) (hm : m.WellFormed) :
    d.PartOf m ↔ ∃ x, m.unify? d = some x ∧ x.same m = true := by
  constructor
  · intro hpart
    obtain ⟨x, hx, hxm⟩ := Definition.unify?_least hd (.refl m) hpart
    exact ⟨x, hx, hxm.antisymm (Definition.partOf_unify? hm hx).1⟩
  · rintro ⟨x, hx, hsame⟩
    exact (Definition.partOf_unify? hm hx).2.trans (x.partOf_of_same hsame)

theorem Definition.Contains.wellFormed {config : CollectorConfig} {m d : Definition}
    (h : m.Contains config d) (hm : m.WellFormed) : d.WellFormed := by
  induction h with
  | single hd => exact hd.wellFormed hm
  | tail _ hd ih => exact hd.wellFormed ih

open DefinitionTable (Covers)

theorem Progress.Sound.covers_contains {config : CollectorConfig} {R : Definition → Prop}
    {p : Progress} (hp : p.Sound config R) {d e : Definition} (hd : Covers p.table d)
    (he : d.Contains config e) : Covers p.table e := by
  induction he with
  | single he => exact hp.covers_uses hd he
  | tail _ he ih => exact hp.covers_uses ih he

namespace Collector

variable {config : CollectorConfig} {s : Scene} {c : Collector} {events : List Event}

/-- What a collected definition mentions is collected, with all that it says. -/
theorem contains_absorbed (s : Scene.Valid) (h : ofScene config s = .ok (c, events))
    {name : String} {m d : Definition} (hm : c.get? name = some m) (hd : m.Contains config d) :
    ∃ e, c.get? d.name = some e ∧ ∃ x, e.unify? d = some x ∧ x.same e = true := by
  obtain ⟨p, hp, rfl, -⟩ := gather_ok_of_ofScene h
  obtain ⟨hsound, -⟩ := Scene.gather_complete hp
  have hentry : ∀ {n e}, p.table.get? n = some e → e.WellFormed ∧ e.name = n :=
    hsound.wellFormed Scene.useClosed
  obtain ⟨hwm, rfl⟩ := hentry hm
  obtain ⟨e, he, hpart⟩ := hsound.covers_contains ⟨m, hm, .refl m⟩ hd
  exact ⟨e, he, (Definition.partOf_iff_unify? (hd.wellFormed hwm) (hentry he).1).mp hpart⟩

theorem contains_absorbed_never_collected :
    let ints := FieldType.array (.basic .int)
    let left : Definition := ⟨"A", [], some [("x", .unknownArray), ("y", ints)], "p"⟩
    let right : Definition := ⟨"A", [], some [("x", ints), ("y", .unknownArray)], "q"⟩
    let merged : Definition := ⟨"A", [], some [("x", ints), ("y", ints)], "unify(p, q)"⟩
    let inner (d : Definition) : Definition := ⟨"B", [], some [("a", .array (.nested d))], d.source⟩
    let outer (d : Definition) : Definition := ⟨"C", [], some [("b", .nested (inner d))], d.source⟩
    let s := Scene.ofPackage "p" [.marker (outer left), .marker (outer right)]
    s.WellFormed ∧ ∃ c events, ofScene {} s = .ok (c, events) ∧
      c.get? "C" = some (outer merged) ∧ (outer merged).Contains {} merged ∧
      ∃ e, c.get? "A" = some e ∧ ∃ x, e.unify? merged = some x ∧ x.same e = true := by
  intro ints left right merged inner outer s
  have hw : s.WellFormed := by decide
  have hcontains : (outer merged).Contains {} merged :=
    .tail (.single (.dependency (List.mem_singleton.mpr rfl)))
      (.dependency (List.mem_singleton.mpr rfl))
  obtain ⟨c, events, hok, hc⟩ : ∃ c events, ofScene {} s = .ok (c, events) ∧
      c.get? "C" = some (outer merged) := ⟨_, _, by rfl, by rfl⟩
  exact ⟨hw, c, events, hok, hc, hcontains, contains_absorbed ⟨s, hw⟩ hok hc hcontains⟩

end Collector

end AnnotationScene
