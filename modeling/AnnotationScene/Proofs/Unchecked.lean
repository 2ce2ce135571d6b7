import AnnotationScene.Proofs.Building

/-!
# What verification does not look at

With `includeMeta` the definitions of meta-annotations are collected, but verification goes through
the annotations of the scene only. A meta-annotation that was given its values while no field of its
definition was known may so contradict the definition that the collector has in the end. That is
the only way: what a definition with fields has accepted stays accepted.
-/

namespace AnnotationScene

theorem Definition.exists_refuses_iff {d : Definition} {x : String × Value} :
    (∃ error, d.Refuses x error) ↔
      ¬ ∃ type, d.fieldType? x.1 = some type ∧ type.accepts x.2 = true := by
  rw [← DefinitionTable.checkValue_eq_ok_iff]
  constructor
  · rintro ⟨error, hrefuses⟩ hok
    exact DefinitionTable.not_refuses_of_checkValue hok error hrefuses
  · intro hnot
    cases hcheck : DefinitionTable.checkValue d x with
    | error error => exact ⟨error, DefinitionTable.refuses_of_checkValue hcheck⟩
    | ok u => exact absurd hcheck hnot

theorem Definition.not_admits_iff {d : Definition} {a : Annotation} :
    ¬ d.Admits a ↔ d.hasFields = true ∧ ∃ x ∈ a.values, ∃ error, d.Refuses x error := by
  simp only [Definition.Admits, Definition.exists_refuses_iff, Classical.not_imp, not_forall]

namespace Collector

variable {config : CollectorConfig} {s : Scene.Valid} {c : Collector} {events : List Event}

/-- The annotation is a meta-annotation of a collected definition, or nested in one. -/
def MetaMentions (c : Collector) (b : Annotation) : Prop :=
  ∃ name d m, c.get? name = some d ∧ m ∈ d.metas ∧ m.Mentions b

theorem admits_of_attached (hverify : config.verify = true) {p : Progress}
    (h : verification config s p = .ok ()) {a b b' : Annotation} (ha : s.Attaches a)
    (hb : a.Mentions b') (hsame : b.same b' = true) {m : Definition}
    (hm : p.table.get? b.name = some m) : m.Admits b := by
  have hname := Annotation.name_eq_of_same hsame
  have hfits : m.Admits b' := verification_eq_ok_iff.mp h hverify a b' ha hb m (hname ▸ hm)
  exact hfits.of_same m.same_refl hsame

/-- A meta-annotation has its definition in the table. That one has no place for it exactly if its
own definition knew no field and the one in the table refuses a value, and then no annotation of
the scene is the same. -/
theorem meta_refused_iff_fieldless (s : Scene.Valid) (hmeta : config.includeMeta = true)
    (hverify : config.verify = true) (h : ofScene config s = .ok (c, events)) {b : Annotation}
    (hb : c.MetaMentions b) (hbuilt : b.Built) :
    ∃ m, c.get? b.name = some m ∧ b.definition.PartOf m ∧
      (¬ m.Admits b ↔ b.definition.hasFields = false ∧ m.hasFields = true ∧
        ∃ x ∈ b.values, ∃ error, m.Refuses x error) ∧
      (¬ m.Admits b → ∀ a b', s.Attaches a → a.Mentions b' → b.same b' = false) := by
  obtain ⟨p, hp, rfl, hok⟩ := gather_ok_of_ofScene h
  obtain ⟨hsound, -⟩ := Scene.gather_complete hp
  obtain ⟨name, d, a, hd, ha, hab⟩ := hb
  obtain ⟨m, hm, hpart⟩ := hsound.closed hd (.viaMeta hmeta ha hab)
  refine ⟨m, hm, hpart, ⟨fun hnot => ?_, fun hrefused => ?_⟩, fun hnot a b' ha hb => ?_⟩
  · refine ⟨?_, Definition.not_admits_iff.mp hnot⟩
    -- fields that were known have been looked at when the values were given
    refine Bool.eq_false_iff.mpr fun hfields => hnot ?_
    exact hbuilt.admits.of_partOf hpart hfields
  · exact Definition.not_admits_iff.mpr hrefused.2
  · refine Bool.eq_false_iff.mpr fun hsame => hnot ?_
    exact admits_of_attached hverify hok ha hb hsame hm

/-- An empty array was accepted when the elements were not yet known, and still is. -/
theorem meta_refused_iff_fieldless_empty_array :
    let short : Definition := ⟨"M", [], some [("x", .unknownArray)], "q"⟩
    let long : Definition := ⟨"M", [], some [("x", .array (.basic .int))], "r"⟩
    let label : Annotation := ⟨short, [("x", .array [])]⟩
    let user : Definition := ⟨"A", [label], none, "p"⟩
    let config : CollectorConfig := { includeMeta := true, verify := true }
    let s := Scene.ofPackage "p" [.marker user, .marker long]
    s.WellFormed ∧ label.Built ∧ ∃ c events, ofScene config s = .ok (c, events) ∧
      c.MetaMentions label ∧ ∃ m, c.get? "M" = some m ∧ m.Admits label := by
  intro short long label user config s
  have hw : s.WellFormed := by decide +kernel
  have hbuilt : label.Built := .value "x" (.array []) (.marker short) rfl
  obtain ⟨c, events, hok, huser⟩ : ∃ c events, ofScene config s = .ok (c, events) ∧
      c.get? "A" = some user := ⟨_, _, by rfl, by rfl⟩
  have hlabel : c.MetaMentions label :=
    ⟨"A", user, label, huser, List.mem_singleton.mpr rfl, .inl rfl⟩
  obtain ⟨m, hm, -, hiff, -⟩ := meta_refused_iff_fieldless ⟨s, hw⟩ rfl rfl hok hlabel hbuilt
  refine ⟨hw, hbuilt, c, events, hok, hlabel, m, hm, ?_⟩
  by_contra hnot
  nomatch (hiff.mp hnot).1

/-- A meta-annotation that its definition refuses in the end, in a scene that is verified. -/
theorem ofScene_misses_meta :
    let short := Definition.ofName "M" "q"
    let long : Definition := ⟨"M", [], some [("x", .basic .int)], "r"⟩
    let label : Annotation := ⟨short, [("x", .string "one")]⟩
    let user : Definition := ⟨"A", [label], none, "p"⟩
    let config : CollectorConfig := { includeMeta := true, verify := true }
    let s := Scene.ofPackage "p" [.marker user, .marker long]
    s.WellFormed ∧ label.Built ∧ ∃ c events, ofScene config s = .ok (c, events) ∧
      c.MetaMentions label ∧ ∃ m, c.get? label.name = some m ∧ ¬ m.Admits label := by
  intro short long label user config s
  have hw : s.WellFormed := by decide +kernel
  have hbuilt : label.Built := .value "x" (.string "one") (.marker short) rfl
  obtain ⟨c, events, hok, huser, hlong⟩ : ∃ c events, ofScene config s = .ok (c, events) ∧
      c.get? "A" = some user ∧ c.get? "M" = some ⟨"M", [], long.fields, "unify(q, r)"⟩ :=
    ⟨_, _, by rfl, by rfl, by rfl⟩
  refine ⟨hw, hbuilt, c, events, hok,
    ⟨"A", user, label, huser, List.mem_singleton.mpr rfl, .inl rfl⟩, _, hlong, ?_⟩
  refine Definition.not_admits_iff.mpr ⟨rfl, ("x", .string "one"), List.mem_singleton.mpr rfl, ?_⟩
  exact ⟨_, .valueMismatch rfl rfl⟩

end Collector

end AnnotationScene
