import AnnotationScene.Collector
import AnnotationScene.Proofs.Merging

/-!
# Reachable definitions

A definition uses those that its field types mention and, if meta-annotations count, those of its
meta-annotations and of the annotations in their values. A scene reaches the definitions of the
annotations at its elements and in their values, and all that these use. A view that is part of
another uses nothing that the other does not know.
-/

namespace AnnotationScene

/-- The annotation stands somewhere in the value. -/
inductive Value.Holds : Value → Annotation → Prop
  | here (a : Annotation) : Value.Holds (.nested a) a
  | deeper {a b : Annotation} {entry : String × Value} : entry ∈ a.values → entry.2.Holds b →
      Value.Holds (.nested a) b
  | element {vs : List Value} {v : Value} {b : Annotation} : v ∈ vs → v.Holds b →
      Value.Holds (.array vs) b

/-- `b` is the annotation itself, or nested in its values. -/
def Annotation.Mentions (a b : Annotation) : Prop :=
  b = a ∨ ∃ entry ∈ a.values, entry.2.Holds b

inductive Definition.Uses (config : CollectorConfig) (d : Definition) : Definition → Prop
  | dependency {e : Definition} : e ∈ d.dependencies → d.Uses config e
  | viaMeta {m b : Annotation} : config.includeMeta = true → m ∈ d.metas → m.Mentions b →
      d.Uses config b.definition

/-- The annotation sits on an element of the scene, or is one of its contracts. -/
def Scene.Attaches (s : Scene) (a : Annotation) : Prop :=
  ∃ address element, s.find? address = some element ∧ a ∈ element.2.attached

inductive Scene.Reaches (config : CollectorConfig) (s : Scene) : Definition → Prop
  | attached {a b : Annotation} : s.Attaches a → a.Mentions b → s.Reaches config b.definition
  | uses {d e : Definition} : s.Reaches config d → d.Uses config e → s.Reaches config e

-- ---------------------------------------------------------------------------
-- Nested annotations
-- ---------------------------------------------------------------------------

theorem Value.sameTable_mem {t u : List (String × Value)} (h : Value.sameTable t u = true) :
    ∀ x ∈ t, ∃ y ∈ u, x.1 = y.1 ∧ x.2.same y.2 = true := by
  induction t generalizing u with
  | nil => exact fun x hx => nomatch hx
  | cons x rest ih =>
    cases u <;> simp only [Value.sameTable, Bool.false_eq_true] at h
    simp only [Bool.and_eq_true, beq_iff_eq] at h
    refine List.forall_mem_cons.mpr ⟨⟨_, List.mem_cons_self, h.1⟩, fun y hy => ?_⟩
    obtain ⟨z, hz, hyz⟩ := ih h.2 y hy
    exact ⟨z, List.mem_cons_of_mem _ hz, hyz⟩

theorem Value.sameList_mem {l m : List Value} (h : Value.sameList l m = true) :
    ∀ v ∈ l, ∃ w ∈ m, v.same w = true := by
  induction l generalizing m with
  | nil => exact fun v hv => nomatch hv
  | cons v rest ih =>
    cases m <;> simp only [Value.sameList, Bool.false_eq_true] at h
    simp only [Bool.and_eq_true] at h
    refine List.forall_mem_cons.mpr ⟨⟨_, List.mem_cons_self, h.1⟩, fun w hw => ?_⟩
    obtain ⟨x, hx, hwx⟩ := ih h.2 w hw
    exact ⟨x, List.mem_cons_of_mem _ hx, hwx⟩

theorem Value.Holds.of_same {v w : Value} {b : Annotation} (h : v.Holds b)
    (hs : v.same w = true) : ∃ c, w.Holds c ∧ b.same c = true := by
  induction h generalizing w with
  | here a =>
    cases w <;> simp only [Value.same, Bool.false_eq_true] at hs
    exact ⟨_, .here _, hs⟩
  | deeper hentry _ ih =>
    cases w <;> simp only [Value.same, Bool.false_eq_true] at hs
    obtain ⟨-, hvalues⟩ := Annotation.same_iff.mp hs
    obtain ⟨y, hy, -, hxy⟩ := Value.sameTable_mem hvalues _ hentry
    obtain ⟨c, hc, hbc⟩ := ih hxy
    exact ⟨c, .deeper hy hc, hbc⟩
  | element hmem _ ih =>
    cases w <;> simp only [Value.same, Bool.false_eq_true] at hs
    obtain ⟨y, hy, hxy⟩ := Value.sameList_mem hs _ hmem
    obtain ⟨c, hc, hbc⟩ := ih hxy
    exact ⟨c, .element hy hc, hbc⟩

theorem Annotation.Mentions.of_same {a a' b : Annotation} (h : a.Mentions b)
    (hs : a.same a' = true) : ∃ c, a'.Mentions c ∧ b.same c = true := by
  rcases h with rfl | ⟨x, hx, hb⟩
  · exact ⟨a', .inl rfl, hs⟩
  · obtain ⟨-, hvalues⟩ := Annotation.same_iff.mp hs
    obtain ⟨y, hy, -, hxy⟩ := Value.sameTable_mem hvalues x hx
    obtain ⟨c, hc, hbc⟩ := hb.of_same hxy
    exact ⟨c, .inr ⟨y, hy, hc⟩, hbc⟩

theorem Value.holds_nested_iff {a b : Annotation} :
    Value.Holds (.nested a) b ↔ a.Mentions b := by
  constructor
  · intro h
    cases h with
    | here => exact .inl rfl
    | deeper hx hb => exact .inr ⟨_, hx, hb⟩
  · rintro (rfl | ⟨x, hx, hb⟩)
    · exact .here b
    · exact .deeper hx hb

theorem Value.holds_array_iff {vs : List Value} {b : Annotation} :
    Value.Holds (.array vs) b ↔ ∃ v ∈ vs, v.Holds b := by
  constructor
  · intro h
    cases h with
    | element hv hb => exact ⟨_, hv, hb⟩
  · rintro ⟨v, hv, hb⟩
    exact .element hv hb

theorem Value.mem_annotationsInTable_iff {t : List (String × Value)} {b : Annotation} :
    b ∈ Value.annotationsInTable t ↔ ∃ x ∈ t, b ∈ x.2.annotations := by
  induction t with
  | nil => simp [Value.annotationsInTable]
  | cons x rest ih => simp [Value.annotationsInTable, ih]

theorem Value.mem_annotationsInList_iff {l : List Value} {b : Annotation} :
    b ∈ Value.annotationsInList l ↔ ∃ v ∈ l, b ∈ v.annotations := by
  induction l with
  | nil => simp [Value.annotationsInList]
  | cons v rest ih => simp [Value.annotationsInList, ih]

theorem Annotation.nestedAnnotations_eq (a : Annotation) :
    a.nestedAnnotations = Value.annotationsInTable a.values := by
  cases a
  rfl

theorem Value.Holds.mem_annotations {v : Value} {b : Annotation} (h : v.Holds b) :
    b ∈ v.annotations := by
  induction h with
  | here a => exact List.mem_cons_self
  | deeper hx _ ih =>
    rw [Value.annotations, Annotation.nestedAnnotations_eq]
    exact List.mem_cons_of_mem _ (Value.mem_annotationsInTable_iff.mpr ⟨_, hx, ih⟩)
  | element hv _ ih => exact Value.mem_annotationsInList_iff.mpr ⟨_, hv, ih⟩

mutual
theorem Value.holds_of_mem_annotations : (v : Value) → {b : Annotation} →
    b ∈ v.annotations → v.Holds b
  | .nested ⟨definition, values⟩, b, h => by
    simp only [Value.annotations, Annotation.nestedAnnotations, List.mem_cons] at h
    rcases h with rfl | h
    · exact .here _
    · obtain ⟨x, hx, hb⟩ := Value.holds_of_mem_table values h
      exact .deeper hx hb
  | .array vs, b, h => by
    obtain ⟨v, hv, hb⟩ := Value.holds_of_mem_list vs h
    exact .element hv hb
  | .byte _, _, h | .short _, _, h | .char _, _, h | .int _, _, h | .long _, _, h
  | .float _, _, h | .double _, _, h | .boolean _, _, h | .string _, _, h
  | .classToken _, _, h | .enum _ _, _, h => nomatch h
theorem Value.holds_of_mem_table : (t : List (String × Value)) → {b : Annotation} →
    b ∈ Value.annotationsInTable t → ∃ x ∈ t, x.2.Holds b
  | [], _, h => nomatch h
  | (n, v) :: rest, b, h => by
    rcases List.mem_append.mp h with h | h
    · exact ⟨(n, v), List.mem_cons_self, v.holds_of_mem_annotations h⟩
    · obtain ⟨x, hx, hb⟩ := Value.holds_of_mem_table rest h
      exact ⟨x, List.mem_cons_of_mem _ hx, hb⟩
theorem Value.holds_of_mem_list : (l : List Value) → {b : Annotation} →
    b ∈ Value.annotationsInList l → ∃ v ∈ l, v.Holds b
  | [], _, h => nomatch h
  | v :: rest, b, h => by
    rcases List.mem_append.mp h with h | h
    · exact ⟨v, List.mem_cons_self, v.holds_of_mem_annotations h⟩
    · obtain ⟨x, hx, hb⟩ := Value.holds_of_mem_list rest h
      exact ⟨x, List.mem_cons_of_mem _ hx, hb⟩
end

theorem Annotation.mem_cons_nestedAnnotations_iff {a b : Annotation} :
    b ∈ a :: a.nestedAnnotations ↔ a.Mentions b := by
  rw [← Value.holds_nested_iff]
  exact ⟨Value.holds_of_mem_annotations (.nested a), Value.Holds.mem_annotations⟩

-- ---------------------------------------------------------------------------
-- What parts use
-- ---------------------------------------------------------------------------

theorem FieldType.PartOf.definition? {t u : FieldType} (h : t.PartOf u) {d : Definition}
    (hd : t.definition? = some d) : ∃ e, u.definition? = some e ∧ d.PartOf e := by
  match h with
  | .nested hpart => exact ⟨_, rfl, Option.some.inj hd ▸ hpart⟩
  | .array hpart => exact hpart.definition? hd

theorem FieldType.PartOfTable.mem {t u : List (String × FieldType)}
    (h : FieldType.PartOfTable t u) : ∀ x ∈ t, ∃ y ∈ u, x.2.PartOf y.2 := by
  match h with
  | .nil => exact fun x hx => nomatch hx
  | .cons hpart hrest =>
    refine List.forall_mem_cons.mpr ⟨⟨_, List.mem_cons_self, hpart⟩, fun x hx => ?_⟩
    obtain ⟨y, hy, hxy⟩ := hrest.mem x hx
    exact ⟨y, List.mem_cons_of_mem _ hy, hxy⟩

theorem Definition.mem_dependencies {d e : Definition} :
    e ∈ d.dependencies ↔ ∃ x ∈ d.fieldTable, x.2.definition? = some e := by
  simp [Definition.dependencies]

theorem Definition.Uses.of_partOf {config : CollectorConfig} {d e f : Definition}
    (h : d.Uses config e) (hpart : d.PartOf f) : ∃ g, f.Uses config g ∧ e.PartOf g := by
  obtain ⟨-, hmetas, hfields⟩ := Definition.partOf_iff.mp hpart
  cases h with
  | dependency hmem =>
    obtain ⟨x, hx, he⟩ := Definition.mem_dependencies.mp hmem
    have htable := hfields.resolve_left (List.ne_nil_of_mem hx)
    obtain ⟨y, hy, hxy⟩ := htable.mem x hx
    obtain ⟨g, hg, heg⟩ := hxy.definition? he
    exact ⟨g, .dependency (Definition.mem_dependencies.mpr ⟨y, hy, hg⟩), heg⟩
  | viaMeta hc hm hb =>
    have hsame := hmetas.resolve_left (List.ne_nil_of_mem hm)
    obtain ⟨m', hm', hmm'⟩ := (AnnotationSet.same_iff.mp hsame).2 _ hm
    obtain ⟨c, hc', hbc⟩ := hb.of_same hmm'
    obtain ⟨hdefinition, -⟩ := Annotation.same_iff.mp hbc
    exact ⟨c.definition, .viaMeta hc hm' hc', Definition.partOf_of_same _ hdefinition⟩

-- ---------------------------------------------------------------------------
-- What merged views use
-- ---------------------------------------------------------------------------

theorem FieldType.definition?_unify? (t : FieldType) {u m : FieldType} {x : Definition}
    (h : t.unify? u = some m) (hx : m.definition? = some x) :
    t.definition? = some x ∨ u.definition? = some x ∨
      ∃ d e, t.definition? = some d ∧ u.definition? = some e ∧ d.unify? e = some x := by
  match t with
  | .nested d =>
    cases FieldType.merges_of_unify? h with
    | nested hm =>
      obtain rfl := Option.some.inj hx
      exact .inr (.inr ⟨d, _, rfl, rfl, hm⟩)
  | .array b =>
    cases FieldType.merges_of_unify? h with
    | array hm => simpa only [FieldType.definition?] using b.definition?_unify? hm hx
    | known => exact .inl hx
  | .unknownArray =>
    cases FieldType.merges_of_unify? h with
    | learned c => exact .inr (.inl hx)
    | unknownArray => cases hx
  | .basic _ | .classToken | .enum _ =>
    cases FieldType.merges_of_unify? h
    cases hx

theorem FieldType.mem_unifyTable? {t u m : List (String × FieldType)}
    (h : FieldType.unifyTable? t u = some m) :
    ∀ z ∈ m, ∃ x ∈ t, ∃ y ∈ u, x.2.unify? y.2 = some z.2 := by
  induction t generalizing u m with
  | nil =>
    obtain ⟨-, rfl⟩ := FieldType.unifyTable?_nil h
    exact fun z hz => nomatch hz
  | cons x rest ih =>
    cases u with
    | nil => simp [FieldType.unifyTable?] at h
    | cons y others =>
      obtain ⟨-, type, table, htype, htable, rfl⟩ := FieldType.unifyTable?_cons_eq_some.mp h
      refine List.forall_mem_cons.mpr
        ⟨⟨x, List.mem_cons_self, y, List.mem_cons_self, htype⟩, fun z hz => ?_⟩
      obtain ⟨x', hx', y', hy', hz'⟩ := ih htable z hz
      exact ⟨x', List.mem_cons_of_mem _ hx', y', List.mem_cons_of_mem _ hy', hz'⟩

/-- Merging may create definitions that neither view uses, but only by merging two that they do. -/
theorem Definition.Uses.of_unify? {config : CollectorConfig} {d e m x : Definition}
    (hx : m.Uses config x) (h : d.unify? e = some m) :
    d.Uses config x ∨ e.Uses config x ∨
      ∃ d' e', d.Uses config d' ∧ e.Uses config e' ∧ d'.unify? e' = some x := by
  unfold Definition.unify? at h
  split at h
  next => exact .inl (Option.some.inj h ▸ hx)
  next =>
    obtain ⟨-, -, hmetas, hfields⟩ := Definition.merge?_cases h
    cases hx with
    | dependency hmem =>
      obtain ⟨z, hz, hzx⟩ := Definition.mem_dependencies.mp hmem
      rcases hfields with ⟨-, ht⟩ | ⟨-, ht⟩ | ht
      · exact .inr (.inl (.dependency (Definition.mem_dependencies.mpr ⟨z, ht ▸ hz, hzx⟩)))
      · exact .inl (.dependency (Definition.mem_dependencies.mpr ⟨z, ht ▸ hz, hzx⟩))
      · obtain ⟨y, hy, y', hy', hyz⟩ := FieldType.mem_unifyTable? ht z hz
        have hd : ∀ {g}, y.2.definition? = some g → d.Uses config g := fun hg =>
          .dependency (Definition.mem_dependencies.mpr ⟨y, hy, hg⟩)
        have he : ∀ {g}, y'.2.definition? = some g → e.Uses config g := fun hg =>
          .dependency (Definition.mem_dependencies.mpr ⟨y', hy', hg⟩)
        rcases y.2.definition?_unify? hyz hzx with hg | hg | ⟨d', e', hd', he', hx⟩
        · exact .inl (hd hg)
        · exact .inr (.inl (he hg))
        · exact .inr (.inr ⟨d', e', hd hd', he he', hx⟩)
    | viaMeta hc hm hb =>
      rcases unifyMetas?_eq_or hmetas with heq | heq
      · exact .inl (.viaMeta hc (heq ▸ hm) hb)
      · exact .inr (.inl (.viaMeta hc (heq ▸ hm) hb))

-- ---------------------------------------------------------------------------
-- What well-formed annotations and definitions lead to
-- ---------------------------------------------------------------------------

theorem Annotation.wellFormed_iff {a : Annotation} :
    a.WellFormed ↔ a.definition.WellFormed ∧ ∀ x ∈ a.values, x.2.WellFormed := by
  obtain ⟨definition, values⟩ := a
  have htable : Value.WellFormedTable values ↔ ∀ x ∈ values, x.2.WellFormed := by
    induction values with
    | nil => simp [Value.WellFormedTable]
    | cons x rest ih => simp [Value.WellFormedTable, ih]
  unfold Annotation.WellFormed
  rw [htable]

theorem Value.wellFormedList_iff {l : List Value} :
    Value.WellFormedList l ↔ ∀ v ∈ l, v.WellFormed := by
  induction l with
  | nil => simp [Value.WellFormedList]
  | cons v rest ih => simp [Value.WellFormedList, ih]

theorem Value.Holds.wellFormed {v : Value} {b : Annotation} (h : v.Holds b)
    (hw : v.WellFormed) : b.WellFormed := by
  induction h with
  | here a => exact hw
  | deeper hx _ ih =>
    obtain ⟨-, hvalues⟩ := Annotation.wellFormed_iff.mp hw
    exact ih (hvalues _ hx)
  | element hv _ ih => exact ih (Value.wellFormedList_iff.mp hw _ hv)

theorem Annotation.Mentions.wellFormed {a b : Annotation} (h : a.Mentions b)
    (hw : a.WellFormed) : b.definition.WellFormed := by
  have hheld : b.WellFormed := (Value.holds_nested_iff.mpr h).wellFormed hw
  obtain ⟨hdefinition, -⟩ := Annotation.wellFormed_iff.mp hheld
  exact hdefinition

theorem FieldType.wellFormed_definition? (t : FieldType) {d : Definition}
    (h : t.definition? = some d) (hw : t.WellFormed) : d.WellFormed := by
  match t with
  | .nested e => exact Option.some.inj h ▸ hw
  | .array c => exact c.wellFormed_definition? h hw

theorem Definition.Uses.wellFormed {config : CollectorConfig} {d e : Definition}
    (h : d.Uses config e) (hw : d.WellFormed) : e.WellFormed := by
  cases h with
  | dependency hmem =>
    obtain ⟨x, hx, he⟩ := Definition.mem_dependencies.mp hmem
    exact x.2.wellFormed_definition? he (FieldType.wellFormedTable_iff.mp hw.fieldTable x hx)
  | viaMeta _ hm hb =>
    exact hb.wellFormed ((AnnotationSet.wellFormed_iff.mp hw.metas).1 _ hm)

end AnnotationScene
