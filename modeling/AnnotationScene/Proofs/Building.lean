import AnnotationScene.Proofs.Verifying
import AnnotationScene.Proofs.Widening

/-!
# Values that were checked when they were given

An annotation is built value by value, and each value is held against the fields that its own
definition knows. Merging may teach that definition more, but only what an empty array has left
open: no field is lost, and no field refuses a value that it accepted before. So verification
finds nothing to report in a scene whose annotations were built that way.
-/

namespace AnnotationScene

/-- The annotation was made from a bare one by giving it values, each of which was accepted. -/
inductive Annotation.Built : Annotation → Prop
  | marker (d : Definition) : Annotation.Built (.marker d)
  | value {a b : Annotation} (field : String) (value : Value) : a.Built →
      a.withValue field value = .ok b → b.Built

-- ---------------------------------------------------------------------------
-- What building checks
-- ---------------------------------------------------------------------------

theorem Table.mem_insert {α : Type} {name : String} {value : α} {t : List (String × α)}
    {x : String × α} (h : x ∈ Table.insert name value t) : x = (name, value) ∨ x ∈ t := by
  induction t with
  | nil => exact .inl (List.mem_singleton.mp h)
  | cons e rest ih =>
    unfold Table.insert at h
    split at h
    next => exact List.mem_cons.mp h
    next =>
      split at h
      next => exact (List.mem_cons.mp h).imp_right (List.mem_cons_of_mem e)
      next =>
        rcases List.mem_cons.mp h with rfl | h
        · exact .inr List.mem_cons_self
        · exact (ih h).imp_right (List.mem_cons_of_mem e)

theorem Annotation.withValue_eq_ok {a b : Annotation} {field : String} {value : Value}
    (h : a.withValue field value = .ok b) :
    b = ⟨a.definition, Table.insert field value a.values⟩ ∧
      (a.definition.hasFields = true → ∃ type, a.definition.fieldType? field = some type ∧
        type.accepts value = true) := by
  unfold Annotation.withValue at h
  split at h
  next hfields =>
    split at h
    next => cases h
    next type htype =>
      split at h
      next haccepts => exact ⟨(Except.ok.inj h).symm, fun _ => ⟨type, htype, haccepts⟩⟩
      next => cases h
  next hfields => exact ⟨(Except.ok.inj h).symm, fun hyes => absurd hyes hfields⟩

theorem Annotation.Built.admits {a : Annotation} (h : a.Built) : a.definition.Admits a := by
  induction h with
  | marker d => exact fun _ x hx => nomatch hx
  | value field value _ hvalue ih =>
    obtain ⟨rfl, hchecked⟩ := Annotation.withValue_eq_ok hvalue
    intro hfields x hx
    rcases Table.mem_insert hx with rfl | hx
    · exact hchecked hfields
    · exact ih hfields x hx

-- ---------------------------------------------------------------------------
-- What merging keeps
-- ---------------------------------------------------------------------------

theorem FieldType.within_of_partOf (t : FieldType) {u : FieldType} (h : t.PartOf u) :
    t.Within u := by
  match t with
  | .nested d =>
    cases h with
    | nested hpart => exact FieldType.within_nested hpart.name
  | .array c =>
    cases h with
    | array hpart => exact (c.within_of_partOf hpart).array
  | .unknownArray =>
    cases h with
    | unknownArray => exact .refl _
    | learned c => exact FieldType.within_unknownArray c
  | .basic _ | .classToken | .enum _ =>
    cases h
    exact .refl _

theorem FieldType.PartOfTable.get? {t u : List (String × FieldType)}
    (h : FieldType.PartOfTable t u) {name : String} {type : FieldType}
    (ht : Table.get? t name = some type) :
    ∃ type', Table.get? u name = some type' ∧ type.PartOf type' := by
  match h with
  | .nil => nomatch ht
  | .cons hpart hrest =>
    rw [Table.get?_cons] at ht ⊢
    split at ht
    next hn => exact ⟨_, if_pos hn, Option.some.inj ht ▸ hpart⟩
    next hn => simpa only [if_neg hn] using hrest.get? ht

theorem Definition.Admits.of_partOf {d m : Definition} {a : Annotation} (h : d.Admits a)
    (hpart : d.PartOf m) (hfields : d.hasFields = true) : m.Admits a := by
  intro _ x hx
  obtain ⟨type, htype, haccepts⟩ := h hfields x hx
  have hne : d.fieldTable ≠ [] := by simpa [Definition.hasFields] using hfields
  have htable := (Definition.partOf_iff.mp hpart).2.2.resolve_left hne
  obtain ⟨type', htype', hle⟩ := htable.get? htype
  exact ⟨type', htype', type.within_of_partOf hle x.2 haccepts⟩

theorem Annotation.Built.admits_of_partOf {a : Annotation} (h : a.Built)
    (hfields : a.values ≠ [] → a.definition.hasFields = true) {m : Definition}
    (hpart : a.definition.PartOf m) : m.Admits a := by
  by_cases hvalues : a.values = []
  · intro _ x hx
    rw [hvalues] at hx
    nomatch hx
  · exact h.admits.of_partOf hpart (hfields hvalues)

namespace Collector

variable {config : CollectorConfig} {s : Scene.Valid}

theorem verification_of_built {p : Progress}
    (hbuilt : ∀ a b, s.Attaches a → a.Mentions b → b.Built)
    (hfields : ∀ a b, s.Attaches a → a.Mentions b → b.values ≠ [] → b.definition.hasFields = true)
    (hp : AnnotationSet.collectAll config s.gather {} = .ok p) :
    verification config s p = .ok () := by
  refine verification_eq_ok_iff.mpr fun _ a b ha hb d hd => ?_
  obtain ⟨d', hd', hpart⟩ := exists_entry hp ha hb
  obtain rfl := Option.some.inj (hd'.symm.trans hd)
  exact (hbuilt a b ha hb).admits_of_partOf (hfields a b ha hb) hpart

/-- For annotations that were built against known fields, verifying changes nothing: there are the
same definitions, or the same contradiction. -/
theorem ofScene_verified_of_built (s : Scene.Valid)
    (hbuilt : ∀ a b, s.Attaches a → a.Mentions b → b.Built)
    (hfields : ∀ a b, s.Attaches a → a.Mentions b → b.values ≠ [] →
      b.definition.hasFields = true) :
    ofScene { config with verify := true } s =
        (ofScene { config with verify := false } s).map (fun r =>
          (⟨{ config with verify := true }, r.1.table⟩, r.2)) ∧
      ∀ failure, ofScene { config with verify := true } s = .error failure →
        ∃ known found, failure.error = .conflict known found := by
  cases hg : AnnotationSet.collectAll { config with verify := true } s.gather {} with
  | error failure =>
    obtain ⟨known, found, herror, -⟩ := Scene.clashes_of_gather_error hg
    rw [ofScene_of_gather_error hg, ofScene_of_gather_error (gather_unverified.trans hg)]
    refine ⟨rfl, fun failure' h => ?_⟩
    obtain rfl := Except.error.inj h
    exact ⟨known, found, herror⟩
  | ok p =>
    rw [ofScene_unverified hg, ofScene_of_gather_ok hg, verification_of_built hbuilt hfields hg]
    exact ⟨rfl, fun failure h => nomatch h⟩

theorem ofScene_verified_of_built_empty_array :
    let item := Definition.ofName "B" "q"
    let short : Definition := ⟨"A", [], some [("items", .unknownArray)], "p"⟩
    let long : Definition := ⟨"A", [], some [("items", .array (.nested item))], "q"⟩
    let user : Definition := ⟨"C", [], some [("all", .array (.nested short))], "p"⟩
    let empty : Annotation := ⟨short, [("items", .array [])]⟩
    let filled : Annotation := ⟨long, [("items", .array [.nested (.marker item)])]⟩
    let s := Scene.ofPackage "p" [⟨user, [("all", .array [.nested empty, .nested filled])]⟩]
    s.WellFormed ∧ (∀ a b, s.Attaches a → a.Mentions b →
      b.Built ∧ (b.values ≠ [] → b.definition.hasFields = true)) ∧
      ∃ c events, ofScene {} s = .ok (c, events) ∧
        c.get? "A" = some ⟨"A", [], long.fields, "unify(p, q)"⟩ := by
  intro item short long user empty filled s
  have hw : s.WellFormed := by decide
  have hall : ∀ a b, s.Attaches a → a.Mentions b →
      b.Built ∧ (b.values ≠ [] → b.definition.hasFields = true) := by
    intro a b ha hb
    have hmem : b ∈ s.mentioned := (@Scene.mem_mentioned_iff ⟨s, hw⟩ b).mpr ⟨a, ha, hb⟩
    have hlist : s.mentioned = [⟨user, [("all", .array [.nested empty, .nested filled])]⟩,
        empty, filled, .marker item] := rfl
    rw [hlist] at hmem
    simp only [List.mem_cons, List.not_mem_nil, or_false] at hmem
    rcases hmem with rfl | rfl | rfl | rfl
    · exact ⟨.value "all" (.array [.nested empty, .nested filled]) (.marker user) rfl, fun _ => rfl⟩
    · exact ⟨.value "items" (.array []) (.marker short) rfl, fun _ => rfl⟩
    · exact ⟨.value "items" (.array [.nested (.marker item)]) (.marker long) rfl, fun _ => rfl⟩
    · exact ⟨.marker item, fun hvalues => absurd rfl hvalues⟩
  obtain ⟨hsame, -⟩ := @ofScene_verified_of_built {} ⟨s, hw⟩
    (fun a b ha hb => (hall a b ha hb).1) fun a b ha hb => (hall a b ha hb).2
  exact ⟨hw, hall, _, _, hsame, rfl⟩

end Collector

end AnnotationScene
