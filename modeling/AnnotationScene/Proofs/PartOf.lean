import AnnotationScene.Annotation.Unify
import AnnotationScene.Proofs.Sameness

/-!
# What one view of a definition has of another

`d.PartOf e` says that `e` agrees with `d` and knows at least as much: it may have fields or
meta-annotations where `d` has none, and component types that `d` leaves open. Two views are the
same exactly when each is part of the other.
-/

namespace AnnotationScene

/-- No meta-annotations at all may be a gap in what is known; some are taken for all of them. -/
def AnnotationSet.PartOf (s t : AnnotationSet) : Prop := s = [] ∨ AnnotationSet.same s t = true

theorem AnnotationSet.PartOf.trans {s t u : AnnotationSet} (h : AnnotationSet.PartOf s t)
    (h' : AnnotationSet.PartOf t u) : AnnotationSet.PartOf s u := by
  rcases h with rfl | h
  · exact .inl rfl
  · rcases h' with rfl | h'
    · exact .inl (List.length_eq_zero_iff.mp (AnnotationSet.same_iff.mp h).1)
    · exact .inr (AnnotationSet.same_trans h h')

theorem AnnotationSet.PartOf.antisymm {s t : AnnotationSet} (h : AnnotationSet.PartOf s t)
    (h' : AnnotationSet.PartOf t s) : AnnotationSet.same s t = true := by
  rcases h with rfl | h
  · rcases h' with rfl | h'
    · rfl
    · obtain rfl := List.length_eq_zero_iff.mp (AnnotationSet.same_iff.mp h').1
      rfl
  · exact h

mutual
inductive FieldType.PartOf : FieldType → FieldType → Prop
  | basic (type : BasicType) : FieldType.PartOf (.basic type) (.basic type)
  | classToken : FieldType.PartOf .classToken .classToken
  | enum (typeName : String) : FieldType.PartOf (.enum typeName) (.enum typeName)
  | nested {d e : Definition} : d.PartOf e → FieldType.PartOf (.nested d) (.nested e)
  | array {c d : FieldType} : c.PartOf d → FieldType.PartOf (.array c) (.array d)
  | unknownArray : FieldType.PartOf .unknownArray .unknownArray
  | learned (c : FieldType) : FieldType.PartOf .unknownArray (.array c)
inductive Definition.PartOf : Definition → Definition → Prop
  | ofName {d e : Definition} : d.name = e.name → AnnotationSet.PartOf d.metas e.metas →
      d.fieldTable = [] → d.PartOf e
  | ofFields {d e : Definition} : d.name = e.name → AnnotationSet.PartOf d.metas e.metas →
      FieldType.PartOfTable d.fieldTable e.fieldTable → d.PartOf e
/-- Field by field, with the same names in both. -/
inductive FieldType.PartOfTable : List (String × FieldType) → List (String × FieldType) → Prop
  | nil : FieldType.PartOfTable [] []
  | cons {n : String} {t u : FieldType} {rest others : List (String × FieldType)} :
      t.PartOf u → FieldType.PartOfTable rest others →
      FieldType.PartOfTable ((n, t) :: rest) ((n, u) :: others)
end

theorem Definition.partOf_iff {d e : Definition} :
    d.PartOf e ↔ d.name = e.name ∧ AnnotationSet.PartOf d.metas e.metas ∧
      (d.fieldTable = [] ∨ FieldType.PartOfTable d.fieldTable e.fieldTable) := by
  constructor
  · intro h
    cases h with
    | ofName hn hm ht => exact ⟨hn, hm, .inl ht⟩
    | ofFields hn hm ht => exact ⟨hn, hm, .inr ht⟩
  · rintro ⟨hn, hm, ht | ht⟩
    · exact .ofName hn hm ht
    · exact .ofFields hn hm ht

theorem FieldType.PartOfTable.eq_nil_iff {t u : List (String × FieldType)}
    (h : FieldType.PartOfTable t u) : t = [] ↔ u = [] := by
  cases h <;> simp

theorem Definition.PartOf.name {d e : Definition} (h : d.PartOf e) : d.name = e.name :=
  (Definition.partOf_iff.mp h).1

-- ---------------------------------------------------------------------------
-- The order and sameness
-- ---------------------------------------------------------------------------

mutual
theorem FieldType.partOf_of_same : (t : FieldType) → {u : FieldType} → t.same u = true →
    t.PartOf u
  | .nested d, u, h => by
    cases u <;> simp only [FieldType.same, Bool.false_eq_true] at h
    exact .nested (d.partOf_of_same h)
  | .array c, u, h => by
    cases u <;> simp only [FieldType.same, Bool.false_eq_true] at h
    exact .array (c.partOf_of_same h)
  | .basic t, _, h => FieldType.eq_of_same h nofun nofun ▸ .basic t
  | .classToken, _, h => FieldType.eq_of_same h nofun nofun ▸ .classToken
  | .enum n, _, h => FieldType.eq_of_same h nofun nofun ▸ .enum n
  | .unknownArray, _, h => FieldType.eq_of_same h nofun nofun ▸ .unknownArray
theorem Definition.partOf_of_same : (d : Definition) → {e : Definition} → d.same e = true →
    d.PartOf e
  | ⟨_, _, none, _⟩, e, h => by
    obtain ⟨hn, hm, -⟩ := Definition.same_iff.mp h
    exact .ofName hn (.inr hm) rfl
  | ⟨_, _, some fields, _⟩, e, h => by
    obtain ⟨hn, hm, ht⟩ := Definition.same_iff.mp h
    exact .ofFields hn (.inr hm) (FieldType.partOfTable_of_same fields ht)
theorem FieldType.partOfTable_of_same : (t : List (String × FieldType)) →
    {u : List (String × FieldType)} → FieldType.sameTable t u = true → FieldType.PartOfTable t u
  | [], u, h => by
    cases u <;> simp only [FieldType.sameTable, Bool.false_eq_true] at h
    exact .nil
  | (n, t) :: rest, u, h => by
    cases u <;> simp only [FieldType.sameTable, Bool.false_eq_true] at h
    simp only [Bool.and_eq_true, beq_iff_eq] at h
    obtain ⟨⟨rfl, ht⟩, hrest⟩ := h
    exact .cons (t.partOf_of_same ht) (FieldType.partOfTable_of_same rest hrest)
end

theorem FieldType.PartOf.refl (t : FieldType) : t.PartOf t := t.partOf_of_same t.same_refl

theorem FieldType.PartOfTable.refl (t : List (String × FieldType)) : FieldType.PartOfTable t t :=
  FieldType.partOfTable_of_same t (FieldType.sameTable_refl t)

theorem Definition.PartOf.refl (d : Definition) : d.PartOf d := d.partOf_of_same d.same_refl

mutual
theorem FieldType.PartOf.trans {t u v : FieldType} : t.PartOf u → u.PartOf v → t.PartOf v
  | .basic _, h => h
  | .classToken, h => h
  | .enum _, h => h
  | .nested h, .nested h' => .nested (h.trans h')
  | .array h, .array h' => .array (h.trans h')
  | .unknownArray, h => h
  | .learned _, .array _ => .learned _
theorem Definition.PartOf.trans {d e f : Definition} : d.PartOf e → e.PartOf f → d.PartOf f
  | .ofName hn hm ht, h' => by
    obtain ⟨hn', hm', -⟩ := Definition.partOf_iff.mp h'
    exact .ofName (hn.trans hn') (hm.trans hm') ht
  | .ofFields hn hm ht, .ofName hn' hm' ht' => by
    exact .ofName (hn.trans hn') (hm.trans hm') (ht.eq_nil_iff.mpr ht')
  | .ofFields hn hm ht, .ofFields hn' hm' ht' =>
    .ofFields (hn.trans hn') (hm.trans hm') (ht.trans ht')
theorem FieldType.PartOfTable.trans {t u v : List (String × FieldType)} :
    FieldType.PartOfTable t u → FieldType.PartOfTable u v → FieldType.PartOfTable t v
  | .nil, h => h
  | .cons h hrest, .cons h' hrest' => .cons (h.trans h') (hrest.trans hrest')
end

mutual
theorem FieldType.PartOf.antisymm {t u : FieldType} : t.PartOf u → u.PartOf t → t.same u = true
  | .basic t, _ => by simp [FieldType.same]
  | .classToken, _ => rfl
  | .enum n, _ => by simp [FieldType.same]
  | .nested h, .nested h' => h.antisymm h'
  | .array h, .array h' => h.antisymm h'
  | .unknownArray, _ => rfl
theorem Definition.PartOf.antisymm {d e : Definition} : d.PartOf e → e.PartOf d →
    d.same e = true
  | .ofName hn hm ht, h' => by
    obtain ⟨-, hm', ht'⟩ := Definition.partOf_iff.mp h'
    have he : e.fieldTable = [] := ht'.elim id fun h => h.eq_nil_iff.mpr ht
    exact Definition.same_iff.mpr ⟨hn, hm.antisymm hm', by simp [ht, he, FieldType.sameTable]⟩
  | .ofFields hn hm ht, .ofName _ hm' ht' => by
    have hd : d.fieldTable = [] := ht.eq_nil_iff.mpr ht'
    exact Definition.same_iff.mpr ⟨hn, hm.antisymm hm', by simp [hd, ht', FieldType.sameTable]⟩
  | .ofFields hn hm ht, .ofFields _ hm' ht' =>
    Definition.same_iff.mpr ⟨hn, hm.antisymm hm', ht.antisymm ht'⟩
theorem FieldType.PartOfTable.antisymm {t u : List (String × FieldType)} :
    FieldType.PartOfTable t u → FieldType.PartOfTable u t → FieldType.sameTable t u = true
  | .nil, _ => rfl
  | .cons h hrest, .cons h' hrest' => by
    simp [FieldType.sameTable, h.antisymm h', hrest.antisymm hrest']
end

end AnnotationScene
