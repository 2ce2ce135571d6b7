import AnnotationScene.Proofs.PartOf

/-!
# Merging finds the least common view

If two views are both part of a third, they can be merged, and the merged view is the least that
has both as parts. Views that can be merged pairwise can be merged all together: a merged view
contradicts a third only if one of the two does.
-/

namespace AnnotationScene

-- ---------------------------------------------------------------------------
-- Meta-annotations
-- ---------------------------------------------------------------------------

theorem unifyMetas?_eq_or {s t m : AnnotationSet} (h : unifyMetas? s t = some m) :
    m = s ∨ m = t := by
  unfold unifyMetas? at h
  split at h
  · exact .inl (Option.some.inj h).symm
  · split at h
    · exact .inr (Option.some.inj h).symm
    · cases h

theorem partOf_unifyMetas? {s t m : AnnotationSet} (hw : AnnotationSet.WellFormed s)
    (h : unifyMetas? s t = some m) : AnnotationSet.PartOf s m ∧ AnnotationSet.PartOf t m := by
  unfold unifyMetas? at h
  split at h
  next hst =>
    obtain rfl := Option.some.inj h
    refine ⟨.inr (AnnotationSet.same_refl s), ?_⟩
    rcases Bool.or_eq_true_iff.mp hst with hst | ht
    · exact .inr (AnnotationSet.same_symm hw hst)
    · exact .inl (List.isEmpty_iff.mp ht)
  next =>
    split at h
    next hs =>
      obtain rfl := Option.some.inj h
      exact ⟨.inl (List.isEmpty_iff.mp hs), .inr (AnnotationSet.same_refl t)⟩
    next => cases h

theorem unifyMetas?_least {s t v : AnnotationSet} (hw : AnnotationSet.WellFormed t)
    (hs : AnnotationSet.PartOf s v) (ht : AnnotationSet.PartOf t v) :
    ∃ m, unifyMetas? s t = some m ∧ AnnotationSet.PartOf m v := by
  unfold unifyMetas?
  split
  next => exact ⟨s, rfl, hs⟩
  next hst =>
    split
    next => exact ⟨t, rfl, ht⟩
    next hne =>
      -- both are non-empty, so both are the same as `v`
      rcases hs with rfl | hs
      · simp at hne
      · rcases ht with rfl | ht
        · simp at hst
        · simp [AnnotationSet.same_trans hs (AnnotationSet.same_symm hw ht)] at hst

-- ---------------------------------------------------------------------------
-- Inversion
-- ---------------------------------------------------------------------------

/-- Everything that merging two views can do, the source apart. -/
theorem Definition.merge?_cases {d e m : Definition} (h : d.merge? e = some m) :
    d.name = e.name ∧ m.name = e.name ∧ unifyMetas? d.metas e.metas = some m.metas ∧
      ((d.fieldTable = [] ∧ m.fieldTable = e.fieldTable) ∨
        (e.fieldTable = [] ∧ m.fieldTable = d.fieldTable) ∨
        FieldType.unifyTable? d.fieldTable e.fieldTable = some m.fieldTable) := by
  obtain ⟨name, metas, fields, source⟩ := d
  unfold Definition.merge? at h
  split at h
  next => cases h
  next hn =>
    have hn : name = e.name := by simpa using hn
    split at h
    next => cases h
    next merged hm =>
      split at h
      next =>
        obtain rfl := Option.some.inj h
        exact ⟨hn, hn, hm, .inl ⟨rfl, rfl⟩⟩
      next =>
        obtain rfl := Option.some.inj h
        exact ⟨hn, hn, hm, .inl ⟨rfl, rfl⟩⟩
      next first rest =>
        split at h
        next =>
          obtain ⟨table, ht, rfl⟩ := Option.map_eq_some_iff.mp h
          exact ⟨hn, hn, hm, .inr (.inr ht)⟩
        next he =>
          obtain rfl := Option.some.inj h
          exact ⟨hn, hn, hm, .inr (.inl ⟨by simpa [Definition.hasFields] using he, rfl⟩)⟩

theorem Definition.merge?_isSome_of {d e : Definition} (hn : d.name = e.name)
    (hm : (unifyMetas? d.metas e.metas).isSome)
    (ht : d.fieldTable = [] ∨ e.fieldTable = [] ∨
      (FieldType.unifyTable? d.fieldTable e.fieldTable).isSome) : (d.merge? e).isSome := by
  obtain ⟨name, metas, fields, source⟩ := d
  obtain ⟨merged, hm⟩ := Option.isSome_iff_exists.mp hm
  unfold Definition.merge?
  simp only at hn hm
  simp only [hn, bne_self_eq_false, Bool.false_eq_true, ↓reduceIte, hm]
  split
  next => rfl
  next => rfl
  next first rest =>
    split
    next he =>
      rcases ht with ht | ht | ht
      · cases ht
      · simp [Definition.hasFields, ht] at he
      · rw [Option.isSome_map]
        exact ht
    next => rfl

theorem FieldType.unify?_nested (d e : Definition) :
    FieldType.unify? (.nested d) (.nested e) = (d.unify? e).map .nested := by
  simp only [FieldType.unify?, Definition.unify?]
  split <;> rfl

/-- How two types merge: a definition with a definition, elements with elements, an array of unknown
elements with any array, and else only equal types. -/
inductive FieldType.Merges : FieldType → FieldType → FieldType → Prop
  | basic (b : BasicType) : Merges (.basic b) (.basic b) (.basic b)
  | classToken : Merges .classToken .classToken .classToken
  | enum (name : String) : Merges (.enum name) (.enum name) (.enum name)
  | nested {d e m : Definition} : d.unify? e = some m → Merges (.nested d) (.nested e) (.nested m)
  | array {b c m : FieldType} : b.unify? c = some m → Merges (.array b) (.array c) (.array m)
  | known (c : FieldType) : Merges (.array c) .unknownArray (.array c)
  | learned (c : FieldType) : Merges .unknownArray (.array c) (.array c)
  | unknownArray : Merges .unknownArray .unknownArray .unknownArray

theorem FieldType.merges_of_unify? {t u m : FieldType} (h : t.unify? u = some m) :
    FieldType.Merges t u m := by
  cases t with
  | nested d =>
    cases u with
    | nested e =>
      rw [FieldType.unify?_nested, Option.map_eq_some_iff] at h
      obtain ⟨x, hx, rfl⟩ := h
      exact .nested hx
    | _ => simp [FieldType.unify?, FieldType.same] at h
  | array b =>
    cases u with
    | array c =>
      rw [FieldType.unify?, Option.map_eq_some_iff] at h
      obtain ⟨x, hx, rfl⟩ := h
      exact .array hx
    | unknownArray =>
      obtain rfl := Option.some.inj h
      exact .known b
    | _ => simp [FieldType.unify?, FieldType.same] at h
  | unknownArray =>
    cases u with
    | array c =>
      obtain rfl := Option.some.inj h
      exact .learned c
    | unknownArray =>
      obtain rfl := Option.some.inj h
      exact .unknownArray
    | _ => simp [FieldType.unify?, FieldType.same] at h
  | basic b =>
    cases u <;> simp [FieldType.unify?, FieldType.same] at h
    obtain ⟨rfl, rfl⟩ := h
    exact .basic b
  | classToken =>
    cases u <;> simp [FieldType.unify?, FieldType.same] at h
    exact h ▸ .classToken
  | enum name =>
    cases u <;> simp [FieldType.unify?, FieldType.same] at h
    obtain ⟨rfl, rfl⟩ := h
    exact .enum name

theorem FieldType.unifyTable?_nil {u m : List (String × FieldType)}
    (h : FieldType.unifyTable? [] u = some m) : u = [] ∧ m = [] := by
  cases u <;> simp only [FieldType.unifyTable?, reduceCtorEq, Option.some.injEq] at h
  exact ⟨rfl, h.symm⟩

theorem FieldType.unifyTable?_cons_eq_some {x y : String × FieldType}
    {rest others m : List (String × FieldType)} :
    FieldType.unifyTable? (x :: rest) (y :: others) = some m ↔
      x.1 = y.1 ∧ ∃ type table, x.2.unify? y.2 = some type ∧
        FieldType.unifyTable? rest others = some table ∧ m = (x.1, type) :: table := by
  obtain ⟨n, t⟩ := x
  obtain ⟨n', u⟩ := y
  by_cases hn : n = n'
  · cases ht : t.unify? u <;> cases hr : FieldType.unifyTable? rest others <;>
      simp [FieldType.unifyTable?, hn, ht, hr, eq_comm]
  · simp [FieldType.unifyTable?, hn]

theorem FieldType.unifyTable?_cons_isSome {x y : String × FieldType}
    {rest others : List (String × FieldType)} :
    (FieldType.unifyTable? (x :: rest) (y :: others)).isSome ↔
      x.1 = y.1 ∧ (x.2.unify? y.2).isSome ∧ (FieldType.unifyTable? rest others).isSome := by
  simp only [Option.isSome_iff_exists, FieldType.unifyTable?_cons_eq_some]
  constructor
  · rintro ⟨_, hn, type, table, ht, hr, -⟩
    exact ⟨hn, ⟨type, ht⟩, table, hr⟩
  · rintro ⟨hn, ⟨type, ht⟩, table, hr⟩
    exact ⟨_, hn, type, table, ht, hr, rfl⟩

theorem FieldType.unifyTable?_eq_nil {t u m : List (String × FieldType)}
    (h : FieldType.unifyTable? t u = some m) : (t = [] ↔ m = []) ∧ (u = [] ↔ m = []) := by
  cases t with
  | nil =>
    obtain ⟨rfl, rfl⟩ := FieldType.unifyTable?_nil h
    simp
  | cons x rest =>
    cases u with
    | nil => simp [FieldType.unifyTable?] at h
    | cons y others =>
      obtain ⟨-, type, table, -, -, rfl⟩ := FieldType.unifyTable?_cons_eq_some.mp h
      simp

-- ---------------------------------------------------------------------------
-- Both views are part of the merged one
-- ---------------------------------------------------------------------------

theorem Definition.partOf_unify?_of_merge? {d e m : Definition} (hw : d.WellFormed)
    (hmerge : d.merge? e = some m → d.PartOf m ∧ e.PartOf m) (h : d.unify? e = some m) :
    d.PartOf m ∧ e.PartOf m := by
  unfold Definition.unify? at h
  split at h
  next hs =>
    obtain rfl := Option.some.inj h
    rw [Definition.isSame_eq] at hs
    exact ⟨.refl d, e.partOf_of_same (d.same_symm hw hs)⟩
  next => exact hmerge h

theorem Definition.partOf_merge?_of_tables {d e m : Definition}
    (hw : AnnotationSet.WellFormed d.metas)
    (htables : FieldType.unifyTable? d.fieldTable e.fieldTable = some m.fieldTable →
      FieldType.PartOfTable d.fieldTable m.fieldTable ∧
        FieldType.PartOfTable e.fieldTable m.fieldTable)
    (h : d.merge? e = some m) : d.PartOf m ∧ e.PartOf m := by
  obtain ⟨hde, hme, hmetas, hfields⟩ := Definition.merge?_cases h
  obtain ⟨hdm, hem⟩ := partOf_unifyMetas? hw hmetas
  have hdn : d.name = m.name := hde.trans hme.symm
  rcases hfields with ⟨hd, hm⟩ | ⟨he, hm⟩ | ht
  · exact ⟨.ofName hdn hdm hd, .ofFields hme.symm hem (hm ▸ .refl e.fieldTable)⟩
  · exact ⟨.ofFields hdn hdm (hm ▸ .refl d.fieldTable), .ofName hme.symm hem he⟩
  · exact ⟨.ofFields hdn hdm (htables ht).1, .ofFields hme.symm hem (htables ht).2⟩

mutual
theorem FieldType.partOf_unify? : (t : FieldType) → t.WellFormed → {u m : FieldType} →
    t.unify? u = some m → t.PartOf m ∧ u.PartOf m
  | .basic b, _, u, m, h => by
    cases FieldType.merges_of_unify? h
    exact ⟨.basic b, .basic b⟩
  | .classToken, _, u, m, h => by
    cases FieldType.merges_of_unify? h
    exact ⟨.classToken, .classToken⟩
  | .enum n, _, u, m, h => by
    cases FieldType.merges_of_unify? h
    exact ⟨.enum n, .enum n⟩
  | .nested d, hw, u, m, h => by
    cases FieldType.merges_of_unify? h with
    | nested hm =>
      obtain ⟨hd, he⟩ := Definition.partOf_unify?_of_merge? hw (d.partOf_merge? hw) hm
      exact ⟨.nested hd, .nested he⟩
  | .array b, hw, u, m, h => by
    cases FieldType.merges_of_unify? h with
    | array hm =>
      obtain ⟨hb, hc⟩ := b.partOf_unify? hw hm
      exact ⟨.array hb, .array hc⟩
    | known => exact ⟨.array (.refl b), .learned b⟩
  | .unknownArray, _, u, m, h => by
    cases FieldType.merges_of_unify? h with
    | learned c => exact ⟨.learned c, .array (.refl c)⟩
    | unknownArray => exact ⟨.unknownArray, .unknownArray⟩
theorem Definition.partOf_merge? : (d : Definition) → d.WellFormed → {e m : Definition} →
    d.merge? e = some m → d.PartOf m ∧ e.PartOf m
  | ⟨name, metas, none, source⟩, hw, e, m, h => by
    refine Definition.partOf_merge?_of_tables hw (fun ht => ?_) h
    obtain ⟨he, hm⟩ := FieldType.unifyTable?_nil ht
    exact ⟨hm ▸ .nil, he ▸ hm ▸ .nil⟩
  | ⟨name, metas, some fields, source⟩, hw, e, m, h =>
    Definition.partOf_merge?_of_tables hw.1 (FieldType.partOfTable_unify? fields hw.2) h
theorem FieldType.partOfTable_unify? : (t : List (String × FieldType)) →
    FieldType.WellFormedTable t → {u m : List (String × FieldType)} →
    FieldType.unifyTable? t u = some m → FieldType.PartOfTable t m ∧ FieldType.PartOfTable u m
  | [], _, u, m, h => by
    obtain ⟨rfl, rfl⟩ := FieldType.unifyTable?_nil h
    exact ⟨.nil, .nil⟩
  | (n, t) :: rest, hw, u, m, h => by
    cases u with
    | nil => simp [FieldType.unifyTable?] at h
    | cons y others =>
      obtain ⟨hn, type, table, htype, htable, rfl⟩ := FieldType.unifyTable?_cons_eq_some.mp h
      obtain ⟨ht, hu⟩ := t.partOf_unify? hw.1 htype
      obtain ⟨hr, ho⟩ := FieldType.partOfTable_unify? rest hw.2 htable
      exact ⟨.cons ht hr, hn ▸ .cons hu ho⟩
end

theorem Definition.partOf_unify? {d e m : Definition} (hw : d.WellFormed)
    (h : d.unify? e = some m) : d.PartOf m ∧ e.PartOf m :=
  Definition.partOf_unify?_of_merge? hw (d.partOf_merge? hw) h

-- ---------------------------------------------------------------------------
-- Nothing less has both views as parts
-- ---------------------------------------------------------------------------

theorem Definition.merge?_least_of_tables {d e f : Definition}
    (hw : AnnotationSet.WellFormed e.metas) (hd : d.PartOf f) (he : e.PartOf f)
    (htables : FieldType.PartOfTable d.fieldTable f.fieldTable →
      FieldType.PartOfTable e.fieldTable f.fieldTable →
      ∃ table, FieldType.unifyTable? d.fieldTable e.fieldTable = some table ∧
        FieldType.PartOfTable table f.fieldTable) :
    ∃ m, d.merge? e = some m ∧ m.PartOf f := by
  obtain ⟨hdn, hdm, hdt⟩ := Definition.partOf_iff.mp hd
  obtain ⟨hen, hem, het⟩ := Definition.partOf_iff.mp he
  obtain ⟨metas, hmetas, hmf⟩ := unifyMetas?_least hw hdm hem
  have hsome : (d.merge? e).isSome := by
    refine Definition.merge?_isSome_of (hdn.trans hen.symm) (by simp [hmetas]) ?_
    rcases hdt with hdt | hdt
    · exact .inl hdt
    · rcases het with het | het
      · exact .inr (.inl het)
      · obtain ⟨table, ht, -⟩ := htables hdt het
        exact .inr (.inr (by simp [ht]))
  obtain ⟨m, hm⟩ := Option.isSome_iff_exists.mp hsome
  obtain ⟨-, hmn, hmetas', hfields⟩ := Definition.merge?_cases hm
  obtain rfl : metas = m.metas := Option.some.inj (hmetas.symm.trans hmetas')
  refine ⟨m, hm, Definition.partOf_iff.mpr ⟨hmn.trans hen, hmf, ?_⟩⟩
  rcases hfields with ⟨-, ht⟩ | ⟨-, ht⟩ | ht
  · exact ht ▸ het
  · exact ht ▸ hdt
  · obtain ⟨hdnil, henil⟩ := FieldType.unifyTable?_eq_nil ht
    rcases hdt with hdt | hdt
    · exact .inl (hdnil.mp hdt)
    · rcases het with het | het
      · exact .inl (henil.mp het)
      · obtain ⟨table, ht', hpart⟩ := htables hdt het
        obtain rfl : table = m.fieldTable := Option.some.inj (ht'.symm.trans ht)
        exact .inr hpart

theorem Definition.unify?_least_of_merge? {d e f : Definition} (hd : d.PartOf f)
    (hmerge : ∃ m, d.merge? e = some m ∧ m.PartOf f) : ∃ m, d.unify? e = some m ∧ m.PartOf f := by
  unfold Definition.unify?
  split
  · exact ⟨d, rfl, hd⟩
  · exact hmerge

mutual
theorem FieldType.unify?_least : (t : FieldType) → {u v : FieldType} → u.WellFormed →
    t.PartOf v → u.PartOf v → ∃ m, t.unify? u = some m ∧ m.PartOf v
  | .basic b, u, v, _, ht, hu => by
    cases ht
    cases hu
    exact ⟨.basic b, by simp [FieldType.unify?, FieldType.same], .basic b⟩
  | .classToken, u, v, _, ht, hu => by
    cases ht
    cases hu
    exact ⟨.classToken, by simp [FieldType.unify?, FieldType.same], .classToken⟩
  | .enum n, u, v, _, ht, hu => by
    cases ht
    cases hu
    exact ⟨.enum n, by simp [FieldType.unify?, FieldType.same], .enum n⟩
  | .nested d, u, v, hw, ht, hu => by
    cases ht with
    | nested hd =>
      cases hu with
      | nested he =>
        obtain ⟨m, hm, hmf⟩ :=
          Definition.unify?_least_of_merge? hd (d.merge?_least hw hd he)
        exact ⟨.nested m, by simp [FieldType.unify?_nested, hm], .nested hmf⟩
  | .array c, u, v, hw, ht, hu => by
    cases ht with
    | array hc =>
      cases hu with
      | array hc' =>
        rw [FieldType.WellFormed] at hw
        obtain ⟨m, hm, hmf⟩ := c.unify?_least hw hc hc'
        exact ⟨.array m, by simp [FieldType.unify?, hm], .array hmf⟩
      | learned c' => exact ⟨.array c, rfl, .array hc⟩
  | .unknownArray, u, v, _, ht, hu => by
    cases hu with
    | array hc => exact ⟨_, rfl, .array hc⟩
    | unknownArray => exact ⟨.unknownArray, by simp [FieldType.unify?, FieldType.same], ht⟩
    | learned c => exact ⟨.unknownArray, by simp [FieldType.unify?, FieldType.same], ht⟩
    | _ => cases ht
theorem Definition.merge?_least : (d : Definition) → {e f : Definition} → e.WellFormed →
    d.PartOf f → e.PartOf f → ∃ m, d.merge? e = some m ∧ m.PartOf f
  | ⟨_, _, none, _⟩, e, f, hw, hd, he => by
    refine Definition.merge?_least_of_tables hw.metas hd he fun ht hu => ?_
    have hf : f.fieldTable = [] := ht.eq_nil_iff.mp rfl
    have he : e.fieldTable = [] := hu.eq_nil_iff.mpr hf
    exact ⟨[], by rw [he]; rfl, hf ▸ .nil⟩
  | ⟨_, _, some fields, _⟩, e, f, hw, hd, he =>
    Definition.merge?_least_of_tables hw.metas hd he
      (FieldType.unifyTable?_least fields hw.fieldTable)
theorem FieldType.unifyTable?_least : (t : List (String × FieldType)) →
    {u v : List (String × FieldType)} → FieldType.WellFormedTable u →
    FieldType.PartOfTable t v → FieldType.PartOfTable u v →
    ∃ m, FieldType.unifyTable? t u = some m ∧ FieldType.PartOfTable m v
  | [], u, v, _, ht, hu => by
    cases ht
    cases hu
    exact ⟨[], rfl, .nil⟩
  | (n, t) :: rest, u, v, hw, ht, hu => by
    cases ht with
    | cons ht hrest =>
      cases hu with
      | cons hu hothers =>
        obtain ⟨type, htype, hpart⟩ := t.unify?_least hw.1 ht hu
        obtain ⟨table, htable, hparts⟩ := FieldType.unifyTable?_least rest hw.2 hrest hothers
        exact ⟨_, FieldType.unifyTable?_cons_eq_some.mpr ⟨rfl, type, table, htype, htable, rfl⟩,
          .cons hpart hparts⟩
end

theorem Definition.unify?_least {d e f : Definition} (hw : e.WellFormed) (hd : d.PartOf f)
    (he : e.PartOf f) : ∃ m, d.unify? e = some m ∧ m.PartOf f :=
  Definition.unify?_least_of_merge? hd (d.merge?_least hw hd he)

-- ---------------------------------------------------------------------------
-- When views can be merged
-- ---------------------------------------------------------------------------

theorem Definition.merge?_isSome_iff {d e : Definition} :
    (d.merge? e).isSome ↔ d.name = e.name ∧ (unifyMetas? d.metas e.metas).isSome ∧
      (d.fieldTable = [] ∨ e.fieldTable = [] ∨
        (FieldType.unifyTable? d.fieldTable e.fieldTable).isSome) := by
  constructor
  · intro h
    obtain ⟨m, hm⟩ := Option.isSome_iff_exists.mp h
    obtain ⟨hn, -, hmetas, hfields⟩ := Definition.merge?_cases hm
    refine ⟨hn, by simp [hmetas], ?_⟩
    rcases hfields with ⟨ht, -⟩ | ⟨ht, -⟩ | ht
    · exact .inl ht
    · exact .inr (.inl ht)
    · exact .inr (.inr (by simp [ht]))
  · rintro ⟨hn, hm, ht⟩
    exact Definition.merge?_isSome_of hn hm ht

theorem FieldType.unify?_of_same (t : FieldType) {u : FieldType} (h : t.same u = true) :
    t.unify? u = some t := by
  match t with
  | .array c =>
    cases u <;> simp only [FieldType.same, Bool.false_eq_true] at h
    simp [FieldType.unify?, c.unify?_of_same h]
  | .nested d =>
    cases u <;> simp only [FieldType.same, Bool.false_eq_true] at h
    simp [FieldType.unify?, h]
  | .basic _ | .classToken | .enum _ | .unknownArray =>
    obtain rfl := FieldType.eq_of_same h (by simp) (by simp)
    simp [FieldType.unify?, FieldType.same]

theorem FieldType.unifyTable?_of_same {t u : List (String × FieldType)}
    (h : FieldType.sameTable t u = true) : FieldType.unifyTable? t u = some t := by
  induction t generalizing u with
  | nil => cases u <;> simp_all [FieldType.sameTable, FieldType.unifyTable?]
  | cons x rest ih =>
    cases u <;> simp only [FieldType.sameTable, Bool.false_eq_true] at h
    simp only [Bool.and_eq_true, beq_iff_eq] at h
    exact FieldType.unifyTable?_cons_eq_some.mpr
      ⟨h.1.1, x.2, rest, x.2.unify?_of_same h.1.2, ih h.2, rfl⟩

/-- The short cut for views that are the same makes nothing mergeable that was not. -/
theorem Definition.unify?_isSome_iff {d e : Definition} :
    (d.unify? e).isSome ↔ (d.merge? e).isSome := by
  unfold Definition.unify?
  split
  next hs =>
    obtain ⟨hn, hm, ht⟩ := Definition.same_iff.mp (by simpa using hs)
    refine iff_of_true rfl (Definition.merge?_isSome_of hn ?_ (.inr (.inr ?_)))
    · simp [unifyMetas?, hm]
    · simp [FieldType.unifyTable?_of_same ht]
  next => rfl

-- ---------------------------------------------------------------------------
-- Pairwise is enough
-- ---------------------------------------------------------------------------

theorem Definition.merge?_coherent_of_tables {d e f m : Definition} (h : d.merge? e = some m)
    (hdf : (d.merge? f).isSome) (hef : (e.merge? f).isSome)
    (htables : FieldType.unifyTable? d.fieldTable e.fieldTable = some m.fieldTable →
      (FieldType.unifyTable? d.fieldTable f.fieldTable).isSome →
      (FieldType.unifyTable? e.fieldTable f.fieldTable).isSome →
      (FieldType.unifyTable? m.fieldTable f.fieldTable).isSome) : (m.merge? f).isSome := by
  obtain ⟨-, hmn, hmetas, hfields⟩ := Definition.merge?_cases h
  obtain ⟨-, hdm, hdt⟩ := Definition.merge?_isSome_iff.mp hdf
  obtain ⟨hen, hem, het⟩ := Definition.merge?_isSome_iff.mp hef
  refine Definition.merge?_isSome_of (hmn.trans hen) ?_ ?_
  · rcases unifyMetas?_eq_or hmetas with hm | hm
    · exact hm ▸ hdm
    · exact hm ▸ hem
  · rcases hfields with ⟨-, ht⟩ | ⟨-, ht⟩ | ht
    · exact ht ▸ het
    · exact ht ▸ hdt
    · obtain ⟨hdnil, henil⟩ := FieldType.unifyTable?_eq_nil ht
      rcases hdt with hdt | hdt | hdt
      · exact .inl (hdnil.mp hdt)
      · exact .inr (.inl hdt)
      · rcases het with het | het | het
        · exact .inl (henil.mp het)
        · exact .inr (.inl het)
        · exact .inr (.inr (htables ht hdt het))

theorem Definition.unify?_coherent_of_merge? {d e f m : Definition} (h : d.unify? e = some m)
    (hdf : (d.unify? f).isSome) (hef : (e.unify? f).isSome)
    (hmerge : d.merge? e = some m → (d.merge? f).isSome → (e.merge? f).isSome →
      (m.merge? f).isSome) : (m.unify? f).isSome := by
  unfold Definition.unify? at h
  split at h
  next =>
    obtain rfl := Option.some.inj h
    exact hdf
  next =>
    rw [Definition.unify?_isSome_iff] at hdf hef ⊢
    exact hmerge h hdf hef

mutual
theorem FieldType.unify?_coherent : (t : FieldType) → {u v m : FieldType} →
    t.unify? u = some m → (t.unify? v).isSome → (u.unify? v).isSome → (m.unify? v).isSome
  | .basic _, u, v, m, h, ht, _ | .classToken, u, v, m, h, ht, _ | .enum _, u, v, m, h, ht, _ => by
    cases FieldType.merges_of_unify? h
    exact ht
  | .nested d, u, v, m, h, ht, hu => by
    obtain ⟨w, hw⟩ := Option.isSome_iff_exists.mp ht
    cases FieldType.merges_of_unify? h with
    | nested hm =>
      cases FieldType.merges_of_unify? hw with
      | nested _ =>
        rw [FieldType.unify?_nested, Option.isSome_map] at ht hu ⊢
        exact Definition.unify?_coherent_of_merge? hm ht hu d.merge?_coherent
  | .array b, u, v, m, h, ht, hu => by
    obtain ⟨w, hw⟩ := Option.isSome_iff_exists.mp ht
    cases FieldType.merges_of_unify? h with
    | array hm =>
      cases FieldType.merges_of_unify? hw with
      | array _ =>
        simp only [FieldType.unify?, Option.isSome_map] at ht hu ⊢
        exact b.unify?_coherent hm ht hu
      | known => rfl
    | known => exact ht
  | .unknownArray, u, v, m, h, ht, hu => by
    cases FieldType.merges_of_unify? h with
    | learned c => exact hu
    | unknownArray => exact hu
theorem Definition.merge?_coherent : (d : Definition) → {e f m : Definition} →
    d.merge? e = some m → (d.merge? f).isSome → (e.merge? f).isSome → (m.merge? f).isSome
  | ⟨_, _, none, _⟩, e, f, m, h, hdf, hef => by
    refine Definition.merge?_coherent_of_tables h hdf hef fun ht hd _ => ?_
    obtain ⟨-, hm⟩ := FieldType.unifyTable?_nil ht
    exact hm ▸ hd
  | ⟨_, _, some fields, _⟩, e, f, m, h, hdf, hef =>
    Definition.merge?_coherent_of_tables h hdf hef (FieldType.unifyTable?_coherent fields)
theorem FieldType.unifyTable?_coherent : (t : List (String × FieldType)) →
    {u v m : List (String × FieldType)} → FieldType.unifyTable? t u = some m →
    (FieldType.unifyTable? t v).isSome → (FieldType.unifyTable? u v).isSome →
    (FieldType.unifyTable? m v).isSome
  | [], u, v, m, h, ht, _ => by
    obtain ⟨-, rfl⟩ := FieldType.unifyTable?_nil h
    exact ht
  | (n, t) :: rest, u, v, m, h, ht, hu => by
    cases u with
    | nil => simp [FieldType.unifyTable?] at h
    | cons y others =>
      cases v with
      | nil => simp [FieldType.unifyTable?] at ht
      | cons z more =>
        obtain ⟨-, type, table, htype, htable, rfl⟩ := FieldType.unifyTable?_cons_eq_some.mp h
        rw [FieldType.unifyTable?_cons_isSome] at ht hu ⊢
        obtain ⟨hn, ht, hrest⟩ := ht
        obtain ⟨-, hu, hothers⟩ := hu
        exact ⟨hn, t.unify?_coherent htype ht hu,
          FieldType.unifyTable?_coherent rest htable hrest hothers⟩
end

theorem Definition.unify?_coherent {d e f m : Definition} (h : d.unify? e = some m)
    (hdf : (d.unify? f).isSome) (hef : (e.unify? f).isSome) : (m.unify? f).isSome :=
  Definition.unify?_coherent_of_merge? h hdf hef d.merge?_coherent

-- ---------------------------------------------------------------------------
-- Merged views are well formed
-- ---------------------------------------------------------------------------

theorem Definition.wellFormed_merge?_of_tables {d e m : Definition} (hd : d.WellFormed)
    (he : e.WellFormed) (h : d.merge? e = some m)
    (htables : FieldType.unifyTable? d.fieldTable e.fieldTable = some m.fieldTable →
      FieldType.WellFormedTable m.fieldTable) : m.WellFormed := by
  obtain ⟨-, -, hmetas, hfields⟩ := Definition.merge?_cases h
  refine Definition.wellFormed_iff.mpr ⟨?_, ?_⟩
  · rcases unifyMetas?_eq_or hmetas with hm | hm
    · exact hm ▸ hd.metas
    · exact hm ▸ he.metas
  · rcases hfields with ⟨-, ht⟩ | ⟨-, ht⟩ | ht
    · exact ht ▸ he.fieldTable
    · exact ht ▸ hd.fieldTable
    · exact htables ht

theorem Definition.wellFormed_unify?_of_merge? {d e m : Definition} (hd : d.WellFormed)
    (hmerge : d.merge? e = some m → m.WellFormed) (h : d.unify? e = some m) : m.WellFormed := by
  unfold Definition.unify? at h
  split at h
  next => exact Option.some.inj h ▸ hd
  next => exact hmerge h

mutual
theorem FieldType.wellFormed_unify? : (t : FieldType) → t.WellFormed → {u m : FieldType} →
    u.WellFormed → t.unify? u = some m → m.WellFormed
  | .basic _, ht, u, m, _, h | .classToken, ht, u, m, _, h | .enum _, ht, u, m, _, h => by
    cases FieldType.merges_of_unify? h
    exact ht
  | .nested d, ht, u, m, hu, h => by
    cases FieldType.merges_of_unify? h with
    | nested hm => exact Definition.wellFormed_unify?_of_merge? ht (d.wellFormed_merge? ht hu) hm
  | .array b, ht, u, m, hu, h => by
    cases FieldType.merges_of_unify? h with
    | array hm =>
      rw [FieldType.WellFormed] at ht hu ⊢
      exact b.wellFormed_unify? ht hu hm
    | known => exact ht
  | .unknownArray, _, u, m, hu, h => by
    cases FieldType.merges_of_unify? h with
    | learned c => exact hu
    | unknownArray => exact hu
theorem Definition.wellFormed_merge? : (d : Definition) → d.WellFormed → {e m : Definition} →
    e.WellFormed → d.merge? e = some m → m.WellFormed
  | ⟨_, _, none, _⟩, hd, e, m, he, h => by
    refine Definition.wellFormed_merge?_of_tables hd he h fun ht => ?_
    obtain ⟨-, hm⟩ := FieldType.unifyTable?_nil ht
    exact hm ▸ trivial
  | ⟨_, _, some fields, _⟩, hd, e, m, he, h =>
    Definition.wellFormed_merge?_of_tables hd he h
      (FieldType.wellFormedTable_unify? fields hd.fieldTable he.fieldTable)
theorem FieldType.wellFormedTable_unify? : (t : List (String × FieldType)) →
    FieldType.WellFormedTable t → {u m : List (String × FieldType)} →
    FieldType.WellFormedTable u → FieldType.unifyTable? t u = some m →
    FieldType.WellFormedTable m
  | [], ht, u, m, _, h => by
    obtain ⟨-, rfl⟩ := FieldType.unifyTable?_nil h
    exact ht
  | (n, t) :: rest, ht, u, m, hu, h => by
    cases u with
    | nil => simp [FieldType.unifyTable?] at h
    | cons y others =>
      obtain ⟨-, type, table, htype, htable, rfl⟩ := FieldType.unifyTable?_cons_eq_some.mp h
      exact ⟨t.wellFormed_unify? ht.1 hu.1 htype,
        FieldType.wellFormedTable_unify? rest ht.2 hu.2 htable⟩
end

theorem Definition.wellFormed_unify? {d e m : Definition} (hd : d.WellFormed)
    (he : e.WellFormed) (h : d.unify? e = some m) : m.WellFormed :=
  Definition.wellFormed_unify?_of_merge? hd (d.wellFormed_merge? hd he) h

theorem Definition.name_unify? {d e m : Definition} (h : d.unify? e = some m) :
    m.name = d.name ∧ m.name = e.name := by
  unfold Definition.unify? at h
  split at h
  next hs =>
    obtain rfl := Option.some.inj h
    exact ⟨rfl, (Definition.same_iff.mp (by simpa using hs)).1⟩
  next =>
    obtain ⟨hde, hme, -⟩ := Definition.merge?_cases h
    exact ⟨hme.trans hde.symm, hme⟩

end AnnotationScene
