import AnnotationScene.Annotation.Same

/-!
# Comparing definitions that are shared

A definition is held once and mentioned from many places, so as a tree it can be exponentially
larger than the memory that holds it. The functions `isSame` give the answers of `same`, and look
no further where both sides are one object. Each comparison comes with the proof of its answer,
which is what makes the short cut admissible.
-/

namespace AnnotationScene

/-- The answer of `look`, unless `a` and `b` are one object: then they are the same. -/
@[inline]
def unlessShared {α : Type} (same : α → α → Bool) (refl : ∀ a, same a a = true) (a b : α)
    (look : Unit → { r : Bool // r = same a b }) : { r : Bool // r = same a b } :=
  ⟨withPtrEq a b (fun _ => (look ()).val) fun h => (look ()).property.trans (h ▸ refl a),
    (look ()).property⟩

mutual
def FieldType.compareSame : (t u : FieldType) → { r : Bool // r = t.same u }
  | .nested d, .nested e =>
    unlessShared Definition.same Definition.same_refl d e fun _ => d.compareSame e
  | .array c, .array d => c.compareSame d
  | t, u => ⟨t.same u, rfl⟩
termination_by structural t => t
def Definition.compareSame : (d e : Definition) → { r : Bool // r = d.same e }
  | ⟨name, metas, none, source⟩, e =>
    ⟨name == e.name && metas.length == e.metas.length &&
        (AnnotationSet.compareAllIn metas e.metas).val && e.fieldTable.isEmpty, by
      rw [(AnnotationSet.compareAllIn metas e.metas).property, Definition.same]⟩
  | ⟨name, metas, some fields, source⟩, e =>
    ⟨name == e.name && metas.length == e.metas.length &&
        (AnnotationSet.compareAllIn metas e.metas).val &&
        (FieldType.compareTable fields e.fieldTable).val, by
      rw [(AnnotationSet.compareAllIn metas e.metas).property,
        (FieldType.compareTable fields e.fieldTable).property, Definition.same]⟩
termination_by structural d => d
def Annotation.compareSame : (a b : Annotation) → { r : Bool // r = a.same b }
  | ⟨definition, values⟩, b =>
    let sameDefinition := fun (_ : Unit) =>
      unlessShared Definition.same Definition.same_refl definition b.definition fun _ =>
        definition.compareSame b.definition
    ⟨(sameDefinition ()).val && (Value.compareTable values b.values).val, by
      rw [(sameDefinition ()).property, (Value.compareTable values b.values).property,
        Annotation.same]⟩
termination_by structural a => a
def Value.compareSame : (v w : Value) → { r : Bool // r = v.same w }
  | .nested a, .nested b => a.compareSame b
  | .array vs, .array ws => Value.compareList vs ws
  | v, w => ⟨v.same w, rfl⟩
termination_by structural v => v
def AnnotationSet.compareAllIn : (l s : List Annotation) →
    { r : Bool // r = AnnotationSet.allIn l s }
  | [], _ => ⟨true, rfl⟩
  | a :: rest, s =>
    ⟨s.any (fun b => (a.compareSame b).val) && (AnnotationSet.compareAllIn rest s).val, by
      have h : (fun b => (a.compareSame b).val) = fun b => a.same b :=
        funext fun b => (a.compareSame b).property
      rw [h, (AnnotationSet.compareAllIn rest s).property, AnnotationSet.allIn]⟩
termination_by structural l => l
def FieldType.compareTable :
    (t u : List (String × FieldType)) → { r : Bool // r = FieldType.sameTable t u }
  | (n, t) :: rest, (m, u) :: others =>
    ⟨n == m && (t.compareSame u).val && (FieldType.compareTable rest others).val, by
      rw [(t.compareSame u).property, (FieldType.compareTable rest others).property,
        FieldType.sameTable]⟩
  | t, u => ⟨FieldType.sameTable t u, rfl⟩
termination_by structural t => t
def Value.compareTable :
    (t u : List (String × Value)) → { r : Bool // r = Value.sameTable t u }
  | (n, v) :: rest, (m, w) :: others =>
    ⟨n == m && (v.compareSame w).val && (Value.compareTable rest others).val, by
      rw [(v.compareSame w).property, (Value.compareTable rest others).property,
        Value.sameTable]⟩
  | t, u => ⟨Value.sameTable t u, rfl⟩
termination_by structural t => t
def Value.compareList : (l m : List Value) → { r : Bool // r = Value.sameList l m }
  | v :: rest, w :: others =>
    ⟨(v.compareSame w).val && (Value.compareList rest others).val, by
      rw [(v.compareSame w).property, (Value.compareList rest others).property,
        Value.sameList]⟩
  | l, m => ⟨Value.sameList l m, rfl⟩
termination_by structural l => l
end

def FieldType.isSame (t u : FieldType) : Bool := (t.compareSame u).val

@[simp]
theorem FieldType.isSame_eq (t u : FieldType) : t.isSame u = t.same u := (t.compareSame u).property

def FieldType.isSameTable (t u : List (String × FieldType)) : Bool :=
  (FieldType.compareTable t u).val

@[simp]
theorem FieldType.isSameTable_eq (t u : List (String × FieldType)) :
    FieldType.isSameTable t u = FieldType.sameTable t u :=
  (FieldType.compareTable t u).property

def Definition.isSame (d e : Definition) : Bool :=
  (unlessShared Definition.same Definition.same_refl d e fun _ => d.compareSame e).val

@[simp]
theorem Definition.isSame_eq (d e : Definition) : d.isSame e = d.same e :=
  (d.compareSame e).property

def Annotation.isSame (a b : Annotation) : Bool := (a.compareSame b).val

@[simp]
theorem Annotation.isSame_eq (a b : Annotation) : a.isSame b = a.same b :=
  (a.compareSame b).property

def Value.isSame (v w : Value) : Bool := (v.compareSame w).val

@[simp]
theorem Value.isSame_eq (v w : Value) : v.isSame w = v.same w := (v.compareSame w).property

end AnnotationScene
