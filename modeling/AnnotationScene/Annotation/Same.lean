import AnnotationScene.Annotation.Basic

/-!
# Sameness of annotations

Two definitions are the same when they have the same name, the same meta-annotations in any order
and the same field types; where they were found does not matter, and an empty field table is as
good as none. Floating point values are compared by bit pattern. Everything is the same as itself.
-/

namespace AnnotationScene

mutual
def FieldType.same : FieldType → FieldType → Bool
  | .basic t, .basic u => t == u
  | .classToken, .classToken => true
  | .enum n, .enum m => n == m
  | .nested d, .nested e => d.same e
  | .array c, .array d => c.same d
  | .unknownArray, .unknownArray => true
  | _, _ => false
termination_by structural t => t
def Definition.same : Definition → Definition → Bool
  | ⟨name, metas, none, _⟩, e =>
    name == e.name && metas.length == e.metas.length && AnnotationSet.allIn metas e.metas &&
      e.fieldTable.isEmpty
  | ⟨name, metas, some fields, _⟩, e =>
    name == e.name && metas.length == e.metas.length && AnnotationSet.allIn metas e.metas &&
      FieldType.sameTable fields e.fieldTable
termination_by structural d => d
def Annotation.same : Annotation → Annotation → Bool
  | ⟨definition, values⟩, b => definition.same b.definition && Value.sameTable values b.values
termination_by structural a => a
def Value.same : Value → Value → Bool
  | .byte v, .byte w => v == w
  | .short v, .short w => v == w
  | .char v, .char w => v == w
  | .int v, .int w => v == w
  | .long v, .long w => v == w
  | .float v, .float w => v == w
  | .double v, .double w => v == w
  | .boolean v, .boolean w => v == w
  | .string v, .string w => v == w
  | .classToken v, .classToken w => v == w
  | .enum t c, .enum u d => t == u && c == d
  | .nested a, .nested b => a.same b
  | .array vs, .array ws => Value.sameList vs ws
  | _, _ => false
termination_by structural v => v
def AnnotationSet.allIn : List Annotation → List Annotation → Bool
  | [], _ => true
  | a :: rest, s => s.any (fun b => a.same b) && AnnotationSet.allIn rest s
termination_by structural s => s
def FieldType.sameTable : List (String × FieldType) → List (String × FieldType) → Bool
  | [], [] => true
  | (n, t) :: rest, (m, u) :: others => n == m && t.same u && FieldType.sameTable rest others
  | _, _ => false
termination_by structural fields => fields
def Value.sameTable : List (String × Value) → List (String × Value) → Bool
  | [], [] => true
  | (n, v) :: rest, (m, w) :: others => n == m && v.same w && Value.sameTable rest others
  | _, _ => false
termination_by structural values => values
def Value.sameList : List Value → List Value → Bool
  | [], [] => true
  | v :: rest, w :: others => v.same w && Value.sameList rest others
  | _, _ => false
termination_by structural values => values
end

mutual
theorem FieldType.same_refl : (t : FieldType) → t.same t = true
  | .basic _ => by simp [FieldType.same]
  | .classToken => rfl
  | .enum _ => by simp [FieldType.same]
  | .nested d => d.same_refl
  | .array c => c.same_refl
  | .unknownArray => rfl
theorem Definition.same_refl : (d : Definition) → d.same d = true
  | ⟨_, metas, none, _⟩ => by
    simp [Definition.same, Definition.fieldTable, AnnotationSet.allIn_of_subset metas metas]
  | ⟨_, metas, some fields, _⟩ => by
    simp [Definition.same, Definition.fieldTable, AnnotationSet.allIn_of_subset metas metas,
      FieldType.sameTable_refl fields]
theorem Annotation.same_refl : (a : Annotation) → a.same a = true
  | ⟨definition, values⟩ => by
    simp [definition.same_refl, Annotation.same, Value.sameTable_refl values]
theorem Value.same_refl : (v : Value) → v.same v = true
  | .byte _ | .short _ | .char _ | .int _ | .long _ | .float _ | .double _ | .boolean _
  | .string _ | .classToken _ | .enum _ _ => by simp [Value.same]
  | .nested a => a.same_refl
  | .array vs => Value.sameList_refl vs
theorem AnnotationSet.allIn_of_subset : (l s : List Annotation) → l ⊆ s →
    AnnotationSet.allIn l s = true
  | [], _, _ => rfl
  | a :: rest, s, h => by
    have hrest : rest ⊆ s := fun b hb => h (List.mem_cons_of_mem a hb)
    have ha : ∃ b ∈ s, a.same b = true := ⟨a, h List.mem_cons_self, a.same_refl⟩
    simp [AnnotationSet.allIn, ha, AnnotationSet.allIn_of_subset rest s hrest]
theorem FieldType.sameTable_refl : (t : List (String × FieldType)) → FieldType.sameTable t t = true
  | [] => rfl
  | (_, type) :: rest => by
    simp [FieldType.sameTable, type.same_refl, FieldType.sameTable_refl rest]
theorem Value.sameTable_refl : (t : List (String × Value)) → Value.sameTable t t = true
  | [] => rfl
  | (_, value) :: rest => by
    simp [Value.sameTable, value.same_refl, Value.sameTable_refl rest]
theorem Value.sameList_refl : (l : List Value) → Value.sameList l l = true
  | [] => rfl
  | value :: rest => by simp [Value.sameList, value.same_refl, Value.sameList_refl rest]
end

end AnnotationScene
