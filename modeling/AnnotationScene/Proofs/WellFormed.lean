import AnnotationScene.Scene

/-!
# Well-formed annotations and scenes

Sets of annotations list no two members that are the same, and maps of elements list no key twice.
Inserting looks for the member or the key first, so both hold wherever a set or a map was built by
its operations; here they are stated at every depth, since a definition carries sets of its own.
-/

namespace AnnotationScene

mutual
def FieldType.WellFormed : FieldType → Prop
  | .nested d => d.WellFormed
  | .array c => c.WellFormed
  | _ => True
def Definition.WellFormed : Definition → Prop
  | ⟨_, metas, none, _⟩ => AnnotationSet.WellFormed metas
  | ⟨_, metas, some fields, _⟩ =>
    AnnotationSet.WellFormed metas ∧ FieldType.WellFormedTable fields
def Annotation.WellFormed : Annotation → Prop
  | ⟨definition, values⟩ => definition.WellFormed ∧ Value.WellFormedTable values
def Value.WellFormed : Value → Prop
  | .nested a => a.WellFormed
  | .array vs => Value.WellFormedList vs
  | _ => True
/-- Every member is well formed, and none is the same as a later one. -/
def AnnotationSet.WellFormed : List Annotation → Prop
  | [] => True
  | a :: rest => a.WellFormed ∧ (∀ b ∈ rest, a.same b = false) ∧ AnnotationSet.WellFormed rest
def FieldType.WellFormedTable : List (String × FieldType) → Prop
  | [] => True
  | (_, t) :: rest => t.WellFormed ∧ FieldType.WellFormedTable rest
def Value.WellFormedTable : List (String × Value) → Prop
  | [] => True
  | (_, v) :: rest => v.WellFormed ∧ Value.WellFormedTable rest
def Value.WellFormedList : List Value → Prop
  | [] => True
  | v :: rest => v.WellFormed ∧ Value.WellFormedList rest
end

-- Each is the conjunction that its equation says, so deciding follows the data.
mutual
def FieldType.decWellFormed : (t : FieldType) → Decidable t.WellFormed
  | .nested d => d.decWellFormed
  | .array c => c.decWellFormed
  | .basic _ | .classToken | .enum _ | .unknownArray => instDecidableTrue
def Definition.decWellFormed : (d : Definition) → Decidable d.WellFormed
  | ⟨_, metas, none, _⟩ => AnnotationSet.decWellFormed metas
  | ⟨_, metas, some fields, _⟩ =>
    @instDecidableAnd _ _ (AnnotationSet.decWellFormed metas)
      (FieldType.decWellFormedTable fields)
def Annotation.decWellFormed : (a : Annotation) → Decidable a.WellFormed
  | ⟨definition, values⟩ =>
    @instDecidableAnd _ _ definition.decWellFormed (Value.decWellFormedTable values)
def Value.decWellFormed : (v : Value) → Decidable v.WellFormed
  | .nested a => a.decWellFormed
  | .array vs => Value.decWellFormedList vs
  | .byte _ | .short _ | .char _ | .int _ | .long _ | .float _ | .double _ | .boolean _
  | .string _ | .classToken _ | .enum _ _ => instDecidableTrue
def AnnotationSet.decWellFormed : (s : List Annotation) → Decidable (AnnotationSet.WellFormed s)
  | [] => instDecidableTrue
  | a :: rest =>
    @instDecidableAnd _ _ a.decWellFormed
      (@instDecidableAnd _ _ inferInstance (AnnotationSet.decWellFormed rest))
def FieldType.decWellFormedTable : (t : List (String × FieldType)) →
    Decidable (FieldType.WellFormedTable t)
  | [] => instDecidableTrue
  | (_, t) :: rest => @instDecidableAnd _ _ t.decWellFormed (FieldType.decWellFormedTable rest)
def Value.decWellFormedTable : (t : List (String × Value)) → Decidable (Value.WellFormedTable t)
  | [] => instDecidableTrue
  | (_, v) :: rest => @instDecidableAnd _ _ v.decWellFormed (Value.decWellFormedTable rest)
def Value.decWellFormedList : (vs : List Value) → Decidable (Value.WellFormedList vs)
  | [] => instDecidableTrue
  | v :: rest => @instDecidableAnd _ _ v.decWellFormed (Value.decWellFormedList rest)
end

instance (d : Definition) : Decidable d.WellFormed := d.decWellFormed

instance (a : Annotation) : Decidable a.WellFormed := a.decWellFormed

instance (s : List Annotation) : Decidable (AnnotationSet.WellFormed s) :=
  AnnotationSet.decWellFormed s

theorem AnnotationSet.wellFormed_iff {s : List Annotation} :
    AnnotationSet.WellFormed s ↔
      (∀ a ∈ s, a.WellFormed) ∧ s.Pairwise fun a b => a.same b = false := by
  induction s with
  | nil => simp [AnnotationSet.WellFormed]
  | cons a rest ih =>
    simp only [AnnotationSet.WellFormed, ih, List.forall_mem_cons, List.pairwise_cons]
    constructor
    · rintro ⟨ha, hn, hall, hp⟩
      exact ⟨⟨ha, hall⟩, hn, hp⟩
    · rintro ⟨⟨ha, hall⟩, hn, hp⟩
      exact ⟨ha, hn, hall, hp⟩

theorem FieldType.wellFormedTable_iff {t : List (String × FieldType)} :
    FieldType.WellFormedTable t ↔ ∀ f ∈ t, f.2.WellFormed := by
  induction t with
  | nil => simp [FieldType.WellFormedTable]
  | cons f rest ih => simp [FieldType.WellFormedTable, ih]

theorem Definition.wellFormed_iff {d : Definition} :
    d.WellFormed ↔ AnnotationSet.WellFormed d.metas ∧ FieldType.WellFormedTable d.fieldTable := by
  obtain ⟨name, metas, fields, source⟩ := d
  cases fields with
  | none => simp [Definition.WellFormed, Definition.fieldTable, FieldType.WellFormedTable]
  | some fields => simp [Definition.WellFormed, Definition.fieldTable]

theorem Definition.WellFormed.metas {d : Definition} (h : d.WellFormed) :
    AnnotationSet.WellFormed d.metas :=
  (Definition.wellFormed_iff.mp h).1

theorem Definition.WellFormed.fieldTable {d : Definition} (h : d.WellFormed) :
    FieldType.WellFormedTable d.fieldTable :=
  (Definition.wellFormed_iff.mp h).2

def Header.WellFormed {k : Kind} (h : Header k) : Prop := AnnotationSet.WellFormed h.annotations

mutual
def Element.WellFormed {k : Kind} : Element k → Prop
  | .mk header parts => header.WellFormed ∧ parts.WellFormed
def Parts.WellFormed {layout : List Slot} : Parts layout → Prop
  | .nil => True
  | .fixed child more => child.WellFormed ∧ more.WellFormed
  | .absent more => more.WellFormed
  | .present child more => child.WellFormed ∧ more.WellFormed
  | .keyed entries more => entries.WellFormed ∧ more.WellFormed
  | .contracts set more => AnnotationSet.WellFormed set ∧ more.WellFormed
def Entries.WellFormed {m : ChildMap} : Entries m → Prop
  | .nil => True
  | .cons key child more => key ∉ more.keys ∧ child.WellFormed ∧ more.WellFormed
end

instance {k : Kind} (h : Header k) : Decidable h.WellFormed :=
  inferInstanceAs (Decidable (AnnotationSet.WellFormed h.annotations))

mutual
def Element.decWellFormed {k : Kind} : (e : Element k) → Decidable e.WellFormed
  | .mk _ parts => @instDecidableAnd _ _ inferInstance parts.decWellFormed
def Parts.decWellFormed {layout : List Slot} : (p : Parts layout) → Decidable p.WellFormed
  | .nil => instDecidableTrue
  | .fixed child more => @instDecidableAnd _ _ child.decWellFormed more.decWellFormed
  | .absent more => more.decWellFormed
  | .present child more => @instDecidableAnd _ _ child.decWellFormed more.decWellFormed
  | .keyed entries more => @instDecidableAnd _ _ entries.decWellFormed more.decWellFormed
  | .contracts _ more => @instDecidableAnd _ _ inferInstance more.decWellFormed
def Entries.decWellFormed {m : ChildMap} : (e : Entries m) → Decidable e.WellFormed
  | .nil => instDecidableTrue
  | .cons _ child more =>
    @instDecidableAnd _ _ inferInstance
      (@instDecidableAnd _ _ child.decWellFormed more.decWellFormed)
end

def Scene.WellFormed (s : Scene) : Prop := s.packages.WellFormed ∧ s.classes.WellFormed

instance (s : Scene) : Decidable s.WellFormed :=
  @instDecidableAnd _ _ s.packages.decWellFormed s.classes.decWellFormed

-- What the operations build, with the proof that it is well formed.

structure Scene.Valid extends Scene where
  wellFormed : toScene.WellFormed

instance : CoeOut Scene.Valid Scene := ⟨Scene.Valid.toScene⟩

abbrev Annotation.Valid := { a : Annotation // a.WellFormed }

abbrev Element.Valid (k : Kind) := { e : Element k // e.WellFormed }

end AnnotationScene
