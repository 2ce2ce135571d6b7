import AnnotationScene.Annotation.Set
import AnnotationScene.Annotation.Text

/-!
# Merging definitions

Two views of one annotation type are merged when they do not contradict each other. A missing
field table, missing meta-annotations and the unknown component of an array are filled in from the
other view; everything else has to agree.
-/

namespace AnnotationScene

/-- An empty set of meta-annotations gives way to the other. -/
def unifyMetas? (s t : AnnotationSet) : Option AnnotationSet :=
  if AnnotationSet.same s t || t.isEmpty then some s
  else if s.isEmpty then some t
  else none

mutual
def FieldType.unify? : FieldType → FieldType → Option FieldType
  | .nested d, .nested e =>
    if d.isSame e then some (.nested d) else (d.merge? e).map .nested
  | .array c, .array d => (c.unify? d).map .array
  | .array c, .unknownArray => some (.array c)
  | .unknownArray, .array d => some (.array d)
  | t, u => if t.isSame u then some t else none
termination_by structural t => t
/-- Two views that differ; the source of the merged one names both. -/
def Definition.merge? : Definition → Definition → Option Definition
  | ⟨name, metas, fields, source⟩, e =>
    if name != e.name then none
    else
      match unifyMetas? metas e.metas with
      | none => none
      | some merged =>
        let unified := "unify(" ++ source ++ ", " ++ e.source ++ ")"
        match fields with
        | none => some ⟨name, merged, e.fields, unified⟩
        | some [] => some ⟨name, merged, e.fields, unified⟩
        | some (first :: rest) =>
          if e.hasFields then
            (FieldType.unifyTable? (first :: rest) e.fieldTable).map fun table =>
              ⟨name, merged, some table, unified⟩
          else some ⟨name, merged, some (first :: rest), unified⟩
termination_by structural d => d
/-- Both tables must have the same names. The first field that cannot be merged ends it. -/
def FieldType.unifyTable? :
    List (String × FieldType) → List (String × FieldType) → Option (List (String × FieldType))
  | [], [] => some []
  | (n, t) :: rest, (m, u) :: others =>
    if n != m then none
    else
      match t.unify? u with
      | none => none
      | some type => (FieldType.unifyTable? rest others).map ((n, type) :: ·)
  | _, _ => none
termination_by structural fields => fields
end

/-- Of two views that are the same the first one stays as it is. -/
def Definition.unify? (d e : Definition) : Option Definition :=
  if d.isSame e then some d else d.merge? e

def Definition.tryFields (d : Definition) (fields : List (String × FieldType)) :
    Attempt Definition :=
  (tryOnce FieldType.isSameTable (fun t => Text.inspectTable (FieldType.inspectTable t))
    "annotation field types" d.fields (some fields)).map fun fields => { d with fields }

end AnnotationScene
