import AnnotationScene.Annotation.Basic
import AnnotationScene.Text.Shortest

/-!
# The text of annotations

`render` writes annotations as they stand in source code; `inspect` spells out every part.
-/

namespace AnnotationScene

def renderFloat (bits : UInt32) : String :=
  Text.FloatStyle.plain.render (Text.FloatFormat.single.decode bits.toNat)

def renderDouble (bits : UInt64) : String :=
  Text.FloatStyle.plain.render (Text.FloatFormat.double.decode bits.toNat)

def inspectFloat (bits : UInt32) : String :=
  Text.FloatStyle.inspected.render (Text.FloatFormat.single.decode bits.toNat)

def inspectDouble (bits : UInt64) : String :=
  Text.FloatStyle.inspected.render (Text.FloatFormat.double.decode bits.toNat)

mutual
def Value.render : Value → String
  | .byte v => toString v.toInt
  | .short v => toString v.toInt
  | .char v => Text.quoteChar v
  | .int v => toString v.toInt
  | .long v => toString v.toInt ++ "L"
  | .float v => renderFloat v ++ "f"
  | .double v => renderDouble v
  | .boolean v => if v then "true" else "false"
  | .string v => Text.quote v
  | .classToken v => v ++ ".class"
  | .enum t c => s!"{t}.{c}"
  | .nested a => a.render
  | .array vs => Text.inspectSet (Value.renderList vs)
def Annotation.render : Annotation → String
  | ⟨definition, values⟩ =>
    match Value.renderTable values with
    | [] => "@" ++ definition.name
    | parts => "@" ++ definition.name ++ "(" ++ Text.commas parts ++ ")"
def Value.renderTable : List (String × Value) → List String
  | [] => []
  | (n, v) :: rest => (n ++ "=" ++ v.render) :: Value.renderTable rest
def Value.renderList : List Value → List String
  | [] => []
  | v :: rest => v.render :: Value.renderList rest
end

def Definition.render (d : Definition) : String :=
  let head := "annotation @" ++ d.name ++ String.join (d.metas.map fun a => " " ++ a.render) ++ ":"
  match d.fieldTable.map fun field => field.2.render ++ " " ++ field.1 with
  | [] => head
  | parts => head ++ " " ++ Text.commas parts

def BasicType.inspect : BasicType → String
  | .byte => "Byte"
  | .short => "Short"
  | .char => "Char"
  | .int => "Int"
  | .long => "Long"
  | .float => "Float"
  | .double => "Double"
  | .boolean => "Boolean"
  | .string => "String"

mutual
def FieldType.inspect : FieldType → String
  | .basic t => Text.inspectCase "Basic" t.inspect
  | .classToken => "ClassToken"
  | .enum n => Text.inspectCase "Enum" (Text.quote n)
  | .nested d => Text.inspectCase "Annotation" d.inspect
  | .array c => Text.inspectCase "Array" (Text.inspectCase "Some" c.inspect)
  | .unknownArray => Text.inspectCase "Array" "None"
def Definition.inspect : Definition → String
  | ⟨name, metas, none, source⟩ =>
    Text.inspectRecord "AnnotationDef"
      [("name", Text.quote name),
        ("meta_annotations", Text.inspectSet (AnnotationSet.inspectList metas)),
        ("field_types", "None"), ("source", Text.quote source)]
  | ⟨name, metas, some fields, source⟩ =>
    Text.inspectRecord "AnnotationDef"
      [("name", Text.quote name),
        ("meta_annotations", Text.inspectSet (AnnotationSet.inspectList metas)),
        ("field_types",
          Text.inspectCase "Some" (Text.inspectTable (FieldType.inspectTable fields))),
        ("source", Text.quote source)]
def Annotation.inspect : Annotation → String
  | ⟨definition, values⟩ =>
    Text.inspectRecord "Annotation"
      [("def", definition.inspect), ("field_values", Text.inspectTable (Value.inspectTable values))]
def Value.inspect : Value → String
  | .byte v => Text.inspectCase "Byte" (toString v.toInt)
  | .short v => Text.inspectCase "Short" (toString v.toInt)
  | .char v => Text.inspectCase "Char" (Text.quoteChar v)
  | .int v => Text.inspectCase "Int" (toString v.toInt)
  | .long v => Text.inspectCase "Long" (toString v.toInt)
  | .float v => Text.inspectCase "Float" (inspectFloat v)
  | .double v => Text.inspectCase "Double" (inspectDouble v)
  | .boolean v => Text.inspectCase "Boolean" (if v then "true" else "false")
  | .string v => Text.inspectCase "String" (Text.quote v)
  | .classToken v => Text.inspectCase "Class" (Text.quote v)
  | .enum t c =>
    Text.inspectRecord "Enum" [("type_name", Text.quote t), ("constant", Text.quote c)]
  | .nested a => Text.inspectCase "Annotation" a.inspect
  | .array vs => Text.inspectCase "Array" (Text.inspectList (Value.inspectList vs))
def AnnotationSet.inspectList : List Annotation → List String
  | [] => []
  | a :: rest => a.inspect :: AnnotationSet.inspectList rest
def FieldType.inspectTable : List (String × FieldType) → List (String × String)
  | [] => []
  | (n, t) :: rest => (Text.quote n, t.inspect) :: FieldType.inspectTable rest
def Value.inspectTable : List (String × Value) → List (String × String)
  | [] => []
  | (n, v) :: rest => (Text.quote n, v.inspect) :: Value.inspectTable rest
def Value.inspectList : List Value → List String
  | [] => []
  | v :: rest => v.inspect :: Value.inspectList rest
end

end AnnotationScene
