import AnnotationScene.Error
import AnnotationScene.Table

/-!
# Annotations and their definitions

An annotation gives values to fields of its definition. A definition names the annotation type,
carries meta-annotations, and may know the types of the fields; `source` says where it was found.
The four kinds of data contain each other, but every value is a finite tree.

Field tables and value tables are sorted by name. Lists of annotations are sets in order of
insertion.
-/

namespace AnnotationScene

inductive BasicType
  | byte
  | short
  | char
  | int
  | long
  | float
  | double
  | boolean
  | string
deriving DecidableEq, Repr

def BasicType.name : BasicType → String
  | .byte => "byte"
  | .short => "short"
  | .char => "char"
  | .int => "int"
  | .long => "long"
  | .float => "float"
  | .double => "double"
  | .boolean => "boolean"
  | .string => "String"

def BasicType.all : List BasicType :=
  [.byte, .short, .char, .int, .long, .float, .double, .boolean, .string]

mutual
inductive FieldType
  | basic (type : BasicType)
  | classToken
  | enum (typeName : String)
  | nested (definition : Definition)
  | array (component : FieldType)
  /-- An array of which only empty values were seen. -/
  | unknownArray
structure Definition where
  name : String
  metas : List Annotation
  fields : Option (List (String × FieldType))
  source : String
structure Annotation where
  definition : Definition
  values : List (String × Value)
/-- Floating point values are kept as bit patterns. -/
inductive Value
  | byte (value : Int8)
  | short (value : Int16)
  | char (value : Char)
  | int (value : Int32)
  | long (value : Int64)
  | float (bits : UInt32)
  | double (bits : UInt64)
  | boolean (value : Bool)
  | string (value : String)
  | classToken (name : String)
  | enum (typeName constant : String)
  | nested (inner : Annotation)
  | array (elements : List Value)
end

abbrev AnnotationSet := List Annotation

def Value.basicType? : Value → Option BasicType
  | .byte _ => some .byte
  | .short _ => some .short
  | .char _ => some .char
  | .int _ => some .int
  | .long _ => some .long
  | .float _ => some .float
  | .double _ => some .double
  | .boolean _ => some .boolean
  | .string _ => some .string
  | _ => none

namespace FieldType

/-- The definition that values of the type instantiate, seen through arrays. -/
def definition? : FieldType → Option Definition
  | .nested definition => some definition
  | .array component => component.definition?
  | _ => none

def accepts : FieldType → Value → Bool
  | .basic type, value => value.basicType? == some type
  | .classToken, .classToken _ => true
  | .enum typeName, .enum valueType _ => typeName == valueType
  | .nested definition, .nested inner => definition.name == inner.definition.name
  | .array component, .array elements => elements.all fun value => component.accepts value
  | .unknownArray, .array elements => elements.isEmpty
  | _, _ => false

def render : FieldType → String
  | .basic type => type.name
  | .classToken => "Class"
  | .enum typeName => s!"enum {typeName}"
  | .nested definition => s!"annotation-field {definition.name}"
  | .array component => component.render ++ "[]"
  | .unknownArray => "unknown[]"

end FieldType

namespace Definition

def ofName (name source : String) : Definition := ⟨name, [], none, source⟩

def fieldTable (d : Definition) : List (String × FieldType) := d.fields.getD []

def hasFields (d : Definition) : Bool := !d.fieldTable.isEmpty

def fieldNames (d : Definition) : List String := d.fieldTable.map (·.1)

def fieldType? (d : Definition) (field : String) : Option FieldType :=
  Table.get? d.fieldTable field

def dependencies (d : Definition) : List Definition :=
  d.fieldTable.filterMap fun field => field.2.definition?

end Definition

namespace Annotation

def marker (definition : Definition) : Annotation := ⟨definition, []⟩

def name (a : Annotation) : String := a.definition.name

def value? (a : Annotation) (field : String) : Option Value := Table.get? a.values field

/-- Gives a field a value, which has to fit if the definition knows any fields. -/
def withValue (a : Annotation) (field : String) (value : Value) : Except SceneError Annotation :=
  let accepted : Annotation := { a with values := Table.insert field value a.values }
  if a.definition.hasFields then
    match a.definition.fieldType? field with
    | none => .error (.unknownField a.name field)
    | some type =>
      if type.accepts value then .ok accepted
      else .error (.valueMismatch a.name field type.render)
  else .ok accepted

end Annotation

mutual
/-- The annotations in a value, each before those nested in it. -/
def Value.annotations : Value → List Annotation
  | .nested inner => inner :: inner.nestedAnnotations
  | .array elements => Value.annotationsInList elements
  | _ => []
/-- The annotations at any depth in the values, in order of first mention. -/
def Annotation.nestedAnnotations : Annotation → List Annotation
  | ⟨_, values⟩ => Value.annotationsInTable values
def Value.annotationsInTable : List (String × Value) → List Annotation
  | [] => []
  | (_, value) :: rest => value.annotations ++ Value.annotationsInTable rest
def Value.annotationsInList : List Value → List Annotation
  | [] => []
  | value :: rest => value.annotations ++ Value.annotationsInList rest
end

end AnnotationScene
