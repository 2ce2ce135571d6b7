import AnnotationScene.Json
import AnnotationScene.Location

/-!
# Locations as JSON

A location is an object with one member for each field. Reading also takes the list of the values
in the order in which the fields are declared, ignores members it does not know, and lets a
missing optional field be absent. A step without an argument is its name, or an object that maps
the name to `null`.
-/

namespace AnnotationScene

def requiredInt32? (field : Option Json) : Option Int32 := field.bind Json.int32?

/-- An optional field may be missing. -/
def optional? {α : Type} (decode : Json → Option α) : Option Json → Option (Option α)
  | some j => Json.option? decode j
  | none => some none

namespace BoundLocation

def toJson (loc : BoundLocation) : Json :=
  .ofFields [("param_index", .ofInt32 loc.parameter), ("bound_index", .ofInt32 loc.bound)]

def ofJson? (j : Json) : Option BoundLocation :=
  match j.record? ["param_index", "bound_index"] with
  | some [parameter, bound] => do
    return ⟨← requiredInt32? parameter, ← requiredInt32? bound⟩
  | _ => none

end BoundLocation

namespace RelativeLocation

def toJson (loc : RelativeLocation) : Json :=
  .ofFields [("offset", .ofInt32 loc.offset), ("index", .ofInt32 loc.index),
    ("type_index", .ofInt32 loc.typeIndex)]

def ofJson? (j : Json) : Option RelativeLocation :=
  match j.record? ["offset", "index", "type_index"] with
  | some [offset, index, typeIndex] => do
    return ⟨← requiredInt32? offset, ← requiredInt32? index, ← requiredInt32? typeIndex⟩
  | _ => none

end RelativeLocation

namespace TypeIndexLocation

def toJson (loc : TypeIndexLocation) : Json :=
  .ofFields [("type_index", .ofInt32 loc.typeIndex)]

def ofJson? (j : Json) : Option TypeIndexLocation :=
  match j.record? ["type_index"] with
  | some [typeIndex] => do return ⟨← requiredInt32? typeIndex⟩
  | _ => none

end TypeIndexLocation

namespace LocalRange

def toJson (range : LocalRange) : Json :=
  .ofFields [("start", .ofInt32 range.start), ("length", .ofInt32 range.length),
    ("index", .ofInt32 range.index)]

def ofJson? (j : Json) : Option LocalRange :=
  match j.record? ["start", "length", "index"] with
  | some [start, length, index] => do
    return ⟨← requiredInt32? start, ← requiredInt32? length, ← requiredInt32? index⟩
  | _ => none

end LocalRange

namespace LocalLocation

def toJson (loc : LocalLocation) : Json :=
  .ofFields [("ranges", .list (loc.ranges.map LocalRange.toJson)),
    ("var_name", .ofOption .ofText loc.variableName),
    ("var_index", .ofInt32 loc.variableIndex)]

def ofJson? (j : Json) : Option LocalLocation :=
  match j.record? ["ranges", "var_name", "var_index"] with
  | some [ranges, name, index] => do
    return ⟨← ranges.bind (Json.list? LocalRange.ofJson?), ← optional? Json.string? name,
      ← requiredInt32? index⟩
  | _ => none

end LocalLocation

namespace AstEntry

def toJson (entry : AstEntry) : Json :=
  .ofFields [("tree_kind", .ofText entry.treeKind),
    ("child_selector", .ofText entry.childSelector),
    ("argument", .ofOption (fun n => .int n.toNat) entry.argument)]

def ofJson? (j : Json) : Option AstEntry :=
  match j.record? ["tree_kind", "child_selector", "argument"] with
  | some [treeKind, childSelector, argument] => do
    return ⟨← treeKind.bind Json.string?, ← childSelector.bind Json.string?,
      ← optional? Json.uint32? argument⟩
  | _ => none

end AstEntry

namespace AstPath

def toJson (path : AstPath) : Json := .list (path.entries.map AstEntry.toJson)

def ofJson? (j : Json) : Option AstPath := (Json.list? AstEntry.ofJson? j).map AstPath.mk

end AstPath

namespace TypeStep

def toJson : TypeStep → Json
  | .argument index => .ofFields [("TypeArgument", .int index.toNat)]
  | step => .ofText step.inspect

def ofName? (name : String) : Option TypeStep :=
  if name = "ArrayElement" then some .array
  else if name = "InnerType" then some .inner
  else if name = "Wildcard" then some .wildcard
  else none

def ofJson? : Json → Option TypeStep
  | .text (some name) => ofName? name
  | .object [(some name, .null)] => ofName? name
  | .object [(some name, j)] =>
    if name = "TypeArgument" then j.uint8?.map .argument else none
  | _ => none

end TypeStep

namespace TypePath

def toJson (path : TypePath) : Json := .list (path.map TypeStep.toJson)

def ofJson? (j : Json) : Option TypePath := Json.list? TypeStep.ofJson? j

end TypePath

end AnnotationScene
