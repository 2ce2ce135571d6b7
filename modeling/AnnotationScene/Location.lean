import AnnotationScene.TypePath

/-!
# Locations

Keys that say where inside a declaration an annotation sits. Each has a short text that names it,
an inspected form, and an order: fields in the order in which they are declared, lists
lexicographically, and an absent field before every present one.
-/

namespace AnnotationScene

/-- A bound of a type parameter; bound `-1` is the parameter itself. -/
structure BoundLocation where
  parameter : Int32
  bound : Int32
deriving DecidableEq

/-- A place in code, by bytecode offset or by index in the source; the unused one is `-1`. -/
structure RelativeLocation where
  offset : Int32
  index : Int32
  typeIndex : Int32
deriving DecidableEq

/-- A type in an extends, implements or throws clause; `-1` is the superclass. -/
structure TypeIndexLocation where
  typeIndex : Int32
deriving DecidableEq

/-- Where in the bytecode a local variable lives in one slot. -/
structure LocalRange where
  start : Int32
  length : Int32
  index : Int32
deriving DecidableEq

/-- A local variable, by bytecode ranges or by its name in the source. -/
structure LocalLocation where
  ranges : List LocalRange
  variableName : Option String
  variableIndex : Int32
deriving DecidableEq

structure AstEntry where
  treeKind : String
  childSelector : String
  argument : Option UInt32
deriving DecidableEq

structure AstPath where
  entries : List AstEntry
deriving DecidableEq

def showInt32 (n : Int32) : String := toString n.toInt

namespace BoundLocation

def ofParameter (parameter : Int32) : BoundLocation := ⟨parameter, -1⟩

def render (loc : BoundLocation) : String :=
  s!"bound {showInt32 loc.parameter} &{showInt32 loc.bound}"

def inspect (loc : BoundLocation) : String :=
  Text.inspectRecord "BoundLocation"
    [("param_index", showInt32 loc.parameter), ("bound_index", showInt32 loc.bound)]

end BoundLocation

namespace RelativeLocation

def ofOffset (offset typeIndex : Int32) : RelativeLocation := ⟨offset, -1, typeIndex⟩

def ofIndex (index typeIndex : Int32) : RelativeLocation := ⟨-1, index, typeIndex⟩

def isBytecode (loc : RelativeLocation) : Bool := -1 < loc.offset.toInt

def site (loc : RelativeLocation) : RelativeLocation := { loc with typeIndex := -1 }

def render (loc : RelativeLocation) : String :=
  let place :=
    if loc.isBytecode then s!"#{showInt32 loc.offset}" else s!"*{showInt32 loc.index}"
  if 0 ≤ loc.typeIndex.toInt then place ++ s!",{showInt32 loc.typeIndex}" else place

def inspect (loc : RelativeLocation) : String :=
  Text.inspectRecord "RelativeLocation"
    [("offset", showInt32 loc.offset), ("index", showInt32 loc.index),
      ("type_index", showInt32 loc.typeIndex)]

end RelativeLocation

namespace TypeIndexLocation

def superclass : TypeIndexLocation := ⟨-1⟩

def render (loc : TypeIndexLocation) : String := s!"typeindex {showInt32 loc.typeIndex}"

def inspect (loc : TypeIndexLocation) : String :=
  Text.inspectRecord "TypeIndexLocation" [("type_index", showInt32 loc.typeIndex)]

end TypeIndexLocation

namespace LocalRange

def render (range : LocalRange) : String :=
  s!"#{showInt32 range.index} #{showInt32 range.start}+{showInt32 range.length}"

def inspect (range : LocalRange) : String :=
  Text.inspectRecord "LocalRange"
    [("start", showInt32 range.start), ("length", showInt32 range.length),
      ("index", showInt32 range.index)]

end LocalRange

namespace LocalLocation

def ofRanges (ranges : List LocalRange) : LocalLocation := ⟨ranges, none, -1⟩

def ofSlot (index start length : Int32) : LocalLocation := ofRanges [⟨start, length, index⟩]

def ofSource (name : String) (index : Int32) : LocalLocation := ⟨[], some name, index⟩

def slot? (loc : LocalLocation) : Option Int32 := loc.ranges.head?.map (·.index)

def render (loc : LocalLocation) : String :=
  match loc.variableName with
  | some name => s!"{name}*{showInt32 loc.variableIndex}"
  | none => " ".intercalate (loc.ranges.map LocalRange.render)

def inspect (loc : LocalLocation) : String :=
  Text.inspectRecord "LocalLocation"
    [("ranges", Text.inspectList (loc.ranges.map LocalRange.inspect)),
      ("var_name", Text.inspectOption Text.quote loc.variableName),
      ("var_index", showInt32 loc.variableIndex)]

end LocalLocation

namespace AstEntry

def render (entry : AstEntry) : String :=
  let step := s!"{entry.treeKind}.{entry.childSelector}"
  match entry.argument with
  | some argument => step ++ s!" {argument.toNat}"
  | none => step

def inspect (entry : AstEntry) : String :=
  Text.inspectRecord "AstEntry"
    [("tree_kind", Text.quote entry.treeKind),
      ("child_selector", Text.quote entry.childSelector),
      ("argument", Text.inspectOption (fun n => toString n.toNat) entry.argument)]

end AstEntry

namespace AstPath

def extend (path : AstPath) (entry : AstEntry) : AstPath := ⟨path.entries ++ [entry]⟩

def render (path : AstPath) : String := Text.commas (path.entries.map AstEntry.render)

def inspect (path : AstPath) : String :=
  Text.inspectCase "AstPath" (Text.inspectList (path.entries.map AstEntry.inspect))

end AstPath

end AnnotationScene
