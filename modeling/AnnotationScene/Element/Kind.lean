import AnnotationScene.Location.Key

/-!
# Kinds of elements and what they own

An element of a program is of one of nine kinds. The kind fixes the layout of what the element
owns: a list of slots, each for one fixed child, one optional child, a map of children, or the
contract annotations of a method. The order of a layout is the order in which an element is
pruned and compared; `Kind.visitOrder` is the order in which it is walked.
-/

namespace AnnotationScene

inductive Kind
  | plain
  | type
  /-- A type element that also names the type it casts to. -/
  | cast
  | declaration
  | expression
  | block
  | field
  | method
  | classType
deriving DecidableEq, Repr

def Kind.name : Kind → String
  | .plain => "element"
  | .type => "type element"
  | .cast => "type element with type"
  | .declaration => "declaration"
  | .expression => "expression"
  | .block => "block"
  | .field => "field"
  | .method => "method"
  | .classType => "class"

inductive FixedChild
  | returnType
  | receiver
  | body
deriving DecidableEq, Repr

def FixedChild.kind : FixedChild → Kind
  | .returnType => .type
  | .receiver => .field
  | .body => .block

inductive OptionalChild
  | type
  | init
deriving DecidableEq, Repr

def OptionalChild.kind : OptionalChild → Kind
  | .type => .type
  | .init => .expression

inductive ChildMap
  | packages
  | classes
  | innerTypes
  | insertAnnotations
  | insertTypecasts
  | typecasts
  | instanceofs
  | news
  | calls
  | references
  | lambdas
  | locals
  | bounds
  | supertypes
  | methods
  | staticInits
  | instanceInits
  | fields
  | fieldInits
  | parameters
  | throws
  | preconditions
  | postconditions
deriving DecidableEq, Repr

namespace ChildMap

def kind : ChildMap → Kind
  | .packages => .plain
  | .classes => .classType
  | .innerTypes => .type
  | .insertAnnotations => .type
  | .insertTypecasts => .cast
  | .typecasts => .type
  | .instanceofs => .type
  | .news => .type
  | .calls => .type
  | .references => .type
  | .lambdas => .method
  | .locals => .field
  | .bounds => .type
  | .supertypes => .type
  | .methods => .method
  | .staticInits => .block
  | .instanceInits => .block
  | .fields => .field
  | .fieldInits => .expression
  | .parameters => .field
  | .throws => .type
  | .preconditions => .field
  | .postconditions => .field

abbrev keyKind : ChildMap → KeyKind
  | .packages => .name
  | .classes => .name
  | .innerTypes => .typePath
  | .insertAnnotations => .astPath
  | .insertTypecasts => .astPath
  | .typecasts => .relative
  | .instanceofs => .relative
  | .news => .relative
  | .calls => .relative
  | .references => .relative
  | .lambdas => .relative
  | .locals => .localVariable
  | .bounds => .bound
  | .supertypes => .typeIndex
  | .methods => .name
  | .staticInits => .number
  | .instanceInits => .number
  | .fields => .name
  | .fieldInits => .name
  | .parameters => .number
  | .throws => .typeIndex
  | .preconditions => .name
  | .postconditions => .name

abbrev Key (m : ChildMap) : Type := m.keyKind.Key

def renderKey (m : ChildMap) (key : m.Key) : String := m.keyKind.render key

/-- The segment that stands for the map in the path to a difference. -/
def label : ChildMap → String
  | .packages => "packages"
  | .classes => "classes"
  | .innerTypes => "inner-type"
  | .insertAnnotations => "insert-annotation"
  | .insertTypecasts => "insert-typecast"
  | .typecasts => "typecast"
  | .instanceofs => "instanceof"
  | .news => "new"
  | .calls => "call"
  | .references => "reference"
  | .lambdas => "lambda"
  | .locals => "local"
  | .bounds => "bound"
  | .supertypes => "extends"
  | .methods => "method"
  | .staticInits => "static-init"
  | .instanceInits => "instance-init"
  | .fields => "field"
  | .fieldInits => "field-init"
  | .parameters => "parameter"
  | .throws => "throws"
  | .preconditions => "precondition"
  | .postconditions => "postcondition"

end ChildMap

def FixedChild.label : FixedChild → String
  | .returnType => "return"
  | .receiver => "receiver"
  | .body => "body"

def OptionalChild.label : OptionalChild → String
  | .type => "type"
  | .init => "init"

inductive Slot
  | fixed (child : FixedChild)
  | optional (child : OptionalChild)
  | keyed (map : ChildMap)
  | contracts
deriving DecidableEq, Repr

namespace Kind

/-- Every kind but the type elements may own the type of what it declares. -/
abbrev plainLayout : List Slot := [.optional .type]

abbrev declarationLayout : List Slot :=
  [.optional .type, .keyed .insertAnnotations, .keyed .insertTypecasts]

abbrev expressionLayout : List Slot :=
  [.optional .type, .keyed .typecasts, .keyed .instanceofs, .keyed .news, .keyed .calls,
    .keyed .references, .keyed .lambdas]

abbrev blockRest : List Slot := [.keyed .locals]

abbrev fieldRest : List Slot := [.optional .init]

abbrev methodRest : List Slot :=
  [.keyed .bounds, .fixed .returnType, .fixed .receiver, .keyed .parameters, .keyed .throws,
    .keyed .preconditions, .keyed .postconditions, .contracts, .fixed .body]

abbrev classRest : List Slot :=
  [.keyed .bounds, .keyed .supertypes, .keyed .methods, .keyed .staticInits,
    .keyed .instanceInits, .keyed .fields, .keyed .fieldInits]

abbrev layout : Kind → List Slot
  | .plain => plainLayout
  | .type => [.keyed .innerTypes]
  | .cast => [.keyed .innerTypes]
  | .declaration => declarationLayout
  | .expression => expressionLayout
  | .block => expressionLayout ++ blockRest
  | .field => declarationLayout ++ fieldRest
  | .method => declarationLayout ++ methodRest
  | .classType => declarationLayout ++ classRest

/-- What belongs to each slot, in the order of a walk: the fields of a class and their
initializers come before its initializer blocks. -/
def visitOrder {α : Type} : Kind → List α → List α
  | .classType, slots => slots.take 6 ++ slots.drop 8 ++ (slots.drop 6).take 2
  | _, slots => slots

end Kind

end AnnotationScene
