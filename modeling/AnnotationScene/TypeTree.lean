import AnnotationScene.Element.Address

/-!
# Type trees and the elements of their parts

A type tree is a type as written in source code: a name with type arguments, or an array. A
traversal meets each part of the tree together with the type element at the path of that part,
outermost first. Paths can only number 256 type arguments, so it stops there.
-/

namespace AnnotationScene

inductive TypeTree
  | named (name : String) (arguments : List TypeTree)
  | array (component : TypeTree)

mutual
def TypeTree.render : TypeTree → String
  | .named name arguments =>
    match TypeTree.renderAll arguments with
    | [] => name
    | parts => name ++ "<" ++ Text.commas parts ++ ">"
  | .array component => component.render ++ "[]"
def TypeTree.renderAll : List TypeTree → List String
  | [] => []
  | t :: rest => t.render :: TypeTree.renderAll rest
end

namespace Element

/-- The element at a path into the type; the empty path leads to the type itself. -/
def atPath? (e : Element .type) (path : TypePath) : Option (Element .type) :=
  if path.isEmpty then some e else e.parts.child? (.keyed .innerTypes path)

/-- Changes the element at a path, which is created if it is missing. -/
def alterAtPath {α : Type} (f : Element .type → α × Element .type) (path : TypePath)
    (e : Element .type) : α × Element .type :=
  match e with
  | .mk header (.keyed entries .nil) =>
    if path.isEmpty then f e
    else
      let child := (entries.get? path).getD (ChildMap.fresh .innerTypes path)
      let (answer, child) := f child
      (answer, .mk header (.keyed (entries.insert path child) .nil))

end Element

/-- What a traversal does, one after the other: it hands a part at its path to the visitor, or logs
an event. -/
inductive TraceEntry
  | mapCall (part : TypeTree) (path : TypePath)
  | logged (event : Event)

def TraceEntry.event? : TraceEntry → Option Event
  | .mapCall _ _ => none
  | .logged event => some event

/-- The state of a traversal: the outermost element, the path to the current part, the state of
the visitor, and what has been done so far. -/
structure Cursor (σ : Type) where
  root : Element .type
  path : TypePath
  state : σ
  trace : List TraceEntry

namespace Cursor

variable {σ : Type}

def push (c : Cursor σ) (step : TypeStep) : Cursor σ := { c with path := c.path ++ [step] }

def pop (c : Cursor σ) : Cursor σ := { c with path := c.path.dropLast }

def truncate (c : Cursor σ) (depth : Nat) : Cursor σ :=
  { c with path := c.path.take (c.path.length - depth) }

def log (c : Cursor σ) (event : Event) : Cursor σ :=
  { c with trace := c.trace ++ [.logged event] }

def callMap (visit : TypeTree → σ → Element .type → σ × Element .type) (t : TypeTree)
    (c : Cursor σ) : Cursor σ :=
  let (state, root) := c.root.alterAtPath (visit t c.state) c.path
  { c with state, root, trace := c.trace ++ [.mapCall t c.path] }

def events (c : Cursor σ) : List Event := c.trace.filterMap TraceEntry.event?

end Cursor

mutual
/-- The loop over the layers of an array type, entered when the current part has been handed to the
visitor; `depth` counts the steps pushed on the way. The arguments of the innermost layer come
next, then all these steps are taken off at once. -/
def TypeTree.descend {σ : Type} (visit : TypeTree → σ → Element .type → σ × Element .type) :
    Nat → TypeTree → Cursor σ → Cursor σ
  | depth, .array component, c =>
    component.descend visit (depth + 1) ((c.push .array).callMap visit component)
  | depth, .named _ arguments, c =>
    (TypeTree.traverseArguments visit 0 arguments c).truncate depth
def TypeTree.traverseArguments {σ : Type}
    (visit : TypeTree → σ → Element .type → σ × Element .type) :
    Nat → List TypeTree → Cursor σ → Cursor σ
  | _, [], c => c
  | index, t :: rest, c =>
    if index < 256 then
      -- each argument has a loop of its own, from depth zero
      let c := (c.push (.argument (UInt8.ofNat index))).callMap visit t
      TypeTree.traverseArguments visit (index + 1) rest (t.descend visit 0 c).pop
    else c.log (.argumentOutOfRange index)
end

namespace TypeTree

def traverse {σ : Type} (visit : TypeTree → σ → Element .type → σ × Element .type)
    (t : TypeTree) (c : Cursor σ) : Cursor σ :=
  t.descend visit 0 (c.callMap visit t)

def start {σ : Type} (state : σ) (root : Element .type) : Cursor σ := ⟨root, [], state, []⟩

end TypeTree

end AnnotationScene
