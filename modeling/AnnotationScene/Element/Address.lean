import AnnotationScene.Element.Fresh

/-!
# Addresses

A step leads from an element to one of its children: a fixed one, an optional one, or the entry of
a map. An address is a list of steps. Reading follows it as far as there are children; `alter`
changes the element at its end and may create what is missing on the way.
-/

namespace AnnotationScene

inductive Step
  | fixed (child : FixedChild)
  | optional (child : OptionalChild)
  | keyed (map : ChildMap) (key : map.Key)
deriving DecidableEq

abbrev Address := List Step

namespace Step

def kind : Step → Kind
  | .fixed f => f.kind
  | .optional o => o.kind
  | .keyed m _ => m.kind

def slot : Step → Slot
  | .fixed f => .fixed f
  | .optional o => .optional o
  | .keyed m _ => .keyed m

def pick? : (s : Step) → s.slot.Content → Option (Element s.kind)
  | .fixed _, child => some child
  | .optional _, child => child
  | .keyed _ key, entries => entries.get? key

def put : (s : Step) → Element s.kind → s.slot.Content → s.slot.Content
  | .fixed _, child, _ => child
  | .optional _, child, _ => some child
  | .keyed _ key, child, entries => entries.insert key child

end Step

/-- The name by which descriptions of children call their owner. -/
def Header.name : {k : Kind} → Header k → String
  | .field, h => h.detail.name
  | .method, h => h.detail.signature
  | .classType, h => h.detail.name
  | _, h => h.description

def Header.fresh {k : Kind} (h : Header k) : (s : Step) → Element s.kind
  | .fixed f => f.fresh h.name
  | .optional .type => .type ("type of " ++ h.description)
  | .optional .init => .expression ("initializer of " ++ h.name)
  | .keyed m key => m.fresh key

def Parts.child? {layout : List Slot} (p : Parts layout) (s : Step) : Option (Element s.kind) :=
  (p.slot? s.slot).bind s.pick?

/-- What a descent does where a child is missing: create it, or turn back. A descent that edits
creates only the element of a type. -/
inductive Descent
  | vivify
  | edit
deriving DecidableEq, Repr

def Descent.creates : Descent → Step → Bool
  | .vivify, _ => true
  | .edit, .optional .type => true
  | .edit, _ => false

/-- Goes one step down, changes the child by `f` and puts it back. No answer means that there was
nothing to change. -/
def Parts.descend {layout : List Slot} {α : Type} (d : Descent)
    (fresh : (s : Step) → Element s.kind) (p : Parts layout) (s : Step)
    (f : Element s.kind → Option α × Element s.kind) : Option α × Parts layout :=
  match p.slot? s.slot with
  | none => (none, p)
  | some content =>
    match s.pick? content with
    | some child =>
      let (answer, child) := f child
      (answer, p.setSlot s.slot (s.put child content))
    | none =>
      if d.creates s then
        let (answer, child) := f (fresh s)
        (answer, p.setSlot s.slot (s.put child content))
      else (none, p)

namespace Element

def find? : Address → {k : Kind} → Element k → Option SomeElement
  | [], k, e => some ⟨k, e⟩
  | s :: rest, _, e => (e.parts.child? s).bind fun child => child.find? rest

def alter {α : Type} (d : Descent) (f : (k : Kind) → Element k → α × Element k) :
    Address → {k : Kind} → Element k → Option α × Element k
  | [], k, e =>
    let (answer, e) := f k e
    (some answer, e)
  | s :: rest, _, .mk header parts =>
    let (answer, parts) := parts.descend d header.fresh s fun child => child.alter d f rest
    (answer, .mk header parts)

end Element

end AnnotationScene
