import AnnotationScene.Element.Basic

/-!
# Facets

The layout of some kinds begins with that of a simpler kind: a field, a method or a class is a
declaration with more parts, a block is an expression with locals. A facet is an element seen as
that simpler one. It shares the annotations and the parts, so a changed facet can be put back.
-/

namespace AnnotationScene

namespace Parts

def split : (front : List Slot) → {back : List Slot} → Parts (front ++ back) →
    Parts front × Parts back
  | [], _, p => (.nil, p)
  | _ :: front, _, .fixed child more => ((split front more).map (.fixed child) id)
  | _ :: front, _, .absent more => ((split front more).map .absent id)
  | _ :: front, _, .present child more => ((split front more).map (.present child) id)
  | _ :: front, _, .keyed entries more => ((split front more).map (.keyed entries) id)
  | _ :: front, _, .contracts set more => ((split front more).map (.contracts set) id)

def append {front back : List Slot} : Parts front → Parts back → Parts (front ++ back)
  | .nil, q => q
  | .fixed child more, q => .fixed child (more.append q)
  | .absent more, q => .absent (more.append q)
  | .present child more, q => .present child (more.append q)
  | .keyed entries more, q => .keyed entries (more.append q)
  | .contracts set more, q => .contracts set (more.append q)

theorem split_append {back : List Slot} : {front : List Slot} → (p : Parts front) →
    (q : Parts back) → (p.append q).split front = (p, q)
  | _, .nil, _ => rfl
  | _, .fixed _ more, q => by simp [append, split, split_append more q]
  | _, .absent more, q => by simp [append, split, split_append more q]
  | _, .present _ more, q => by simp [append, split, split_append more q]
  | _, .keyed _ more, q => by simp [append, split, split_append more q]
  | _, .contracts _ more, q => by simp [append, split, split_append more q]

theorem append_split {back : List Slot} : (front : List Slot) → (p : Parts (front ++ back)) →
    (p.split front).1.append (p.split front).2 = p
  | [], _ => rfl
  | _ :: front, .fixed _ more => by simp [append, split, append_split front more]
  | _ :: front, .absent more => by simp [append, split, append_split front more]
  | _ :: front, .present _ more => by simp [append, split, append_split front more]
  | _ :: front, .keyed _ more => by simp [append, split, append_split front more]
  | _ :: front, .contracts _ more => by simp [append, split, append_split front more]

end Parts

inductive Facet
  | declaration
  | expression
  /-- The annotations and the owned type alone. -/
  | plain
  /-- A cast without its target. -/
  | type
deriving DecidableEq, Repr

def Facet.kind : Facet → Kind
  | .declaration => .declaration
  | .expression => .expression
  | .plain => .plain
  | .type => .type

/-- The description and annotations under another detail. -/
def Header.view {k l : Kind} (h : Header k) (detail : Detail l) : Header l :=
  ⟨h.description, h.annotations, detail⟩

namespace Element

def facet? : {k : Kind} → Element k → (f : Facet) → Option (Element f.kind)
  | .field, .mk h p, .declaration => some (.mk (h.view ()) (p.split Kind.declarationLayout).1)
  | .method, .mk h p, .declaration => some (.mk (h.view ()) (p.split Kind.declarationLayout).1)
  | .classType, .mk h p, .declaration => some (.mk (h.view ()) (p.split Kind.declarationLayout).1)
  | .block, .mk h p, .expression => some (.mk (h.view h.detail) (p.split Kind.expressionLayout).1)
  | .declaration, .mk h p, .plain => some (.mk (h.view ()) (p.split Kind.plainLayout).1)
  | .expression, .mk h p, .plain => some (.mk (h.view ()) (p.split Kind.plainLayout).1)
  | .type, .mk h _, .plain => some (.mk (h.view ()) (.absent .nil))
  | .cast, .mk h p, .type => some (.mk (h.view ()) p)
  | _, _, _ => none

/-- A type element has no place for a declared type, so only the header of its plain facet comes
back. -/
def withFacet : {k : Kind} → Element k → (f : Facet) → Element f.kind → Element k
  | .field, .mk h p, .declaration, .mk g q =>
    .mk (g.view h.detail) (q.append (p.split Kind.declarationLayout).2)
  | .method, .mk h p, .declaration, .mk g q =>
    .mk (g.view h.detail) (q.append (p.split Kind.declarationLayout).2)
  | .classType, .mk h p, .declaration, .mk g q =>
    .mk (g.view h.detail) (q.append (p.split Kind.declarationLayout).2)
  | .block, .mk _ p, .expression, .mk g q =>
    .mk (g.view g.detail) (q.append (p.split Kind.expressionLayout).2)
  | .declaration, .mk h p, .plain, .mk g q =>
    .mk (g.view h.detail) (q.append (p.split Kind.plainLayout).2)
  | .expression, .mk h p, .plain, .mk g q =>
    .mk (g.view h.detail) (q.append (p.split Kind.plainLayout).2)
  | .type, .mk h p, .plain, .mk g _ => .mk (g.view h.detail) p
  | .cast, .mk h _, .type, .mk g q => .mk (g.view h.detail) q
  | _, e, _, _ => e

def facets? : List Facet → {k : Kind} → Element k → Option SomeElement
  | [], k, e => some ⟨k, e⟩
  | f :: rest, _, e => (e.facet? f).bind fun facet => facet.facets? rest

def alterFacets {α : Type} (f : (k : Kind) → Element k → α × Element k) :
    List Facet → {k : Kind} → Element k → Option α × Element k
  | [], k, e =>
    let (answer, e) := f k e
    (some answer, e)
  | first :: rest, _, e =>
    match e.facet? first with
    | none => (none, e)
    | some facet =>
      let (answer, facet) := facet.alterFacets f rest
      (answer, e.withFacet first facet)

end Element

end AnnotationScene
