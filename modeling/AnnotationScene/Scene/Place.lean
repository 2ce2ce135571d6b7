import AnnotationScene.Element.Facet
import AnnotationScene.Scene

/-!
# Places in a scene

A place is an element by its address, seen under some of its facets.
-/

namespace AnnotationScene

structure Place where
  address : Address := []
  facets : List Facet := []

namespace Place

/-- Facets share their parts with the element, so a step from a facet is one from the element. -/
def step (p : Place) (s : Step) : Place := ⟨p.address ++ [s], []⟩

def facet (p : Place) (f : Facet) : Place := { p with facets := p.facets ++ [f] }

/-- The place of a path into the type at a place; the empty path stays there. -/
def atPath (p : Place) (path : TypePath) : Place :=
  if path.isEmpty then p else p.step (.keyed .innerTypes path)

def kind? (p : Place) : Option Kind :=
  match p.facets.getLast? with
  | some f => some f.kind
  | none => p.address.getLast?.map Step.kind

end Place

namespace Scene

def at? (s : Scene) (p : Place) : Option SomeElement :=
  (s.find? p.address).bind fun e => e.2.facets? p.facets

def change {α : Type} (d : Descent) (f : (k : Kind) → Element k → α × Element k) (p : Place)
    (s : Scene) : Option α × Scene :=
  let (answer, s) := s.alter d (fun _ e => e.alterFacets f p.facets) p.address
  (answer.join, s)

end Scene

end AnnotationScene
