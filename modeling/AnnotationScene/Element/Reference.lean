import AnnotationScene.Element.Walk

/-!
# References

What can be visited is an element or the definition of an annotation type. A definition is outside
the nine kinds of elements: no element owns it, it owns none, and it is never vacuous.
-/

namespace AnnotationScene

inductive ElementRef
  | element (e : SomeElement)
  | definition (d : Definition)

namespace ElementRef

def kindName : ElementRef → String
  | .element e => e.1.name
  | .definition _ => "annotation definition"

def description : ElementRef → String
  | .element e => e.2.description
  | .definition d => d.name

def annotations : ElementRef → AnnotationSet
  | .element e => e.2.annotations
  | .definition d => d.metas

def isVacuous : ElementRef → Bool
  | .element e => e.2.isVacuous
  | .definition _ => false

def children : ElementRef → List ElementRef
  | .element e => e.2.children.map .element
  | .definition _ => []

def visitorName : ElementRef → String
  | .element e =>
    "visit_" ++ String.ofList (e.1.name.toList.map fun c => if c = ' ' then '_' else c)
  | .definition _ => "visit_annotation_def"

end ElementRef

end AnnotationScene
