import AnnotationScene.Annotation.Set
import AnnotationScene.Element.Basic

/-!
# Sameness of elements

Elements are compared by what they are called, by their annotations and by what they own, each map
in any order. Descriptions and the data that is only learned once do not matter.
-/

namespace AnnotationScene

/-- The part of the detail by which an element is called. -/
def Detail.same : (k : Kind) → Detail k → Detail k → Bool
  | .plain, _, _ => true
  | .type, _, _ => true
  | .cast, d, e => d.target == e.target
  | .declaration, _, _ => true
  | .expression, _, _ => true
  | .block, _, _ => true
  | .field, d, e => d.name == e.name
  | .method, d, e => d.signature == e.signature
  | .classType, d, e => d.name == e.name

def Header.same {k : Kind} (g h : Header k) : Bool :=
  Detail.same k g.detail h.detail && AnnotationSet.same g.annotations h.annotations

mutual
def Element.same {k : Kind} : Element k → Element k → Bool
  | .mk header parts, .mk header' parts' => header.same header' && parts.same parts'
termination_by structural e => e
def Parts.same {layout : List Slot} : Parts layout → Parts layout → Bool
  | .nil, .nil => true
  | .fixed child more, .fixed child' more' => child.same child' && more.same more'
  | .absent more, .absent more' => more.same more'
  | .absent _, .present _ _ => false
  | .present _ _, .absent _ => false
  | .present child more, .present child' more' => child.same child' && more.same more'
  | .keyed entries more, .keyed entries' more' =>
    entries.size == entries'.size && entries.within entries' && more.same more'
  | .contracts set more, .contracts set' more' => AnnotationSet.same set set' && more.same more'
termination_by structural p => p
def Entries.within {m : ChildMap} : Entries m → Entries m → Bool
  | .nil, _ => true
  | .cons key child more, other =>
    (match other.get? key with
      | some child' => child.same child'
      | none => false) && more.within other
termination_by structural e => e
end

def Entries.same {m : ChildMap} (e f : Entries m) : Bool := e.size == f.size && e.within f

end AnnotationScene
