import AnnotationScene.Annotation.Text
import AnnotationScene.Element.Basic

/-!
# Inspected type elements

A type element with all its parts spelled out. It owns inner types only, never the type of a
declaration, and its inner types are type elements again.
-/

namespace AnnotationScene

def Header.inspect {k : Kind} (h : Header k) : String :=
  Text.inspectRecord "AElement"
    [("tlannotations", Text.inspectSet (h.annotations.map Annotation.inspect)), ("ty", "None"),
      ("description", Text.quote h.description)]

mutual
def Element.inspectTree {k : Kind} : Element k → String
  | .mk header parts =>
    Text.inspectRecord "ATypeElement"
      [("element", header.inspect), ("inner_types", Text.inspectTable parts.inspectInner)]
/-- The entries of the first map. -/
def Parts.inspectInner {layout : List Slot} : Parts layout → List (String × String)
  | .nil => []
  | .fixed _ more => more.inspectInner
  | .absent more => more.inspectInner
  | .present _ more => more.inspectInner
  | .keyed entries _ => entries.inspectEntries
  | .contracts _ more => more.inspectInner
def Entries.inspectEntries {m : ChildMap} : Entries m → List (String × String)
  | .nil => []
  | .cons key child more => (m.keyKind.inspect key, child.inspectTree) :: more.inspectEntries
end

def Element.inspect (e : Element .type) : String := e.inspectTree

end AnnotationScene
