import AnnotationScene.Annotation.Text
import AnnotationScene.Element.Prune

/-!
# Walking an element

A walk meets an element before its children, and the children slot by slot in the visiting order
of the kind, each map in its own order. Three functions follow it: `walk` lists the elements,
`gather` the annotations at them, and `dump` writes one line for each element that is not vacuous.
-/

namespace AnnotationScene

def Parts.children {layout : List Slot} : Parts layout → List (List SomeElement)
  | .nil => []
  | .fixed child more => [⟨_, child⟩] :: more.children
  | .absent more => [] :: more.children
  | .present child more => [⟨_, child⟩] :: more.children
  | .keyed entries more => entries.values.map (fun child => ⟨_, child⟩) :: more.children
  | .contracts _ more => [] :: more.children

def Element.children {k : Kind} (e : Element k) : List SomeElement :=
  (k.visitOrder e.parts.children).flatten

mutual
def Element.walk {k : Kind} : Element k → List SomeElement
  | .mk header parts => ⟨k, .mk header parts⟩ :: (k.visitOrder parts.walks).flatten
def Parts.walks {layout : List Slot} : Parts layout → List (List SomeElement)
  | .nil => []
  | .fixed child more => child.walk :: more.walks
  | .absent more => [] :: more.walks
  | .present child more => child.walk :: more.walks
  | .keyed entries more => entries.walk :: more.walks
  | .contracts _ more => [] :: more.walks
def Entries.walk {m : ChildMap} : Entries m → List SomeElement
  | .nil => []
  | .cons _ child more => child.walk ++ more.walk
end

mutual
def Element.gather {k : Kind} : Element k → List Annotation
  | .mk header parts =>
    header.annotations ++ parts.contractSet ++ (k.visitOrder parts.gathers).flatten
def Parts.gathers {layout : List Slot} : Parts layout → List (List Annotation)
  | .nil => []
  | .fixed child more => child.gather :: more.gathers
  | .absent more => [] :: more.gathers
  | .present child more => child.gather :: more.gathers
  | .keyed entries more => entries.gather :: more.gathers
  | .contracts _ more => [] :: more.gathers
def Entries.gather {m : ChildMap} : Entries m → List Annotation
  | .nil => []
  | .cons _ child more => child.gather ++ more.gather
end

def dumpLine (depth : Nat) (description : String) (attached : List Annotation) : String :=
  String.ofList (List.replicate (2 * depth) ' ') ++ description ++ ":" ++
    String.join (attached.map fun a => " " ++ a.render) ++ "\n"

mutual
def Element.dump {k : Kind} (depth : Nat) : Element k → List String
  | .mk header parts =>
    if header.isVacuous && parts.isVacuous then []
    else
      dumpLine depth header.description (header.annotations ++ parts.contractSet) ::
        (k.visitOrder (parts.dumps (depth + 1))).flatten
def Parts.dumps {layout : List Slot} (depth : Nat) : Parts layout → List (List String)
  | .nil => []
  | .fixed child more => child.dump depth :: more.dumps depth
  | .absent more => [] :: more.dumps depth
  | .present child more => child.dump depth :: more.dumps depth
  | .keyed entries more => entries.dump depth :: more.dumps depth
  | .contracts _ more => [] :: more.dumps depth
def Entries.dump {m : ChildMap} (depth : Nat) : Entries m → List String
  | .nil => []
  | .cons _ child more => child.dump depth ++ more.dump depth
end

end AnnotationScene
