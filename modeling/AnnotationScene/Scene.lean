import AnnotationScene.Element.Address
import AnnotationScene.Element.Same
import AnnotationScene.Element.Walk

/-!
# Scenes

A scene holds the elements of a program that annotations may sit on, from its packages and classes
down, and the imports that the annotations need. Imports do not count when scenes are compared or
pruned.
-/

namespace AnnotationScene

structure Scene where
  packages : Entries .packages := .nil
  classes : Entries .classes := .nil
  /-- The packages from which each annotation type is imported. -/
  imports : OrderedMap String (List String) := .empty

namespace Scene

abbrev layout : List Slot := [.keyed .packages, .keyed .classes]

def parts (s : Scene) : Parts layout := .keyed s.packages (.keyed s.classes .nil)

def withParts (s : Scene) : Parts layout → Scene
  | .keyed packages (.keyed classes .nil) => { s with packages, classes }

def addImport (s : Scene) (annotationName package : String) : Scene :=
  let imports := s.imports.vivify (fun _ => []) annotationName
  { s with imports := imports.update annotationName (NameSet.insert package) }

def sameImports (s t : Scene) : Bool := OrderedMap.same (· == ·) s.imports t.imports

def isEmpty (s : Scene) : Bool := s.packages.isVacuous && s.classes.isVacuous

def prune (s : Scene) : Scene :=
  { s with packages := s.packages.prune, classes := s.classes.prune }

def pruneEvents (s : Scene) : List Event :=
  s.packages.pruneEvents ++ s.classes.pruneEvents ++
    [.prunedScene s.classes.size s.prune.classes.size]

/-- Both at once; each part is pruned once. -/
def pruneReport (s : Scene) : { r : Scene × List Event // r = (s.prune, s.pruneEvents) } :=
  let ⟨(packages, first), hp⟩ := s.packages.pruneReport
  let ⟨(classes, second), hc⟩ := s.classes.pruneReport
  ⟨({ s with packages, classes },
      first ++ second ++ [.prunedScene s.classes.size classes.size]), by
    obtain ⟨rfl, rfl⟩ := Prod.mk.inj hp
    obtain ⟨rfl, rfl⟩ := Prod.mk.inj hc
    rfl⟩

def same (s t : Scene) : Bool := s.packages.same t.packages && s.classes.same t.classes

def walk (s : Scene) : List SomeElement := s.packages.walk ++ s.classes.walk

def gather (s : Scene) : List Annotation := s.packages.gather ++ s.classes.gather

def importLine (entry : String × List String) : String :=
  "import " ++ entry.1 ++ " from " ++ Text.commas entry.2 ++ "\n"

def render (s : Scene) : String :=
  String.join (s.imports.entries.map importLine) ++
    String.join (s.packages.dump 0 ++ s.classes.dump 0)

/-- What appears at a step from the scene. Only its two maps lack entries. -/
def fresh : (s : Step) → Element s.kind
  | .fixed f => f.fresh ""
  | .optional _ => .ofName _ ""
  | .keyed m key => m.fresh key

def find? (s : Scene) : Address → Option SomeElement
  | [] => none
  | first :: rest => (s.parts.child? first).bind fun child => child.find? rest

/-- The scene itself is at the empty address, and no element to change. -/
def alter {α : Type} (d : Descent) (f : (k : Kind) → Element k → α × Element k)
    (address : Address) (s : Scene) : Option α × Scene :=
  match address with
  | [] => (none, s)
  | first :: rest =>
    let (answer, parts) := s.parts.descend d fresh first fun child => child.alter d f rest
    (answer, s.withParts parts)

/-- A map of the scene, at the empty address, or of the element there. -/
def map? (s : Scene) (m : ChildMap) : Address → Option (Entries m)
  | [] => s.parts.slot? (.keyed m)
  | address => (s.find? address).bind fun e => e.2.parts.slot? (.keyed m)

end Scene

def Parts.alterMap {layout : List Slot} {α : Type} (m : ChildMap)
    (f : Entries m → α × Entries m) (p : Parts layout) : Option α × Parts layout :=
  match p.slot? (.keyed m) with
  | none => (none, p)
  | some entries =>
    let (answer, entries) := f entries
    (some answer, p.setSlot (.keyed m) entries)

namespace Scene

def alterMap {α : Type} (d : Descent) (m : ChildMap) (f : Entries m → α × Entries m)
    (address : Address) (s : Scene) : Option α × Scene :=
  match address with
  | [] =>
    let (answer, parts) := s.parts.alterMap m f
    (answer, s.withParts parts)
  | address =>
    let change := fun (_ : Kind) e =>
      let (answer, parts) := (Element.parts e).alterMap m f
      (answer, e.withParts parts)
    let (answer, s) := s.alter d change address
    (answer.join, s)

end Scene

end AnnotationScene
