import AnnotationScene.Element.Reference
import AnnotationScene.Scene

/-!
# Checking copies

A copy of a scene has to agree with it in everything but descriptions and order, also in what
sameness ignores, and may share nothing with it. The checker goes through both scenes in step and
stops at the first fault. It keeps the path to where it is on a stack: a segment is pushed before
a part is entered and popped when the part is left, with or without a fault.

Scenes live in a workspace under names. A scene owns all that is in it, so its owner and an
address tell one object from another.
-/

namespace AnnotationScene

/-- What is compared at one place of two scenes. -/
inductive Aspect
  | mapKeys
  | annotationSets
  | elementTypes
  | initializers
  | targets
  | fieldNames
  | typeTexts
  | signatures
  | returnTexts
  | typeParameters
  | classNames
  | enumConstants
  | classKinds
  | importTables
deriving DecidableEq, Repr

def Aspect.name : Aspect → String
  | .mapKeys => "map keys"
  | .annotationSets => "annotation sets"
  | .elementTypes => "element types"
  | .initializers => "initializers"
  | .targets => "unannotated types"
  | .fieldNames => "field names"
  | .typeTexts => "type mirrors"
  | .signatures => "signatures"
  | .returnTexts => "return type mirrors"
  | .typeParameters => "type parameters"
  | .classNames => "class names"
  | .enumConstants => "enum constants"
  | .classKinds => "class kinds"
  | .importTables => "import tables"

inductive CopyFault
  | shared (what : String)
  | kindMismatch (left right : String)
  | differ (aspect : Aspect)
deriving DecidableEq, Repr

def CopyFault.message : CopyFault → String
  | .shared what => what ++ " is shared between original and clone"
  | .kindMismatch left right => "element kinds differ (" ++ left ++ " vs " ++ right ++ ")"
  | .differ aspect => aspect.name ++ " differ"

structure CopyError where
  path : List String
  fault : CopyFault
deriving DecidableEq, Repr

def CopyError.place (e : CopyError) : String := "/".intercalate e.path

def CopyError.message (e : CopyError) : String :=
  "clone check failed at " ++ e.place ++ ": " ++ e.fault.message

-- ---------------------------------------------------------------------------
-- Objects
-- ---------------------------------------------------------------------------

inductive Owner
  | stored (name : String)
  | unstored
deriving DecidableEq, Repr

/-- Two references to records of one type are to the same object if these are equal. -/
structure ObjectId where
  owner : Owner
  address : Address
deriving DecidableEq

def ObjectId.child (x : ObjectId) (s : Step) : ObjectId := { x with address := x.address ++ [s] }

-- ---------------------------------------------------------------------------
-- Checks
-- ---------------------------------------------------------------------------

/-- A check is given the path of the checker, and gives its answer and the path it leaves. -/
def Check := List String → Except CopyError Unit × List String

namespace Check

def pass : Check := fun path => (.ok (), path)

def fail (fault : CopyFault) : Check := fun path => (.error ⟨path, fault⟩, path)

def andThen (first next : Check) : Check := fun path =>
  match first path with
  | (.ok (), path) => next path
  | (.error e, path) => (.error e, path)

def all (checks : List Check) : Check := checks.foldr andThen pass

def under (segment : String) (check : Check) : Check := fun path =>
  let (answer, path) := check (path ++ [segment])
  (answer, path.dropLast)

def distinct (what : String) (x y : ObjectId) : Check :=
  if x = y then fail (.shared what) else pass

def same (aspect : Aspect) (agree : Bool) : Check :=
  if agree then pass else fail (.differ aspect)

end Check

-- ---------------------------------------------------------------------------
-- Elements
-- ---------------------------------------------------------------------------

def OptionalChild.aspect : OptionalChild → Aspect
  | .type => .elementTypes
  | .init => .initializers

/-- The record of an element itself; that of a cast is not looked at. -/
def Kind.outerRecord : Kind → List String
  | .cast => []
  | k => [k.name]

/-- The records inside that of an element, from the outermost in. -/
def Kind.innerRecords : Kind → List String
  | .plain => []
  | .type => [Kind.plain.name]
  | .cast => [Kind.type.name, Kind.plain.name]
  | .declaration => [Kind.plain.name]
  | .expression => [Kind.plain.name]
  | .block => [Kind.expression.name, Kind.plain.name]
  | .field => [Kind.declaration.name, Kind.plain.name]
  | .method => [Kind.declaration.name, Kind.plain.name]
  | .classType => [Kind.declaration.name, Kind.plain.name]

def AnnotationSet.check (x y : ObjectId) (s t : AnnotationSet) : Check :=
  .all [.distinct "annotation set" x y, .same .annotationSets (AnnotationSet.same s t)]

def Detail.check : (k : Kind) → Detail k → Detail k → Check
  | .plain, _, _ => .pass
  | .type, _, _ => .pass
  | .cast, d, e => .same .targets (d.target == e.target)
  | .declaration, _, _ => .pass
  | .expression, _, _ => .pass
  | .block, _, _ => .pass
  | .field, d, e =>
    .all [.same .fieldNames (d.name == e.name), .same .typeTexts (d.typeText == e.typeText)]
  | .method, d, e =>
    .all [.same .signatures (d.signature == e.signature),
      .same .returnTexts (d.returnText == e.returnText),
      .same .typeParameters (d.typeParameters == e.typeParameters)]
  | .classType, d, e =>
    .all [.same .classNames (d.name == e.name),
      .same .enumConstants (d.enumConstants == e.enumConstants),
      .same .classKinds (d.marks == e.marks)]

def Header.check {k : Kind} (x y : ObjectId) (g h : Header k) : Check :=
  .all [.all (k.outerRecord.map fun what => .distinct what x y),
    Detail.check k g.detail h.detail,
    .all (k.innerRecords.map fun what => .distinct what x y),
    AnnotationSet.check x y g.annotations h.annotations]

mutual
/-- Any reference can be given to be compared with an element, but only one to an element of its
kind can agree with it. -/
def Element.check {k : Kind} (x y : ObjectId) : Element k → ElementRef → Check
  | .mk header parts, .element ⟨l, other⟩ =>
    if h : l = k then
      let other : Element k := h ▸ other
      (header.check x y other.header).andThen (parts.check x y other.parts)
    else .fail (.kindMismatch k.name l.name)
  | .mk _ _, .definition d => .fail (.kindMismatch k.name (ElementRef.definition d).kindName)
termination_by structural e => e
def Parts.check {layout : List Slot} (x y : ObjectId) : Parts layout → Parts layout → Check
  | .nil, .nil => .pass
  | .fixed (f := f) child more, .fixed child' more' =>
    (Check.under f.label (child.check (x.child (.fixed f)) (y.child (.fixed f))
      (.element ⟨_, child'⟩))).andThen (more.check x y more')
  | .absent more, .absent more' => more.check x y more'
  | .absent (o := o) _, .present _ _ => .fail (.differ o.aspect)
  | .present (o := o) _ _, .absent _ => .fail (.differ o.aspect)
  | .present (o := o) child more, .present child' more' =>
    (Check.under o.label (child.check (x.child (.optional o)) (y.child (.optional o))
      (.element ⟨_, child'⟩))).andThen (more.check x y more')
  | .keyed (m := m) entries more, .keyed entries' more' =>
    (Check.under m.label (.all [.distinct "map" x y,
      .same .mapKeys (entries.toMap.sameKeys entries'.toMap),
      entries.check x y entries'])).andThen (more.check x y more')
  | .contracts set more, .contracts set' more' =>
    (AnnotationSet.check x y set set').andThen (more.check x y more')
termination_by structural p => p
def Entries.check {m : ChildMap} (x y : ObjectId) : Entries m → Entries m → Check
  | .nil, _ => .pass
  | .cons key child more, other =>
    (match other.get? key with
      | some child' => Check.under (m.renderKey key) (child.check (x.child (.keyed m key))
        (y.child (.keyed m key)) (.element ⟨_, child'⟩))
      | none => .fail (.differ .mapKeys)).andThen (more.check x y other)
termination_by structural e => e
end

-- ---------------------------------------------------------------------------
-- Scenes
-- ---------------------------------------------------------------------------

namespace Scene

def copyCheck (left right : Owner) (s t : Scene) : Check :=
  let x : ObjectId := ⟨left, []⟩
  let y : ObjectId := ⟨right, []⟩
  .all [.distinct "scene" x y, s.parts.check x y t.parts, .distinct "import table" x y,
    .same .importTables (s.sameImports t)]

def checkCopy (left right : Owner) (s t : Scene) : Except CopyError (List Event) :=
  (s.copyCheck left right t []).1.map fun _ => [.copyVerified s.classes.size s.packages.size]

end Scene

/-- Scenes under names; a name that was never used stands for an empty scene. -/
structure Workspace where
  scenes : OrderedMap String Scene := .empty

namespace Workspace

def get (w : Workspace) (name : String) : Scene := (w.scenes.get? name).getD {}

def set (w : Workspace) (name : String) (s : Scene) : Workspace := ⟨w.scenes.insert name s⟩

def checkCopy (w : Workspace) (name copy : String) : Except CopyError (List Event) :=
  (w.get name).checkCopy (.stored name) (.stored copy) (w.get copy)

def copy (w : Workspace) (name target : String) : Workspace := w.set target (w.get name)

/-- Copies a scene and checks the copy against it. The copy takes the name only if it passes, which
may be the name of the scene itself. -/
def copyChecked (w : Workspace) (name target : String) :
    Except CopyError (List Event × Workspace) :=
  let after := w.copy name target
  ((w.get name).checkCopy (.stored name) .unstored (after.get target)).map fun events =>
    (events, after)

end Workspace

end AnnotationScene
