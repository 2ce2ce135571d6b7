import AnnotationScene.Annotation.Set
import AnnotationScene.Element.Fresh
import AnnotationScene.Text.Integer

/-!
# Changing elements

Annotations are added and removed one at a time. What is learned about a field, a method or a
class is set once; a field may take a new name as long as its name is a mere number. Such a change
is first tried, which also tells what is there after a refusal.
-/

namespace AnnotationScene

namespace Element

variable {k : Kind}

def withAnnotations (e : Element k) (annotations : AnnotationSet) : Element k :=
  e.withHeader { e.header with annotations }

/-- Whether the annotation was new, and the element with it. -/
def annotate (e : Element k) (a : Annotation) : Bool × Element k :=
  let (added, set) := AnnotationSet.insert e.annotations a
  (added, e.withAnnotations set)

def unannotate (e : Element k) (a : Annotation) : Bool × Element k :=
  let (removed, set) := AnnotationSet.erase e.annotations a
  (removed, e.withAnnotations set)

def withContracts (e : Element k) (set : AnnotationSet) : Element k :=
  e.withParts (e.parts.setSlot .contracts set)

def contract (e : Element k) (a : Annotation) : Bool × Element k :=
  let (added, set) := AnnotationSet.insert e.contracts a
  (added, e.withContracts set)

def uncontract (e : Element k) (a : Annotation) : Bool × Element k :=
  let (removed, set) := AnnotationSet.erase e.contracts a
  (removed, e.withContracts set)

/-! ### Fields -/

def fieldName (e : Element .field) : String := e.detail.name

/-- Parameters and locals are numbered until their name is known. -/
def hasPlaceholderName (e : Element .field) : Bool :=
  (Text.int64? e.fieldName.toList).isSome

def tryFieldName (e : Element .field) (name : String) : Attempt (Element .field) :=
  if name = e.fieldName then ⟨.ok (), e⟩
  else if e.hasPlaceholderName then ⟨.ok (), e.withDetail { e.detail with name }⟩
  else ⟨.error (.rename e.fieldName name), e⟩

def tryTypeText (e : Element .field) (text : Option String) : Attempt (Element .field) :=
  (tryOnce (· == ·) Text.quote "field type mirror" e.detail.typeText text).map fun typeText =>
    e.withDetail { e.detail with typeText }

def declaredType? (e : Element .field) : Option (Element .type) :=
  (e.parts.slot? (.optional .type)).join

def initializer? (e : Element .field) : Option (Element .expression) :=
  (e.parts.slot? (.optional .init)).join

def dropInitializer (e : Element .field) : Element .field :=
  e.withParts (e.parts.setSlot (.optional .init) none)

def resetDeclaration (e : Element .field) (description : String) : Element .field :=
  let parts := ((e.parts.setSlot (.optional .type) none).setSlot (.keyed .insertAnnotations) .nil)
  .mk { e.header with description, annotations := [] }
    (parts.setSlot (.keyed .insertTypecasts) .nil)

/-! ### Methods -/

def signature (e : Element .method) : String := e.detail.signature

def methodName (e : Element .method) : String :=
  String.ofList (e.signature.toList.takeWhile (· != '('))

def tryReturnText (e : Element .method) (text : Option String) : Attempt (Element .method) :=
  (tryOnce (· == ·) Text.quote "return type mirror" e.detail.returnText text).map fun returnText =>
    e.withDetail { e.detail with returnText }

def tryTypeParameters (e : Element .method) (parameters : Option (List String)) :
    Attempt (Element .method) :=
  (tryOnce (· == ·) Text.inspectTexts "type parameters" e.detail.typeParameters parameters).map
    fun typeParameters => e.withDetail { e.detail with typeParameters }

/-! ### Casts and expressions -/

def setTarget (e : Element .cast) (target : String) : Element .cast :=
  e.withDetail ⟨some target⟩

def setId (e : Element .expression) (id : String) : Element .expression := e.withDetail ⟨id⟩

end Element

/-- Annotates the children under the wanted keys, and says for each whether that was new. -/
def Entries.annotateWhere {m : ChildMap} (wanted : m.Key → Bool) (a : Annotation) :
    Entries m → List (m.Key × Bool) × Entries m
  | .nil => ([], .nil)
  | .cons key child more =>
    let (answers, more) := more.annotateWhere wanted a
    if wanted key then
      let (added, child) := child.annotate a
      ((key, added) :: answers, .cons key child more)
    else (answers, .cons key child more)

/-- The longest end of a class name without a dot or a dollar sign. -/
def simpleName (className : String) : String :=
  String.ofList (className.toList.reverse.takeWhile fun c => c != '.' && c != '$').reverse

namespace ClassMarks

def names (marks : ClassMarks) : ClassKind → List String
  | .enum => marks.enums
  | .interface => marks.interfaces
  | .annotationType => marks.annotationTypes
  | .record => marks.records

def mark (marks : ClassMarks) (kind : ClassKind) (className : String) : ClassMarks :=
  let names := NameSet.insert (simpleName className) (marks.names kind)
  match kind with
  | .enum => { marks with enums := names }
  | .interface => { marks with interfaces := names }
  | .annotationType => { marks with annotationTypes := names }
  | .record => { marks with records := names }

theorem names_mark (marks : ClassMarks) (kind other : ClassKind) (className : String) :
    (marks.mark kind className).names other =
      if other = kind then NameSet.insert (simpleName className) (marks.names other)
      else marks.names other := by
  cases kind <;> cases other <;> rfl

end ClassMarks

namespace Element

/-! ### Classes -/

def className (e : Element .classType) : String := e.detail.name

/-- Classes are told apart by simple name, since an outer class may be known by name only. -/
def markAs (e : Element .classType) (kind : ClassKind) (className : String) :
    Element .classType :=
  e.withDetail { e.detail with marks := e.detail.marks.mark kind className }

def isKind (e : Element .classType) (kind : ClassKind) (className : String) : Bool :=
  (e.detail.marks.names kind).contains (simpleName className)

def tryEnumConstants (e : Element .classType) (constants : List String) :
    Attempt (Element .classType) :=
  ((tryOnce (· == ·) Text.inspectTexts "enum constants" e.detail.enumConstants
    (some constants)).map fun enumConstants =>
      e.withDetail { e.detail with enumConstants }).andThen fun e => e.markAs .enum e.className

end Element

end AnnotationScene
