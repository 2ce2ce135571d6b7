import AnnotationScene.Element.Basic

/-!
# Fresh elements

An element that was only just named: no annotations, empty maps, and a description made from the
key under which it was named. Fields, parameters and locals come with the element of their type.
-/

namespace AnnotationScene

namespace Element

def plain (description : String) : Element .plain := .mk ⟨description, [], ()⟩ (.absent .nil)

def type (description : String) : Element .type := .mk ⟨description, [], ()⟩ (.keyed .nil .nil)

def cast (description : String) : Element .cast := .mk ⟨description, [], {}⟩ (.keyed .nil .nil)

def declaration (description : String) : Element .declaration :=
  .mk ⟨description, [], ()⟩ (.absent (.keyed .nil (.keyed .nil .nil)))

def expression (id : String) : Element .expression :=
  .mk ⟨"expression " ++ id, [], ⟨id⟩⟩
    (.absent (.keyed .nil (.keyed .nil (.keyed .nil (.keyed .nil (.keyed .nil (.keyed .nil
      .nil)))))))

def block (id : String) : Element .block :=
  .mk ⟨"expression " ++ id, [], ⟨id⟩⟩
    (.absent (.keyed .nil (.keyed .nil (.keyed .nil (.keyed .nil (.keyed .nil (.keyed .nil
      (.keyed .nil .nil))))))))

def declaredField (name description : String) : Element .field :=
  .mk ⟨description, [], { name }⟩
    (.present (type ("type of " ++ description)) (.keyed .nil (.keyed .nil (.absent .nil))))

def field (name : String) : Element .field := declaredField name ("field " ++ name)

def parameter (index : Int32) : Element .field :=
  declaredField (showInt32 index) ("parameter " ++ showInt32 index)

/-- A local variable is called by its name in the source, or else by its slot. -/
def localVariable (loc : LocalLocation) : Element .field :=
  let name := match loc.variableName with
    | some name => name
    | none => showInt32 (loc.slot?.getD (-1))
  declaredField name ("local " ++ loc.render)

end Element

def FixedChild.fresh (signature : String) : (f : FixedChild) → Element f.kind
  | .returnType => .type ("return type of " ++ signature)
  | .receiver => .field "this"
  | .body => .block signature

def Parts.fresh (signature : String) : (layout : List Slot) → Parts layout
  | [] => .nil
  | .fixed f :: rest => .fixed (f.fresh signature) (fresh signature rest)
  | .optional _ :: rest => .absent (fresh signature rest)
  | .keyed _ :: rest => .keyed .nil (fresh signature rest)
  | .contracts :: rest => .contracts [] (fresh signature rest)

namespace Element

def method (signature : String) : Element .method :=
  .mk ⟨"method " ++ signature, [], { signature }⟩ (.fresh signature _)

def classType (name : String) : Element .classType :=
  .mk ⟨"class " ++ name, [], { name }⟩ (.fresh name _)

def ofName : (k : Kind) → String → Element k
  | .plain => plain
  | .type => type
  | .cast => cast
  | .declaration => declaration
  | .expression => expression
  | .block => block
  | .field => field
  | .method => method
  | .classType => classType

end Element

def ChildMap.fresh : (m : ChildMap) → m.Key → Element m.kind
  | .packages, name => .plain ("package " ++ name)
  | .classes, name => .classType name
  | .innerTypes, path => .type ("inner type " ++ TypePath.render path)
  | .insertAnnotations, path => .type ("insert annotation at " ++ path.render)
  | .insertTypecasts, path => .cast ("insert typecast at " ++ path.render)
  | .typecasts, loc => .type ("typecast " ++ loc.render)
  | .instanceofs, loc => .type ("instanceof " ++ loc.render)
  | .news, loc => .type ("new " ++ loc.render)
  | .calls, loc => .type ("call " ++ loc.render)
  | .references, loc => .type ("reference " ++ loc.render)
  | .lambdas, loc => .method ("lambda" ++ loc.render)
  | .locals, loc => .localVariable loc
  | .bounds, loc => .type loc.render
  | .supertypes, loc => .type ("extends/implements " ++ loc.render)
  | .methods, signature => .method signature
  | .staticInits, index => .block ("static init " ++ showInt32 index)
  | .instanceInits, index => .block ("instance init " ++ showInt32 index)
  | .fields, name => .field name
  | .fieldInits, name => .expression ("init of " ++ name)
  | .parameters, index => .parameter index
  | .throws, loc => .type ("throws " ++ loc.render)
  | .preconditions, text => .field text
  | .postconditions, text => .field text

end AnnotationScene
