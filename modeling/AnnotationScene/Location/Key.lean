import AnnotationScene.Location.Json
import AnnotationScene.Location.Order

/-!
# Kinds of keys

The maps of a scene are keyed by names, numbers, locations or paths. For each kind of key there is
its text, its inspected form, its order and its JSON form.
-/

namespace AnnotationScene

inductive KeyKind
  | name
  | number
  | bound
  | relative
  | typeIndex
  | localVariable
  | astPath
  | typePath
deriving DecidableEq, Repr

abbrev KeyKind.Key : KeyKind → Type
  | .name => String
  | .number => Int32
  | .bound => BoundLocation
  | .relative => RelativeLocation
  | .typeIndex => TypeIndexLocation
  | .localVariable => LocalLocation
  | .astPath => AstPath
  | .typePath => TypePath

instance : (κ : KeyKind) → DecidableEq κ.Key
  | .name => inferInstanceAs (DecidableEq String)
  | .number => inferInstanceAs (DecidableEq Int32)
  | .bound => inferInstanceAs (DecidableEq BoundLocation)
  | .relative => inferInstanceAs (DecidableEq RelativeLocation)
  | .typeIndex => inferInstanceAs (DecidableEq TypeIndexLocation)
  | .localVariable => inferInstanceAs (DecidableEq LocalLocation)
  | .astPath => inferInstanceAs (DecidableEq AstPath)
  | .typePath => inferInstanceAs (DecidableEq TypePath)

def KeyKind.render : (κ : KeyKind) → κ.Key → String
  | .name, key => key
  | .number, key => showInt32 key
  | .bound, key => key.render
  | .relative, key => key.render
  | .typeIndex, key => key.render
  | .localVariable, key => key.render
  | .astPath, key => key.render
  | .typePath, key => TypePath.render key

def KeyKind.inspect : (κ : KeyKind) → κ.Key → String
  | .name, key => Text.quote key
  | .number, key => showInt32 key
  | .bound, key => key.inspect
  | .relative, key => key.inspect
  | .typeIndex, key => key.inspect
  | .localVariable, key => key.inspect
  | .astPath, key => key.inspect
  | .typePath, key => TypePath.inspect key

instance : (κ : KeyKind) → Ord κ.Key
  | .name => inferInstanceAs (Ord String)
  | .number => inferInstanceAs (Ord Int32)
  | .bound => inferInstanceAs (Ord BoundLocation)
  | .relative => inferInstanceAs (Ord RelativeLocation)
  | .typeIndex => inferInstanceAs (Ord TypeIndexLocation)
  | .localVariable => inferInstanceAs (Ord LocalLocation)
  | .astPath => inferInstanceAs (Ord AstPath)
  | .typePath => inferInstanceAs (Ord (List TypeStep))

def KeyKind.toJson : (κ : KeyKind) → κ.Key → Json
  | .name, key => .ofText key
  | .number, key => .ofInt32 key
  | .bound, key => key.toJson
  | .relative, key => key.toJson
  | .typeIndex, key => key.toJson
  | .localVariable, key => key.toJson
  | .astPath, key => key.toJson
  | .typePath, key => TypePath.toJson key

end AnnotationScene
