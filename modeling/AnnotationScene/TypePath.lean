import AnnotationScene.Error
import AnnotationScene.Text.Blank
import AnnotationScene.Text.Integer

/-!
# Type paths

A type path leads from a compound type to one of its parts, outermost step first. It has two
written forms: a list of integers, two for each step, and a comma separated text.
-/

namespace AnnotationScene

inductive TypeStep
  | array
  | inner
  | wildcard
  | argument (index : UInt8)
deriving DecidableEq, Repr

abbrev TypePath := List TypeStep

namespace TypeStep

/-- The kind of the step and its argument, as class files have them. -/
def toPair : TypeStep → Int32 × Int32
  | .array => (0, 0)
  | .inner => (1, 0)
  | .wildcard => (2, 0)
  | .argument index => (3, Int32.ofNat index.toNat)

def ofPair? (kind argument : Int32) : Option TypeStep :=
  if kind = 3 then
    if 0 ≤ argument.toInt ∧ argument.toInt < 256 then
      some (.argument (UInt8.ofNat argument.toInt.toNat))
    else none
  else if argument = 0 then
    if kind = 0 then some .array
    else if kind = 1 then some .inner
    else if kind = 2 then some .wildcard
    else none
  else none

def render : TypeStep → String
  | .array => "ARRAY"
  | .inner => "INNER_TYPE"
  | .wildcard => "WILDCARD"
  | .argument index => s!"TYPE_ARGUMENT({index.toNat})"

def inspect : TypeStep → String
  | .array => "ArrayElement"
  | .inner => "InnerType"
  | .wildcard => "Wildcard"
  | .argument index => s!"TypeArgument({index.toNat})"

def argumentOpening : List Char := "TYPE_ARGUMENT(".toList

def argumentIndex? (s : List Char) : Option UInt8 :=
  if argumentOpening.isPrefixOf s then
    let rest := s.drop argumentOpening.length
    if rest.getLast? = some ')' then Text.uint8? (Text.trim rest.dropLast) else none
  else none

def ofTrimmed? (s : List Char) : Option TypeStep :=
  if s = "ARRAY".toList then some .array
  else if s = "INNER_TYPE".toList then some .inner
  else if s = "WILDCARD".toList then some .wildcard
  else (argumentIndex? s).map .argument

def parse (s : List Char) : Except SceneError TypeStep :=
  let step := Text.trim s
  match ofTrimmed? step with
  | some t => .ok t
  | none => .error (.invalidTypeStep (String.ofList step))

def rank : TypeStep → Nat
  | .array => 0
  | .inner => 1
  | .wildcard => 2
  | .argument index => 3 + index.toNat

end TypeStep

namespace TypePath

def encode (path : TypePath) : List Int32 :=
  path.flatMap fun step => [step.toPair.1, step.toPair.2]

def steps? : List Int32 → Option TypePath
  | kind :: argument :: rest =>
    match TypeStep.ofPair? kind argument, steps? rest with
    | some step, some path => some (step :: path)
    | _, _ => none
  | _ => some []

def decode (encoding : List Int32) : Except SceneError TypePath :=
  if encoding.length % 2 = 1 then .error (.malformedTypePath encoding .oddLength)
  else
    match steps? encoding with
    | some path => .ok path
    | none => .error (.malformedTypePath encoding .invalidStep)

def render (path : TypePath) : String := Text.inspectList (path.map TypeStep.render)

def inspect (path : TypePath) : String := Text.inspectList (path.map TypeStep.inspect)

/-- Reads a comma separated path; a blank text is the empty path. The first ill-formed step is
the error. -/
def parse (text : String) : Except SceneError TypePath :=
  let s := Text.trim text.toList
  if s.isEmpty then .ok [] else (s.splitOn ',').mapM TypeStep.parse

end TypePath

end AnnotationScene
