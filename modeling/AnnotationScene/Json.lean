/-!
# JSON values

The values of JSON text as far as reading them tells them apart. An integer is a number written
with neither fraction nor exponent, and minus zero is none. A text with an unpaired surrogate
among its escapes has no content.
-/

namespace AnnotationScene

inductive Json
  | null
  | bool (value : Bool)
  | int (value : Int)
  | real (literal : String)
  | text (content : Option String)
  | list (items : List Json)
  | object (fields : List (Option String × Json))

namespace Json

def ofText (s : String) : Json := .text (some s)

def ofInt32 (n : Int32) : Json := .int n.toInt

def ofOption {α : Type} (encode : α → Json) : Option α → Json
  | some a => encode a
  | none => .null

def ofFields (fields : List (String × Json)) : Json :=
  .object (fields.map fun (name, value) => (some name, value))

def bool? : Json → Option Bool
  | .bool b => some b
  | _ => none

def int? : Json → Option Int
  | .int n => some n
  | _ => none

def int32? (j : Json) : Option Int32 :=
  j.int?.bind fun n =>
    if Int32.minValue.toInt ≤ n ∧ n ≤ Int32.maxValue.toInt then some (Int32.ofInt n) else none

def uint32? (j : Json) : Option UInt32 :=
  j.int?.bind fun n => if 0 ≤ n ∧ n < UInt32.size then some (UInt32.ofNat n.toNat) else none

def uint8? (j : Json) : Option UInt8 :=
  j.int?.bind fun n => if 0 ≤ n ∧ n < UInt8.size then some (UInt8.ofNat n.toNat) else none

def string? : Json → Option String
  | .text content => content
  | _ => none

def list? {α : Type} (decode : Json → Option α) : Json → Option (List α)
  | .list items => items.mapM decode
  | _ => none

def option? {α : Type} (decode : Json → Option α) : Json → Option (Option α)
  | .null => some none
  | j => (decode j).map some

def occurrences (fields : List (Option String × Json)) (name : String) : Nat :=
  fields.countP fun f => f.1 = some name

def field? (fields : List (Option String × Json)) (name : String) : Option Json :=
  (fields.find? fun f => f.1 = some name).map (·.2)

/-- The values of a record with the given field names, each absent one `none`. A record is an
object, in which no name may repeat and other keys are ignored, or the list of all its values. -/
def record? (names : List String) : Json → Option (List (Option Json))
  | .list items => if items.length = names.length then some (items.map some) else none
  | .object fields =>
    if fields.all (fun f => f.1.isSome) && names.all (fun n => occurrences fields n ≤ 1) then
      some (names.map (field? fields))
    else none
  | _ => none

end Json

end AnnotationScene
