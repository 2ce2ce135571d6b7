/-!
# Decimal integers

An integer is one or more ASCII digits, leading zeros included, after at most one sign. Blanks
and digit separators are refused, and so is a value outside the range of the type read.
-/

namespace AnnotationScene.Text

def digitsValue (s : List Char) : Nat :=
  s.foldl (fun n c => 10 * n + (c.toNat - '0'.toNat)) 0

def nat? (s : List Char) : Option Nat :=
  if !s.isEmpty && s.all Char.isDigit then some (digitsValue s) else none

/-- Only `+` may precede the digits. -/
def uint8? (s : List Char) : Option UInt8 :=
  let digits := match s with
    | '+' :: rest => rest
    | s => s
  match nat? digits with
  | some n => if n < 256 then some (UInt8.ofNat n) else none
  | none => none

def int64? (s : List Char) : Option Int64 :=
  let value := match s with
    | '-' :: rest => (nat? rest).map fun n => -(n : Int)
    | '+' :: rest => (nat? rest).map fun n => (n : Int)
    | s => (nat? s).map fun n => (n : Int)
  match value with
  | some n =>
    if Int64.minValue.toInt ≤ n && n ≤ Int64.maxValue.toInt then some (Int64.ofInt n) else none
  | none => none

end AnnotationScene.Text
