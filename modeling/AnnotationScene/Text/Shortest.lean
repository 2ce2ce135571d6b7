/-!
# Shortest decimals of binary floating point numbers

A finite number is written with the fewest decimal digits that read back as the same bit pattern.
Of two such digit strings the one nearer to the number is taken, and the larger one on a tie.
All arithmetic is exact: `Interval` holds the reals that round to the number as fractions over one
denominator.
-/

namespace AnnotationScene.Text

/-- The stored bits of a binary format, the leading bit of the significand not among them. -/
structure FloatFormat where
  fractionBits : Nat
  exponentBits : Nat

def FloatFormat.single : FloatFormat := ⟨23, 8⟩

def FloatFormat.double : FloatFormat := ⟨52, 11⟩

/-- What a bit pattern stands for; a finite magnitude is `significand * 2 ^ exponent`. The gap to
the next smaller number is halved when `atPower` holds. -/
inductive FloatValue
  | nan
  | infinite (negative : Bool)
  | finite (negative : Bool) (significand : Nat) (exponent : Int) (atPower : Bool)

def FloatFormat.decode (f : FloatFormat) (bits : Nat) : FloatValue :=
  let fraction := bits % Nat.pow 2 f.fractionBits
  let exponent := bits / Nat.pow 2 f.fractionBits % Nat.pow 2 f.exponentBits
  let negative := bits / Nat.pow 2 (f.fractionBits + f.exponentBits) % 2 == 1
  let shift : Int := Nat.pow 2 (f.exponentBits - 1) - 1 + f.fractionBits
  if exponent == Nat.pow 2 f.exponentBits - 1 then
    if fraction == 0 then .infinite negative else .nan
  else if exponent == 0 then
    .finite negative fraction (1 - shift) false
  else
    .finite negative (Nat.pow 2 f.fractionBits + fraction) (exponent - shift)
      (fraction == 0 && exponent > 1)

structure Interval where
  low : Nat
  value : Nat
  high : Nat
  denominator : Nat
  closed : Bool

/-- The reals that round to `significand * 2 ^ exponent`; an even significand owns the bounds. -/
def Interval.around (significand : Nat) (exponent : Int) (atPower : Bool) : Interval :=
  let quarter := Nat.pow 2 (exponent - 2).toNat
  { low := (4 * significand - if atPower then 1 else 2) * quarter
    value := 4 * significand * quarter
    high := (4 * significand + 2) * quarter
    denominator := Nat.pow 2 (2 - exponent).toNat
    closed := significand % 2 == 0 }

/-- The interval measured in units of `10 ^ place`. -/
def Interval.inUnits (i : Interval) (place : Int) : Interval :=
  let up := Nat.pow 10 (-place).toNat
  { i with
    low := i.low * up
    value := i.value * up
    high := i.high * up
    denominator := i.denominator * Nat.pow 10 place.toNat }

def Interval.holds (i : Interval) (n : Nat) : Bool :=
  let m := n * i.denominator
  if i.closed then i.low ≤ m && m ≤ i.high else i.low < m && m < i.high

def Interval.integer? (i : Interval) : Option Nat :=
  let below := i.value / i.denominator
  match i.holds below, i.holds (below + 1) with
  | true, true =>
    if 2 * (i.value % i.denominator) < i.denominator then some below else some (below + 1)
  | true, false => some below
  | false, true => some (below + 1)
  | false, false => none

def digitCount (n : Nat) : Nat := (Nat.toDigits 10 n).length

/-- The greatest `e` with `10 ^ e` not above the value, which is positive. -/
def Interval.magnitude (i : Interval) : Int :=
  if i.denominator ≤ i.value then
    digitCount (i.value / i.denominator) - 1
  else
    -digitCount ((i.denominator + i.value - 1) / i.value - 1)

/-- `d₁.d₂d₃… * 10 ^ exponent`, with no zero at either end of the digits. -/
structure Decimal where
  digits : List Char
  exponent : Int

def Decimal.ofUnits (n : Nat) (place : Int) : Decimal :=
  let digits := Nat.toDigits 10 n
  { digits := (digits.reverse.dropWhile (· == '0')).reverse
    exponent := place + digits.length - 1 }

/-- Seventeen digits tell all numbers of the widest format apart. -/
def Interval.shortest (i : Interval) : Decimal :=
  let e := i.magnitude
  let attempt := fun (count : Nat) =>
    let place := e - count
    ((i.inUnits place).integer?).map fun n => Decimal.ofUnits n place
  ((List.range 17).findSome? attempt).getD ⟨[], 0⟩

def Decimal.positional (d : Decimal) : List Char :=
  let whole := (d.exponent + 1).toNat
  if d.exponent < 0 then
    '0' :: '.' :: List.replicate (-d.exponent - 1).toNat '0' ++ d.digits
  else if d.digits.length ≤ whole then
    d.digits ++ List.replicate (whole - d.digits.length) '0'
  else
    d.digits.take whole ++ '.' :: d.digits.drop whole

def Decimal.scientific (d : Decimal) : List Char :=
  let fraction := match d.digits.drop 1 with
    | [] => []
    | rest => '.' :: rest
  d.digits.take 1 ++ fraction ++ 'e' :: (toString d.exponent).toList

/-- The choices left open by the digits: which powers of ten are written with an exponent, and
whether a whole number ends in `.0`. -/
structure FloatStyle where
  usesExponent : Int → Bool
  keepsPoint : Bool

def FloatStyle.plain : FloatStyle := ⟨fun _ => false, false⟩

def FloatStyle.inspected : FloatStyle := ⟨fun e => e < -4 || 16 ≤ e, true⟩

def FloatStyle.magnitude (style : FloatStyle) (d : Decimal) : List Char :=
  if style.usesExponent d.exponent then d.scientific
  else
    let text := d.positional
    if style.keepsPoint && !text.contains '.' then text ++ ['.', '0'] else text

def FloatStyle.render (style : FloatStyle) : FloatValue → String
  | .nan => "NaN"
  | .infinite negative => if negative then "-inf" else "inf"
  | .finite negative significand exponent atPower =>
    let text :=
      if significand == 0 then style.magnitude ⟨['0'], 0⟩
      else style.magnitude (Interval.around significand exponent atPower).shortest
    String.ofList (if negative then '-' :: text else text)

end AnnotationScene.Text
