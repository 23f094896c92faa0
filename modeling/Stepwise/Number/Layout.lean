import Stepwise.Number.Shortest

/-!
# How a double is written

The digits of a double are fixed by `shortest?`; where the point stands, when an exponent is
written and how, and what the values that are not finite are called, is a `Layout`.
-/

namespace Stepwise

/-- The choices a format makes in writing a number. -/
structure Layout where
  /-- The least decimal exponent written without an exponent part. -/
  low : Int
  /-- The least decimal exponent from which an exponent part is written again. -/
  high : Int
  /-- Whole numbers keep a point and a zero. -/
  pointKept : Bool
  /-- The least number of digits in the exponent part. -/
  exponentWidth : Nat
  /-- Zero keeps its sign. -/
  zeroSigned : Bool
  nan : List Char
  infinite : List Char

namespace Layout

/-- Zeros in front, up to a width. -/
def padLeft (width : Nat) (digits : List Char) : List Char :=
  List.replicate (width - digits.length) '0' ++ digits

/-- Digits with the point after the first `place`, a digit on both sides of it. -/
def positional (pointKept : Bool) (digits : List Char) (place : Int) : List Char :=
  if place ≤ 0 then '0' :: '.' :: (List.replicate (-place).toNat '0' ++ digits)
  else
    let whole := digits.take place.toNat ++ List.replicate (place.toNat - digits.length) '0'
    match digits.drop place.toNat with
    | [] => if pointKept then whole ++ ['.', '0'] else whole
    | fraction => whole ++ '.' :: fraction

/-- One digit, the others after a point, and a signed exponent. -/
def scientific (width : Nat) (digits : List Char) (exponent : Int) : List Char :=
  let mantissa := match digits with
    | first :: second :: rest => first :: '.' :: second :: rest
    | digits => digits
  let sign := if exponent < 0 then '-' else '+'
  mantissa ++ 'e' :: sign :: padLeft width (Decimal.digitsOf exponent.natAbs)

/-- A numeral without its sign. -/
def magnitude (l : Layout) (d : Decimal) : List Char :=
  let digits := Decimal.digitsOf d.digits
  let place := digits.length + d.exponent
  if d.digits = 0 then positional l.pointKept ['0'] 1
  else if l.low ≤ place - 1 ∧ place - 1 < l.high then positional l.pointKept digits place
  else scientific l.exponentWidth digits (place - 1)

/-- The text of a double. -/
def write (l : Layout) (x : Double) : List Char :=
  match x with
  | .nan => l.nan
  | .infinite negative => if negative then '-' :: l.infinite else l.infinite
  | .finite negative _ _ _ =>
    match x.shortest? with
    | none => []
    | some d =>
      if negative && (l.zeroSigned || !x.isZero) then '-' :: l.magnitude d else l.magnitude d

/-- Numbers shown to people: `1.0`, `1e-05`, `1e+16`, `nan`, `inf`. -/
def plain : Layout where
  low := -4
  high := 16
  pointKept := true
  exponentWidth := 2
  zeroSigned := true
  nan := ['n', 'a', 'n']
  infinite := ['i', 'n', 'f']

/-- Numbers in JSON text, where the values that are not finite have names of their own. -/
def json : Layout :=
  { plain with nan := "NaN".toList, infinite := "Infinity".toList }

end Layout

end Stepwise
