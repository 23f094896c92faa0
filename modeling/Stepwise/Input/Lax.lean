import Stepwise.Input.Issue
import Stepwise.Number.Reading

/-!
# Lenient reading of texts

Settings and parameters come as texts. A whole number may have blanks around it, a plus sign,
underscores between its digits and zeros after a point; a truth is one of a few words in any case.
-/

namespace Stepwise.Input

/-- The texts that mean true. -/
def trueWords : List String := ["1", "on", "t", "true", "y", "yes"]

/-- The texts that mean false. -/
def falseWords : List String := ["0", "off", "f", "false", "n", "no"]

/-- Reads a truth. -/
def readBool (s : String) : Except Problem Bool :=
  let word := s.toLower
  if trueWords.contains word then .ok true
  else if falseWords.contains word then .ok false
  else .error .unreadableBool

/-- The digits without the underscores between them. -/
def joinDigits (s : List Char) : Option (List Char) :=
  if s.head? = some '_' ∨ s.getLast? = some '_' ∨ s.isEmpty then none
  else
    let parts := s.splitOn '_'
    if parts.all fun part => !part.isEmpty && part.all Char.isDigit then some parts.flatten
    else none

/-- The text before a point with nothing but zeros after it. -/
def dropZeroFraction (s : List Char) : List Char :=
  match s.dropWhile (· != '.') with
  | '.' :: zeros => if zeros.all (· == '0') then s.takeWhile (· != '.') else s
  | _ => s

/-- Reads a whole number. -/
def readInt (s : String) : Except Problem Int :=
  let body := Text.trimWhile Decimal.isPadding s.toList
  let (negative, body) := Decimal.takeSign body
  match joinDigits (dropZeroFraction body) with
  | none => .error .unreadableInt
  | some digits =>
    let n : Int := Text.numeral (digits.map fun d => d.toNat - '0'.toNat)
    .ok (if negative then -n else n)

/-- Reads a double. -/
def readDouble (s : String) : Except Problem Double :=
  if s.toList.all fun c => decide (c.toNat < 0x80) || Decimal.isPadding c then
    match Double.read? s.toList with
    | some x => .ok x
    | none => .error .unreadableDouble
  else .error .unreadableDouble

/-- A whole number that is not too small. -/
def atLeast (least n : Int) : Except Problem Int :=
  if least ≤ n then .ok n else .error (.below least)

/-- A whole number that is not too great. -/
def atMost (greatest n : Int) : Except Problem Int :=
  if n ≤ greatest then .ok n else .error (.above greatest)

end Stepwise.Input
