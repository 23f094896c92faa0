import Stepwise.Number.Decimal
import Stepwise.Text.Blank
import Stepwise.Text.Digit

/-!
# Reading a double from a text

The reader accepts blanks at both ends, a sign, decimal digits of any script with at most one
point and at least one digit, single underscores between digits, an exponent, and the names
`inf`, `infinity` and `nan` in any case. The information separators, although blank elsewhere,
are not skipped here.
-/

namespace Stepwise

open Text

namespace Decimal

/-- Characters skipped at both ends of a number. -/
def isPadding (c : Char) : Bool :=
  isBlank c && !decide (0x1C ≤ c.toNat ∧ c.toNat ≤ 0x1F)

/-- Removes underscores, each of which must stand between two digits. -/
def dropUnderscores (afterDigit : Bool) : List Char → Option (List Char)
  | [] => some []
  | '_' :: c :: rest =>
    if afterDigit && isDecimal c then (dropUnderscores true rest).map (c :: ·) else none
  | ['_'] => none
  | c :: rest => (dropUnderscores (isDecimal c) rest).map (c :: ·)

/-- Splits off a sign: whether it is a minus, and what follows. -/
def takeSign : List Char → Bool × List Char
  | '-' :: rest => (true, rest)
  | '+' :: rest => (false, rest)
  | rest => (false, rest)

/-- The exponent part that ends a numeral; an absent one is zero. -/
def readExponent? : List Char → Option Int
  | [] => some 0
  | c :: rest =>
    if c = 'e' ∨ c = 'E' then
      let (negative, rest) := takeSign rest
      match takeDecimals rest with
      | ([], _) => none
      | (digits, []) =>
        let n : Int := numeral digits
        some (if negative then -n else n)
      | (_, _ :: _) => none
    else none

/-- An unsigned numeral without underscores. -/
def readUnsigned? (negative : Bool) (s : List Char) : Option Decimal :=
  let (whole, rest) := takeDecimals s
  let (fraction, rest) := match rest with
    | '.' :: rest => takeDecimals rest
    | rest => ([], rest)
  if whole.isEmpty && fraction.isEmpty then none
  else (readExponent? rest).map fun exponent =>
    ⟨negative, numeral (whole ++ fraction), exponent - fraction.length⟩

end Decimal

namespace Double

/-- Reads an unpadded text without underscores. -/
def readSigned? (s : List Char) : Option Double :=
  let (negative, rest) := Decimal.takeSign s
  let name := rest.map Char.toLower
  if name = "inf".toList ∨ name = "infinity".toList then some (.infinite negative)
  else if name = "nan".toList then some .nan
  else (Decimal.readUnsigned? negative rest).map Decimal.toDouble

/-- Reads a double from a text. -/
def read? (s : List Char) : Option Double :=
  Decimal.dropUnderscores false (trimWhile Decimal.isPadding s) |>.bind readSigned?

end Double

end Stepwise
