import Stepwise.Number.Double

/-!
# Decimal numerals

A numeral is a sign, a whole number of digits and a power of ten. `toDouble` rounds it
correctly; numerals far outside the range of doubles are settled by their magnitude alone, so
no large power is ever formed.
-/

namespace Stepwise

/-- The number `± digits * 10 ^ exponent`. -/
structure Decimal where
  negative : Bool
  digits : Nat
  exponent : Int
  deriving DecidableEq

namespace Decimal

/-- The decimal digits of a number, the most significant first; zero has one. -/
def digitsOf (n : Nat) : List Char := Nat.toDigits 10 n

/-- The double nearest to a numeral. -/
def toDouble (d : Decimal) : Double :=
  if d.digits = 0 then Double.ofUnits d.negative 0 1
  else
    let magnitude : Int := (digitsOf d.digits).length + d.exponent
    if 310 < magnitude then .infinite d.negative
    else if magnitude < -400 then Double.ofUnits d.negative 0 1
    else if 0 ≤ d.exponent then
      Double.ofUnits d.negative (d.digits * Nat.pow 10 d.exponent.toNat * Double.scale) 1
    else Double.ofUnits d.negative (d.digits * Double.scale) (Nat.pow 10 (-d.exponent).toNat)

/-- Drops zeros at the right of a nonzero number, counting them; looks at most `fuel` times. -/
def stripZeros : Nat → Nat → Nat × Nat
  | 0, n => (n, 0)
  | fuel + 1, n =>
    if n ≠ 0 ∧ n % 10 = 0 then
      let (rest, count) := stripZeros fuel (n / 10)
      (rest, count + 1)
    else (n, 0)

/-- The same number with no zero at the right of its digits. -/
def reduced (d : Decimal) : Decimal :=
  let (digits, zeros) := stripZeros (digitsOf d.digits).length d.digits
  { d with digits, exponent := d.exponent + zeros }

end Decimal

end Stepwise
