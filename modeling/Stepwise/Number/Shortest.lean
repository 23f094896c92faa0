import Stepwise.Number.Decimal

/-!
# The shortest numeral of a double

Of the numerals that read back as a given finite double, `shortest` takes one with the fewest
digits, and of these the nearest to the double. On the grid of numerals with `count` digits it
is enough to try the nearest point and the other neighbour.
-/

namespace Stepwise.Double

/-- The number of digits before the point of a positive quotient; not positive below one tenth.
Scaling by `10 ^ 330` keeps the quotient of any nonzero double above one. -/
def pointPlace (units : Nat) : Int :=
  (Decimal.digitsOf (units * Nat.pow 10 330 / scale)).length - 330

/-- A numeral of `count` digits that reads back as the double, the nearest one first. -/
def candidate? (x : Double) (negative : Bool) (units count : Nat) : Option Decimal :=
  let grid := pointPlace units - count
  let num := if grid < 0 then units * Nat.pow 10 (-grid).toNat else units
  let den := if grid < 0 then scale else scale * Nat.pow 10 grid.toNat
  let nearest := roundHalfEven num den
  let other := if nearest = num / den then nearest + 1 else num / den
  [nearest, other].map (Decimal.mk negative · grid) |>.find? (·.toDouble = x)

/-- Every digit of a finite double. -/
def exact (negative : Bool) (units : Nat) : Decimal :=
  ⟨negative, units * Nat.pow 5 1074, -1074⟩

/-- The shortest numeral of a finite double, reduced; none for the others. -/
def shortest? (x : Double) : Option Decimal :=
  match x with
  | .finite negative mantissa exponent _ =>
    let units := mantissa * Nat.pow 2 exponent
    if units = 0 then some ⟨negative, 0, 0⟩
    else
      let found := (List.range 17).findSome? fun n => candidate? x negative units (n + 1)
      some (found.getD (exact negative units)).reduced
  | _ => none

end Stepwise.Double
