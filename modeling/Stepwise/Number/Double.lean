/-!
# Binary64 numbers

A double is held by its mantissa and exponent in lowest form, so each number has one
representation, zero has its two signs, and equality is decidable. Every finite double is a
whole multiple of the least positive one, `2 ^ -1074`; `units` is that multiple. Comparison
goes through `Extent`, the number line in these units with its two ends, on which integers
stand exactly, without being rounded first.
-/

namespace Stepwise

/-- The nearest integer to a quotient; a half goes to the even neighbour. -/
def roundHalfEven (num den : Nat) : Nat :=
  if 2 * (num % den) < den ∨ (2 * (num % den) = den ∧ num / den % 2 = 0) then num / den
  else num / den + 1

/-- How many of the least positive doubles make one. -/
def Double.scale : Nat := Nat.pow 2 1074

/-- Lowest form: 53 binary digits of mantissa, or the least exponent. -/
def Double.Normal (mantissa exponent : Nat) : Prop :=
  mantissa < Nat.pow 2 53 ∧ exponent ≤ 2045 ∧ (exponent = 0 ∨ Nat.pow 2 52 ≤ mantissa)

instance (mantissa exponent : Nat) : Decidable (Double.Normal mantissa exponent) := by
  unfold Double.Normal; infer_instance

/-- A binary64 number; the finite one is `± mantissa * 2 ^ (exponent - 1074)`. -/
inductive Double
  | nan
  | infinite (negative : Bool)
  | finite (negative : Bool) (mantissa exponent : Nat)
      (normal : Double.Normal mantissa exponent)
  deriving DecidableEq

/-- A point of the number line, in multiples of the least positive double, or one of its ends. -/
inductive Extent
  | bottom
  | finite (units : Int)
  | top
  deriving DecidableEq

namespace Extent

/-- Strictly to the left on the line. -/
def less : Extent → Extent → Bool
  | .bottom, .bottom => false
  | .bottom, _ => true
  | .finite a, .finite b => decide (a < b)
  | .finite _, .top => true
  | .finite _, .bottom => false
  | .top, _ => false

/-- The place of an integer. -/
def ofInt (n : Int) : Extent := .finite (n * Double.scale)

/-- Two places are known and equal. -/
def coincide : Option Extent → Option Extent → Bool
  | some a, some b => a == b
  | _, _ => false

/-- Two places are known, and the first is to the left. -/
def precede : Option Extent → Option Extent → Bool
  | some a, some b => a.less b
  | _, _ => false

theorem coincide_comm (a b : Option Extent) : coincide a b = coincide b a := by
  cases a <;> cases b <;> simp [coincide, Bool.beq_comm]

@[simp] theorem less_irrefl (a : Extent) : a.less a = false := by
  cases a <;> simp [less]

theorem less_asymm {a b : Extent} (h : a.less b = true) : b.less a = false := by
  cases a <;> cases b <;> simp_all [less]
  omega

theorem precede_asymm {a b : Option Extent} (h : precede a b = true) :
    precede b a = false := by
  cases a <;> cases b <;> simp_all [precede]
  exact less_asymm h

end Extent

namespace Double

/-- Positive zero. -/
def zero : Double := .finite false 0 0 (by decide)

/-- The double nearest to `num / den` least units, infinite from half a step beyond the
greatest finite one; a half goes to the even mantissa. -/
def ofUnits (negative : Bool) (num den : Nat) : Double :=
  let exponent := (num / den).log2 + 1 - 53
  let mantissa := roundHalfEven num (den * Nat.pow 2 exponent)
  let (mantissa, exponent) :=
    if mantissa = Nat.pow 2 53 then (Nat.pow 2 52, exponent + 1) else (mantissa, exponent)
  if normal : Normal mantissa exponent then .finite negative mantissa exponent normal
  else .infinite negative

/-- The double nearest to an integer. -/
def ofInt : Int → Double
  | .ofNat n => ofUnits false (n * scale) 1
  | .negSucc n => ofUnits true ((n + 1) * scale) 1

/-- The double nearest to an integer, if there is a finite one. -/
def ofInt? (n : Int) : Option Double :=
  match ofInt n with
  | .infinite _ => none
  | x => some x

/-- The place on the number line; a NaN has none. -/
def extent? : Double → Option Extent
  | .nan => none
  | .infinite true => some .bottom
  | .infinite false => some .top
  | .finite negative mantissa exponent _ =>
    let units : Int := (mantissa * Nat.pow 2 exponent : Nat)
    some (.finite (if negative then -units else units))

/-- Neither infinite nor a NaN. -/
def isFinite : Double → Bool
  | .finite .. => true
  | _ => false

/-- The integer that a double equals, if it equals one. -/
def toInt? : Double → Option Int
  | .finite negative mantissa exponent _ =>
    let units := mantissa * Nat.pow 2 exponent
    if units % scale = 0 then
      let n : Int := (units / scale : Nat)
      some (if negative then -n else n)
    else none
  | _ => none

/-- Numeric order: a NaN is not below anything. -/
def less (x y : Double) : Bool := Extent.precede x.extent? y.extent?

/-- Either zero. -/
def isZero : Double → Bool
  | .finite _ mantissa _ _ => mantissa == 0
  | _ => false

theorem less_asymm {x y : Double} (h : x.less y = true) : y.less x = false :=
  Extent.precede_asymm h

end Double

end Stepwise
