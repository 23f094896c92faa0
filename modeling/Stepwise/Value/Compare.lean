import Stepwise.Fault

/-!
# Comparing values

Numbers are equal by their exact numeric value, whatever their sort; a boolean counts as zero or
one. Lists are equal item by item, objects field by field in any order. An order exists between
numbers, between texts (by code point) and between lists, which are ordered by the first items
that differ and then by length; between other values it is a fault. A NaN is equal to nothing; but
inside lists and objects a thing is taken for itself before it is compared, and since JSON text is
read to one NaN, a NaN is taken for a NaN there.
-/

namespace Stepwise.Value

/-- The place of a numeric value on the number line. -/
def extent? : Value → Option Extent
  | .bool b => some (.ofInt b.toInt)
  | .int n => some (.ofInt n)
  | .double x => x.extent?
  | _ => none

/-- A boolean, a whole number or a double. -/
def isNumeric (value : Value) : Bool :=
  value.kind = .bool || value.kind = .int || value.kind = .double

/-- The number that is none. -/
def isNan : Value → Bool
  | .double .nan => true
  | _ => false

mutual

/-- Equality of values. -/
def equal : Value → Value → Bool
  | .null, .null => true
  | .text s, .text t => s == t
  | .list items, .list others => equalItems items others
  | .object fields, .object others =>
    fields.length == others.length && equalFields fields others
  | a, b => Extent.coincide a.extent? b.extent?

/-- Equality of lists item by item. -/
def equalItems : List Value → List Value → Bool
  | [], [] => true
  | a :: rest, b :: others => (a.isNan && b.isNan || equal a b) && equalItems rest others
  | _, _ => false

/-- Each of the fields has an equal field among the others. -/
def equalFields : List (Key × Value) → Fields → Bool
  | [], _ => true
  | (key, a) :: rest, others =>
    (match Fields.get? others key with
      | some b => a.isNan && b.isNan || equal a b
      | none => false) && equalFields rest others

end

/-- Inside lists and objects: both NaN, or equal. -/
def alike (a b : Value) : Bool := a.isNan && b.isNan || equal a b

mutual

/-- Whether the first value comes after the second, or before it. -/
def ordered (greater : Bool) : Value → Value → Except Fault Bool
  | .text s, .text t => .ok (if greater then t < s else s < t)
  | .list items, .list others => orderedItems greater items others
  | a, b =>
    if a.isNumeric && b.isNumeric then
      .ok (if greater then Extent.precede b.extent? a.extent?
        else Extent.precede a.extent? b.extent?)
    else .error (.incomparable greater a.kind b.kind)

/-- The order of lists. -/
def orderedItems (greater : Bool) : List Value → List Value → Except Fault Bool
  | [], [] => .ok false
  | [], _ :: _ => .ok !greater
  | _ :: _, [] => .ok greater
  | a :: rest, b :: others =>
    if alike a b then orderedItems greater rest others else ordered greater a b

end

end Stepwise.Value
