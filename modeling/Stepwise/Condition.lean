import Stepwise.Template.Render
import Stepwise.Value.Compare

/-!
# Conditions

A condition compares two operands with one of six operators. The two orderings compare numbers as
doubles when both operands are numbers or texts of numbers, and values by their own order
otherwise; containment looks for one rendered text in the other.
-/

namespace Stepwise

/-- How a condition compares its operands. -/
inductive Operator
  | equals
  | notEquals
  | greaterThan
  | lessThan
  | contains
  | notContains
  deriving DecidableEq

namespace Operator

/-- All operators in their order. -/
def all : List Operator := [.equals, .notEquals, .greaterThan, .lessThan, .contains, .notContains]

/-- The name an operator is configured by. -/
def name : Operator → String
  | .equals => "equals"
  | .notEquals => "not_equals"
  | .greaterThan => "greater_than"
  | .lessThan => "less_than"
  | .contains => "contains"
  | .notContains => "not_contains"

/-- The operator that a configured value names. -/
def ofValue? : Value → Option Operator
  | .text s => all.find? (·.name == s)
  | _ => none

end Operator

namespace Condition

/-- The double that an operand of an ordering counts as; a boolean counts as none. -/
def number? : Value → Except Fault (Option Double)
  | .int n =>
    match Double.ofInt? n with
    | some x => .ok (some x)
    | none => .error .intTooLarge
  | .double x => .ok (some x)
  | .text s => .ok (Double.read? s.toList)
  | _ => .ok none

/-- The order of two operands. -/
def order (greater : Bool) (left right : Value) : Except Fault Bool := do
  let x ← number? left
  let y ← number? right
  match x, y with
  | some x, some y => return if greater then y.less x else x.less y
  | _, _ => left.ordered greater right

/-- One text occurs within another. -/
def occurs (part : List Char) : List Char → Bool
  | [] => part.isEmpty
  | c :: rest => part.isPrefixOf (c :: rest) || occurs part rest

/-- The rendered text of one value occurs in that of another. -/
def containsRendered (value part : Value) : Bool := occurs part.render value.render

/-- The outcome of an operator on two operands. -/
def decide (operator : Operator) (left right : Value) : Except Fault Bool :=
  match operator with
  | .equals => .ok (left.equal right)
  | .notEquals => .ok !left.equal right
  | .greaterThan => order true left right
  | .lessThan => order false left right
  | .contains => .ok (containsRendered left right)
  | .notContains => .ok !containsRendered left right

/-- The outcome of a condition whose operator is a configured value. -/
def evaluate (operator left right : Value) : Except Fault Bool :=
  match Operator.ofValue? operator with
  | some operator => decide operator left right
  | none => .error (.unknownOperator operator)

end Condition

end Stepwise
