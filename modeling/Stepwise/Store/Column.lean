import Stepwise.Json.Write
import Stepwise.Store.Database
import Stepwise.Value.Compare

/-!
# Columns

Rows can also be read and written column by column, with names and values. A column has a sort, to
which a value given for it is converted; where no value is given it may have a default. A column of
texts keeps a number in the spelling of the database, which is not the one of messages.
-/

namespace Stepwise.Store

/-- The content of a column. -/
inductive Cell
  | null
  | text (s : String)
  | int (n : Int)
  | bool (b : Bool)
  | time (t : Instant)
  | json (v : Value)

namespace Cell

/-- A text or nothing. -/
def ofText? : Option String → Cell
  | some s => .text s
  | none => .null

/-- A time or nothing. -/
def ofTime? : Option Instant → Cell
  | some t => .time t
  | none => .null

/-- A number or nothing. -/
def ofInt? : Option Int → Cell
  | some n => .int n
  | none => .null

/-- The content as a value; times are texts. -/
def toValue : Cell → Value
  | .null => .null
  | .text s => .text s
  | .int n => .int n
  | .bool b => .bool b
  | .time t => .text t.text
  | .json v => v

/-- The text in a cell. -/
def text? : Cell → Option String
  | .text s => some s
  | _ => none

/-- The number in a cell. -/
def int? : Cell → Option Int
  | .int n => some n
  | _ => none

/-- The time in a cell. -/
def time? : Cell → Option Instant
  | .time t => some t
  | _ => none

/-- The truth in a cell. -/
def isTrue : Cell → Bool
  | .bool b => b
  | _ => false

end Cell

/-- What a column holds. -/
inductive ColumnSort
  | text
  | int
  | bool
  | time
  | json
  deriving DecidableEq

/-- What a column holds where no value is given for it. -/
inductive ColumnDefault
  | null
  | cell (c : Cell)
  /-- An id drawn for the row. -/
  | rowId
  /-- The time of the insertion. -/
  | now

/-- A column of rows of type `ρ`. -/
structure Column (ρ : Type) where
  name : String
  sort : ColumnSort
  nullable : Bool
  unique : Bool
  /-- Rows can be read in the order of this column, and backwards. -/
  indexed : Bool
  default : ColumnDefault
  read : ρ → Cell
  write : Cell → ρ → ρ

namespace Column

variable {ρ : Type}

/-- The database fills the column in itself where no value is given for it. -/
def isStamped (c : Column ρ) : Bool :=
  match c.default with
  | .now => true
  | _ => false

end Column

/-- A whole number that a column of texts makes a text of has 64 bits. The columns of numbers hold
what the program has counted, and are not bounded here. -/
def fitsColumn (n : Int) : Bool := decide (-Int.pow 2 63 ≤ n ∧ n < Int.pow 2 63)

/-- The number of digits that a column of texts keeps of a double. -/
def keptDigits : Nat := 15

/-- The text that a column of texts makes of a finite double: its leading digits, always with a
point, and the sign of zero is dropped. -/
def storedNumber (negative : Bool) (units : Nat) : List Char :=
  if units = 0 then Layout.positional true ['0'] 1
  else
    let grid := Double.pointPlace units - keptDigits
    let num := if grid < 0 then units * Nat.pow 10 (-grid).toNat else units
    let den := if grid < 0 then Double.scale else Double.scale * Nat.pow 10 grid.toNat
    let rounded := (Decimal.mk negative ((2 * num + den) / (2 * den)) grid).reduced
    let digits := Decimal.digitsOf rounded.digits
    let place := digits.length + rounded.exponent
    let text :=
      if -4 ≤ place - 1 ∧ place - 1 < keptDigits then Layout.positional true digits place
      else
        let digits := if digits.length = 1 then digits ++ ['0'] else digits
        Layout.scientific 2 digits (place - 1)
    if negative then '-' :: text else text

/-- The text that a column of texts makes of a value; a NaN, a number of more than 64 bits, a list
and an object have none. -/
def storedText? : Value → Option String
  | .text s => some s
  | .bool b => some (if b then "1" else "0")
  | .int n => if fitsColumn n then some (toString n) else none
  | .double (.infinite negative) => some (if negative then "-Inf" else "Inf")
  | .double (.finite negative mantissa exponent _) =>
    some (String.ofList (storedNumber negative (mantissa * Nat.pow 2 exponent)))
  | _ => none

/-- A value among those that are bound to a statement. -/
structure Binding where
  statement : Statement
  /-- Its number among them, from one. -/
  number : Nat
  deriving Inhabited

/-- What the database says to a value that no column can hold. -/
def Binding.unsupported (b : Binding) (value : Value) : Fault :=
  .refused (.unsupported b.number value.kind) b.statement

namespace ColumnSort

/-- What is bound to a statement for a value given for a column of a sort. -/
def bound (sort : ColumnSort) (value : Value) : Value :=
  match sort, value with
  | .json, value => .text (String.ofList (Json.write value))
  | .bool, .bool b => .int b.toInt
  | _, value => value

/-- The content that a column of a sort makes of a value given for it. -/
def cell (sort : ColumnSort) (binding : Binding) (value : Value) : Except Fault Cell :=
  match sort, value with
  | .json, value => .ok (.json (Json.settle value))
  | _, .null => .ok .null
  | .text, value =>
    match storedText? value with
    | some s => .ok (.text s)
    | none =>
      match value with
      | .double _ => .ok .null
      | .int _ => .error .intTooLong
      | value => .error (binding.unsupported value)
  | .int, .int n => .ok (.int n)
  | .int, .bool b => .ok (.int b.toInt)
  | .int, .double x => .ok (.int (x.toInt?.getD 0))
  | .int, .text s => .ok (.int (s.toInt?.getD 0))
  | .int, value => .error (binding.unsupported value)
  | .bool, .bool b => .ok (.bool b)
  | .bool, .int 0 => .ok (.bool false)
  | .bool, .int 1 => .ok (.bool true)
  | .bool, value => .error (.notBoolean value)
  | .time, _ => .error .notTime

end ColumnSort

/-- What is bound to a statement for the content of a column. -/
def Cell.bound : Cell → Value
  | .bool b => .int b.toInt
  | .json v => .text (String.ofList (Json.write v))
  | content => content.toValue

/-- Where among some columns one stands, counted from one; columns that the database fills in itself
are not counted. -/
def placeOf {ρ : Type} (columns : List (Column ρ)) (name : String) : Nat :=
  ((columns.filter (!·.isStamped)).takeWhile (·.name != name)).length + 1

end Stepwise.Store
