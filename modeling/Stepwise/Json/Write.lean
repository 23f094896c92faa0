import Stepwise.Value.Shown

/-!
# JSON text

The compact text of a value: no blanks, fields in their order, characters outside ASCII as they
are. Keys that are not texts are written as the text of their value. Numbers that JSON does not
have are written by name; `isFinite` tells the values that hold none. Whole numbers are written up
to a limit of digits; `isShort` tells the values that hold none beyond it.
-/

namespace Stepwise.Json

/-- One character inside a JSON string. -/
def escape (c : Char) : List Char :=
  if c = '"' ∨ c = '\\' then ['\\', c]
  else if c = '\n' then ['\\', 'n']
  else if c = '\r' then ['\\', 'r']
  else if c = '\t' then ['\\', 't']
  else if c = '\x08' then ['\\', 'b']
  else if c = '\x0c' then ['\\', 'f']
  else if c.toNat < 0x20 then '\\' :: 'u' :: Text.hex 4 c.toNat
  else [c]

/-- A JSON string. -/
def writeText (s : List Char) : List Char := '"' :: s.flatMap escape ++ ['"']

/-- The text of a key that is not a text, or the text itself. -/
def keyText : Key → List Char
  | .null => "null".toList
  | .bool true => "true".toList
  | .bool false => "false".toList
  | .int n => showInt n
  | .double x => Layout.json.write x
  | .text s => s.toList

mutual

/-- The JSON text of a value. -/
def write : Value → List Char
  | .null => "null".toList
  | .bool true => "true".toList
  | .bool false => "false".toList
  | .int n => showInt n
  | .double x => Layout.json.write x
  | .text s => writeText s.toList
  | .list items => '[' :: joinWith [','] (writeItems items) ++ [']']
  | .object fields => '\x7b' :: joinWith [','] (writeFields fields) ++ ['\x7d']

/-- The JSON texts of the items of a list. -/
def writeItems : List Value → List (List Char)
  | [] => []
  | value :: rest => write value :: writeItems rest

/-- The JSON texts of the fields of an object, each with its name. -/
def writeFields : List (Key × Value) → List (List Char)
  | [] => []
  | (key, value) :: rest =>
    (writeText (keyText key) ++ ':' :: write value) :: writeFields rest

end

/-- A key that JSON can write as it is. -/
def finiteKey : Key → Bool
  | .double x => x.isFinite
  | _ => true

mutual

/-- No infinite number and no NaN in the value. -/
def isFinite : Value → Bool
  | .double x => x.isFinite
  | .list items => finiteItems items
  | .object fields => finiteFields fields
  | _ => true

/-- No infinite number and no NaN in the items. -/
def finiteItems : List Value → Bool
  | [] => true
  | value :: rest => isFinite value && finiteItems rest

/-- No infinite number and no NaN in the fields. -/
def finiteFields : List (Key × Value) → Bool
  | [] => true
  | (key, value) :: rest => finiteKey key && isFinite value && finiteFields rest

end

/-- A whole number has no more digits than are written. -/
def isShortInt (n : Int) : Bool := decide ((Decimal.digitsOf n.natAbs).length ≤ digitLimit)

/-- A key has no more digits than are written. -/
def shortKey : Key → Bool
  | .int n => isShortInt n
  | _ => true

mutual

/-- No whole number in the value has more digits than are written. -/
def isShort : Value → Bool
  | .int n => isShortInt n
  | .list items => shortItems items
  | .object fields => shortFields fields
  | _ => true

/-- No whole number in the items has more digits than are written. -/
def shortItems : List Value → Bool
  | [] => true
  | value :: rest => isShort value && shortItems rest

/-- No whole number in the fields has more digits than are written. -/
def shortFields : List (Key × Value) → Bool
  | [] => true
  | (key, value) :: rest => shortKey key && isShort value && shortFields rest

end

mutual

/-- The value that reading its JSON text gives back: names become texts, and of the fields with
one name the first place and the last value remain. -/
def settle : Value → Value
  | .list items => .list (settleItems items)
  | .object fields => .object (Fields.ofList (settleFields fields))
  | value => value

/-- Settles the items of a list. -/
def settleItems : List Value → List Value
  | [] => []
  | value :: rest => settle value :: settleItems rest

/-- Settles the fields of an object one by one. -/
def settleFields : List (Key × Value) → List (Key × Value)
  | [] => []
  | (key, value) :: rest =>
    (.text (String.ofList (keyText key)), settle value) :: settleFields rest

end

end Stepwise.Json
