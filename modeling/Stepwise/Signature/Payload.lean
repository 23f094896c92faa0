import Stepwise.Fault
import Stepwise.Json.Write
import Stepwise.Text.Point

/-!
# Payloads

What the body of a call can hold. Its texts are kept code point by code point, since a payload that
is signed is refused if one of them cannot be encoded. Every value is a payload; the names of its
fields are then the texts that they are written as.
-/

namespace Stepwise.Signature

/-- The content of a call. -/
inductive Payload
  | null
  | bool (b : Bool)
  | int (n : Int)
  | double (x : Double)
  | text (s : List Text.Point)
  | list (items : List Payload)
  | object (fields : List (List Text.Point × Payload))
  deriving Inhabited

namespace Payload

mutual

/-- A value as a payload. -/
def ofValue : Value → Payload
  | .null => .null
  | .bool b => .bool b
  | .int n => .int n
  | .double x => .double x
  | .text s => .text (Text.points s)
  | .list items => .list (ofItems items)
  | .object fields => .object (ofFields fields)

/-- The items of a list as payloads. -/
def ofItems : List Value → List Payload
  | [] => []
  | value :: rest => ofValue value :: ofItems rest

/-- The fields of an object as payloads. -/
def ofFields : List (Key × Value) → List (List Text.Point × Payload)
  | [] => []
  | (key, value) :: rest => ((Json.keyText key).map .char, ofValue value) :: ofFields rest

end

/-! ## Text -/

/-- One point inside a JSON string. -/
def escape : Text.Point → List Text.Point
  | .char c => (Json.escape c).map .char
  | .half n => [.half n]

/-- A JSON string. -/
def writeText (s : List Text.Point) : List Text.Point :=
  .char '"' :: s.flatMap escape ++ [.char '"']

mutual

/-- The compact JSON text of a payload. -/
def write : Payload → List Text.Point
  | .null => Text.points "null"
  | .bool true => Text.points "true"
  | .bool false => Text.points "false"
  | .int n => (showInt n).map .char
  | .double x => (Layout.json.write x).map .char
  | .text s => writeText s
  | .list items => .char '[' :: joinWith [.char ','] (writeItems items) ++ [.char ']']
  | .object fields =>
    .char '\x7b' :: joinWith [.char ','] (writeFields fields) ++ [.char '\x7d']

/-- The JSON texts of the items of a list. -/
def writeItems : List Payload → List (List Text.Point)
  | [] => []
  | payload :: rest => write payload :: writeItems rest

/-- The JSON texts of the fields of an object, each with its name. -/
def writeFields : List (List Text.Point × Payload) → List (List Text.Point)
  | [] => []
  | (name, payload) :: rest =>
    (writeText name ++ .char ':' :: write payload) :: writeFields rest

end

mutual

/-- No whole number in the payload has more digits than are written. -/
def isShort : Payload → Bool
  | .int n => Json.isShortInt n
  | .list items => shortItems items
  | .object fields => shortFields fields
  | _ => true

/-- No whole number in the items has more digits than are written. -/
def shortItems : List Payload → Bool
  | [] => true
  | payload :: rest => isShort payload && shortItems rest

/-- No whole number in the fields has more digits than are written. -/
def shortFields : List (List Text.Point × Payload) → Bool
  | [] => true
  | (_, payload) :: rest => isShort payload && shortFields rest

end

end Payload

end Stepwise.Signature
