import Stepwise.Text.Quoted
import Stepwise.Value.Basic

/-!
# Values shown in messages

The notation in which a message names a value: `None`, `True`, quoted texts, numbers by their
plain layout, lists in brackets and objects in braces. A text that is itself the whole of what is
named stands without quotes.
-/

namespace Stepwise

/-- A whole number in decimal. -/
def showInt (n : Int) : List Char :=
  if n < 0 then '-' :: Decimal.digitsOf n.natAbs else Decimal.digitsOf n.natAbs

/-- The greatest number of digits of a whole number that is read or written. -/
def digitLimit : Nat := 4300

/-- Texts joined by a separator. -/
def joinWith {α : Type} (separator : List α) : List (List α) → List α
  | [] => []
  | [s] => s
  | s :: rest => s ++ separator ++ joinWith separator rest

/-- The notation of a key. -/
def Key.shown : Key → List Char
  | .null => "None".toList
  | .bool true => "True".toList
  | .bool false => "False".toList
  | .int n => showInt n
  | .double x => Layout.plain.write x
  | .text s => Text.quoted s.toList

namespace Value

mutual

/-- The notation of a value. -/
def shown : Value → List Char
  | .null => "None".toList
  | .bool true => "True".toList
  | .bool false => "False".toList
  | .int n => showInt n
  | .double x => Layout.plain.write x
  | .text s => Text.quoted s.toList
  | .list items => '[' :: joinWith [',', ' '] (shownItems items) ++ [']']
  | .object fields => '\x7b' :: joinWith [',', ' '] (shownFields fields) ++ ['\x7d']

/-- The notations of the items of a list. -/
def shownItems : List Value → List (List Char)
  | [] => []
  | value :: rest => value.shown :: shownItems rest

/-- The notations of the fields of an object. -/
def shownFields : List (Key × Value) → List (List Char)
  | [] => []
  | (key, value) :: rest => (key.shown ++ ':' :: ' ' :: value.shown) :: shownFields rest

end

/-- How a message names a value. -/
def named : Value → String
  | .text s => s
  | value => String.ofList value.shown

@[simp] theorem named_text (s : String) : named (.text s) = s := rfl

end Value

end Stepwise
