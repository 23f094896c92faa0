import Stepwise.Value.Basic

/-!
# Issues with input

Input that is not as it should be is refused with a list of issues. An issue says what is wrong and
where, as a path of names and list positions.
-/

namespace Stepwise.Input

/-- What can be wrong with a part of the input. -/
inductive Problem
  | missing
  | notText
  | emptyText
  | notObject
  | notList
  /-- Neither an object nor anything with fields. -/
  | notRecord
  /-- None of the admitted words. -/
  | notOneOf (words : List String)
  | unreadableBool
  | notBool
  | unreadableInt
  | unreadableDouble
  | below (least : Int)
  | above (greatest : Int)
  | notAbove (bound : Int)
  | badText (reason : String)
  | notJson
  deriving DecidableEq

/-- The words of a choice: the last one after "or". -/
def chooseText : List String → String
  | [] => ""
  | [word] => "'" ++ word ++ "'"
  | [first, last] => "'" ++ first ++ "' or '" ++ last ++ "'"
  | word :: rest => "'" ++ word ++ "', " ++ chooseText rest

/-- The name of a problem. -/
def Problem.name : Problem → String
  | .missing => "missing"
  | .notText => "string_type"
  | .emptyText => "string_too_short"
  | .notObject => "dict_type"
  | .notList => "list_type"
  | .notRecord => "model_attributes_type"
  | .notOneOf _ => "literal_error"
  | .unreadableBool => "bool_parsing"
  | .notBool => "bool_type"
  | .unreadableInt => "int_parsing"
  | .unreadableDouble => "float_parsing"
  | .below _ => "greater_than_equal"
  | .above _ => "less_than_equal"
  | .notAbove _ => "greater_than"
  | .badText _ => "value_error"
  | .notJson => "json_invalid"

/-- The wording of a problem. -/
def Problem.message : Problem → String
  | .missing => "Field required"
  | .notText => "Input should be a valid string"
  | .emptyText => "String should have at least 1 character"
  | .notObject => "Input should be a valid dictionary"
  | .notList => "Input should be a valid list"
  | .notRecord => "Input should be a valid dictionary or object to extract fields from"
  | .notOneOf words => "Input should be " ++ chooseText words
  | .unreadableBool => "Input should be a valid boolean, unable to interpret input"
  | .notBool => "Input should be a valid boolean"
  | .unreadableInt => "Input should be a valid integer, unable to parse string as an integer"
  | .unreadableDouble => "Input should be a valid number, unable to parse string as a number"
  | .below least => "Input should be greater than or equal to " ++ toString least
  | .above greatest => "Input should be less than or equal to " ++ toString greatest
  | .notAbove bound => "Input should be greater than " ++ toString bound
  | .badText reason => "Value error, " ++ reason
  | .notJson => "JSON decode error"

/-- A step on the way to a part of the input. -/
inductive Place
  | name (s : String)
  | index (n : Nat)
  deriving DecidableEq

/-- The place as a value. -/
def Place.toValue : Place → Value
  | .name s => .text s
  | .index n => .int n

/-- A problem and where it is. -/
structure Issue where
  problem : Problem
  path : List Place
  deriving DecidableEq

/-- The issue as a value. -/
def Issue.toValue (i : Issue) : Value :=
  .object [(.text "type", .text i.problem.name),
    (.text "loc", .list (i.path.map Place.toValue)), (.text "msg", .text i.problem.message)]

end Stepwise.Input
