import Stepwise.Json.Write

/-!
# The text of a value in a template

A text stands for itself, a double that is a whole number is written as that number, lists and
objects as JSON text.
-/

namespace Stepwise.Value

/-- The text that replaces a token. -/
def render : Value → List Char
  | .null => "null".toList
  | .bool true => "true".toList
  | .bool false => "false".toList
  | .int n => showInt n
  | .double x =>
    match x.toInt? with
    | some n => showInt n
    | none => Layout.plain.write x
  | .text s => s.toList
  | .list items => Json.write (.list items)
  | .object fields => Json.write (.object fields)

@[simp] theorem render_text (s : String) : render (.text s) = s.toList := rfl

end Stepwise.Value
