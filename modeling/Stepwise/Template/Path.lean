import Stepwise.Fault
import Stepwise.Text.Blank
import Stepwise.Text.Digit

/-!
# Paths into values

A path is a text of segments between points. Each segment goes from an object to the field of
that name, or from a list to the item of that number. The walk starts at the root, or at the
root's `variables` when the first segment names no field of the root. A path that leads nowhere
is missing; only an index that looks like a number and is none is a fault.
-/

namespace Stepwise.Template

/-- The parts of a text between separators; there is at least one. -/
def splitOn (separator : Char) : List Char → List (List Char)
  | [] => [[]]
  | c :: rest =>
    if c = separator then [] :: splitOn separator rest
    else
      match splitOn separator rest with
      | [] => [[c]]
      | part :: parts => (c :: part) :: parts

/-- The segments of a path. -/
def segments (path : List Char) : List (List Char) := splitOn '.' (Text.trim path)

/-- The number that a segment of digit characters spells. -/
def readIndex (segment : List Char) : Except Fault Nat :=
  let (digits, rest) := Text.takeDecimals segment
  if digitLimit < digits.length then .error (.longNumber digits.length)
  else if rest.isEmpty then .ok (Text.numeral digits)
  else .error (.unreadableIndex (String.ofList segment))

/-- The value that a segment leads to, if it leads anywhere. -/
def step (value : Value) (segment : List Char) : Except Fault (Option Value) :=
  match value with
  | .object fields => .ok (Fields.get? fields (.text (String.ofList segment)))
  | .list items =>
    if segment.isEmpty || !segment.all Text.isDigit then .ok none
    else (readIndex segment).map (items[·]?)
  | _ => .ok none

/-- The value that a row of segments leads to, if it leads anywhere. -/
def walk : Value → List (List Char) → Except Fault (Option Value)
  | value, [] => .ok (some value)
  | value, segment :: rest => do
    match ← step value segment with
    | some value => walk value rest
    | none => return none

/-- The value that a path leads to from the root, if it leads anywhere. -/
def lookup (path : List Char) (root : Fields) : Except Fault (Option Value) :=
  let path := segments path
  if (root.get? (.text (String.ofList (path.headD [])))).isSome then walk (.object root) path
  else
    match root.get? (.text "variables") with
    | some (.object vars) => walk (.object vars) path
    | _ => .ok none

end Stepwise.Template
