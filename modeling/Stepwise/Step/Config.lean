import Stepwise.Fault

/-!
# Configurations

A step is stored with any value as its configuration, which is read as an object before a run. A
value that counts as nothing is an empty one, and a sequence of pairs is the object of these fields;
of other values there is none.
-/

namespace Stepwise.Step

/-- The elements of a value that is a sequence; an object is the sequence of its keys. -/
def elements? : Value → Option (List Value)
  | .list items => some items
  | .text s => some (s.toList.map fun c => .text (String.singleton c))
  | .object fields => some (fields.map fun field => field.1.toValue)
  | _ => none

/-- The field that an element of a sequence stands for. -/
def readPair (place : Nat) (element : Value) : Except Fault (Key × Value) :=
  match elements? element with
  | none => .error (.notSequence place)
  | some [key, value] =>
    match key.toKey? with
    | some key => .ok (key, value)
    | none => .error (.unhashable key.kind)
  | some parts => .error (.notPair place parts.length)

/-- The object that a configuration is read as. -/
def readConfig (config : Value) : Except Fault Fields :=
  match config.orElse (.object []) with
  | .object fields => .ok fields
  | config =>
    match elements? config with
    | none => .error (.notIterable config.kind)
    | some elements =>
      Fields.ofList <$> elements.zipIdx.mapM fun (element, place) => readPair place element

end Stepwise.Step
