import Stepwise.Fault
import Stepwise.Step.Basic

/-!
# Submitted step sets

A workflow's steps are submitted as a whole. Each step gets a fresh id; a step may carry a name of
its own, under which other steps of the set refer to it as their parent or successor, and these
references become the fresh ids. A set is accepted if no two steps share a name of their own, every
reference is the name of a step of the set, and every parent is a condition or a loop.
-/

namespace Stepwise

/-- A step of an accepted set. -/
structure NewStep where
  id : String
  workflow : String
  name : Value
  type : Value
  config : Value
  position : Nat
  parent : Option String
  next : Option String

namespace StepSet

/-- The fresh id made of a number. -/
def freshId (n : Nat) : String := "u-" ++ toString n

/-- A step that others of its set can refer to. -/
structure Known where
  key : Key
  id : String
  type : Value

/-- The step of a name. -/
def find? (known : List Known) (key : Key) : Option Known := known.find? (·.key.same key)

/-- The field of a submitted step that cannot be left out. -/
def required (step : Fields) (name : String) : Except Fault Value :=
  match step.get? (.text name) with
  | some value => .ok value
  | none => .error (.missingKey name)

/-- Adds a step to the known ones, if it has a name of its own and nobody else has it. -/
def register (known : List Known) (id : String) (step : Fields) : Except Fault (List Known) := do
  let type ← required step "type"
  let name := step.field "id"
  if name.isTruthy then
    match name.toKey? with
    | none => .error (.unhashable name.kind)
    | some key =>
      if (find? known key).isSome then .error (.duplicateStep name)
      else return known ++ [⟨key, id, type⟩]
  else return known

/-- Registers the steps in order, drawing an id for each up to the first fault: the steps that
have names, and the number of the next id. -/
def registerAll (next : Nat) (known : List Known) : List Fields → Except Fault (List Known) × Nat
  | [] => (.ok known, next)
  | step :: rest =>
    match register known (freshId next) step with
    | .ok known => registerAll (next + 1) known rest
    | .error fault => (.error fault, next + 1)

/-- The step that a reference names; a null reference names none. -/
def resolve (known : List Known) (step : Fields) (field : String) (name : Value) :
    Except Fault (Option Known) :=
  match step.field field with
  | .null => .ok none
  | reference =>
    match reference.toKey? with
    | none => .error (.unhashable reference.kind)
    | some key =>
      match find? known key with
      | some found => .ok (some found)
      | none => .error (.unknownReference name field reference)

/-- Whether a step of the given type may be a parent. -/
def isContainerType : Value → Except Fault Bool
  | .text s => .ok (((StepKind.ofName? s).map (·.isContainer)).getD false)
  | value =>
    match value.toKey? with
    | some _ => .ok false
    | none => .error (.unhashable value.kind)

/-- One step of the set with its references resolved. -/
def place (known : List Known) (workflow id : String) (position : Nat) (step : Fields) :
    Except Fault NewStep := do
  let name ← required step "name"
  let parent ← resolve known step "parent_id" name
  match parent with
  | none => pure ()
  | some parent => if !(← isContainerType parent.type) then throw (.parentNotContainer name)
  let type ← required step "type"
  let next ← resolve known step "next_step_id" name
  let config := (step.field "config").orElse (.object [])
  return ⟨id, workflow, name, type, config, position, parent.map (·.id), next.map (·.id)⟩

/-- The steps of the set in order; `first` is the number of the first id. -/
def placeAll (known : List Known) (workflow : String) (first : Nat) (steps : List Fields) :
    Except Fault (List NewStep) :=
  steps.zipIdx.mapM fun (step, i) => place known workflow (freshId (first + i)) i step

/-- The accepted steps of a set, and the number of the next fresh id. -/
def build (workflow : String) (first : Nat) (steps : List Fields) :
    Except Fault (List NewStep) × Nat :=
  match registerAll first [] steps with
  | (.error fault, next) => (.error fault, next)
  | (.ok known, next) => (placeAll known workflow first steps, next)

end StepSet

end Stepwise
