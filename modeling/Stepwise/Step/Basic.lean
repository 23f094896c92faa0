import Stepwise.Value.Basic

/-!
# Steps

A step has a name, a kind, its configuration and a place among the steps of its workflow. It may
stand under a parent and name a successor. The kind is a text, since a stored step may have a kind
that no run understands.
-/

namespace Stepwise

/-- The kinds of steps that a run understands. -/
inductive StepKind
  | action
  | condition
  | loop
  | delay
  | webhook
  | notification
  deriving DecidableEq

namespace StepKind

/-- All kinds in their order. -/
def all : List StepKind := [.action, .condition, .loop, .delay, .webhook, .notification]

/-- The name of a kind. -/
def name : StepKind → String
  | .action => "action"
  | .condition => "condition"
  | .loop => "loop"
  | .delay => "delay"
  | .webhook => "webhook"
  | .notification => "notification"

/-- The kind of a name. -/
def ofName? (name : String) : Option StepKind := all.find? (·.name == name)

/-- A kind whose steps own children. -/
def isContainer : StepKind → Bool
  | .condition | .loop => true
  | _ => false

@[simp] theorem ofName?_name (kind : StepKind) : ofName? kind.name = some kind := by
  cases kind <;> rfl

theorem name_of_ofName? {name : String} {kind : StepKind} (h : ofName? name = some kind) :
    name = kind.name := by
  have hfound := List.find?_some (p := fun kind : StepKind => kind.name == name) h
  exact (eq_of_beq hfound).symm

end StepKind

/-- What an action step does. -/
inductive ActionKind
  | createTask
  | updateTask
  | deleteTask
  | setVariable
  deriving DecidableEq

namespace ActionKind

/-- All actions in their order. -/
def all : List ActionKind := [.createTask, .updateTask, .deleteTask, .setVariable]

/-- The name of an action. -/
def name : ActionKind → String
  | .createTask => "create_task"
  | .updateTask => "update_task"
  | .deleteTask => "delete_task"
  | .setVariable => "set_variable"

/-- The action that a configured value names. -/
def ofValue? : Value → Option ActionKind
  | .text s => all.find? (·.name == s)
  | _ => none

end ActionKind

/-- A step of a workflow. -/
structure Step where
  id : String
  name : String
  type : String
  config : Fields
  position : Int
  parent : Option String
  next : Option String
  deriving Inhabited

end Stepwise
