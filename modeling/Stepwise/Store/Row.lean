import Stepwise.Clock
import Stepwise.Step.Basic

/-!
# Rows

The six kinds of rows that are kept: workflows, their steps and executions, triggers, tasks and
notifications. Every row has an id and the times of its creation and of its last change.
-/

namespace Stepwise.Store

/-- A stored workflow. -/
structure WorkflowRow where
  id : String
  workspace : String
  creator : Option String
  name : String
  description : Option String
  icon : Option String
  color : Option String
  trigger : Value
  active : Bool
  version : Int
  created : Instant
  updated : Instant
  deriving Inhabited

/-- A stored step. -/
structure StepRow where
  id : String
  workflow : String
  name : String
  type : String
  config : Value
  position : Int
  parent : Option String
  next : Option String
  created : Instant
  updated : Instant
  deriving Inhabited

/-- A stored execution of a workflow. -/
structure ExecutionRow where
  id : String
  workflow : String
  status : String
  input : Value
  output : Value
  log : Value
  error : Option String
  triggeredBy : Option String
  started : Instant
  completed : Option Instant
  duration : Option Int
  created : Instant
  updated : Instant
  deriving Inhabited

/-- A stored trigger. -/
structure TriggerRow where
  id : String
  workspace : String
  workflow : String
  creator : Option String
  name : String
  url : String
  secret : String
  active : Bool
  lastTriggered : Option Instant
  count : Int
  created : Instant
  updated : Instant
  deriving Inhabited

/-- A stored task. -/
structure TaskRow where
  id : String
  project : Option String
  title : String
  description : Option String
  status : String
  priority : String
  assignee : Option String
  created : Instant
  updated : Instant
  deriving Inhabited

/-- A stored notification. -/
structure NotificationRow where
  id : String
  user : String
  type : String
  title : String
  message : String
  read : Bool
  created : Instant
  updated : Instant
  deriving Inhabited

/-- The step that a row describes, with its configuration as it is read. -/
def StepRow.toStep (r : StepRow) (config : Fields) : Step where
  id := r.id
  name := r.name
  type := r.type
  config
  position := r.position
  parent := r.parent
  next := r.next

/-- The states of an execution. -/
inductive Status
  | running
  | completed
  | failed
  | cancelled
  deriving DecidableEq

namespace Status

/-- All states in their order. -/
def all : List Status := [.running, .completed, .failed, .cancelled]

/-- The name of a state. -/
def name : Status → String
  | .running => "running"
  | .completed => "completed"
  | .failed => "failed"
  | .cancelled => "cancelled"

/-- A state that is never left. -/
def isTerminal : Status → Bool
  | .running => false
  | _ => true

end Status

/-- What can start a workflow. -/
inductive TriggerKind
  | manual
  | webhook
  | scheduled
  | event
  deriving DecidableEq

namespace TriggerKind

/-- All kinds in their order. -/
def all : List TriggerKind := [.manual, .webhook, .scheduled, .event]

/-- The name of a kind. -/
def name : TriggerKind → String
  | .manual => "manual"
  | .webhook => "webhook"
  | .scheduled => "scheduled"
  | .event => "event"

end TriggerKind

/-- The trigger of a workflow that was given none. -/
def manualTrigger : Value := .object [(.text "type", .text TriggerKind.manual.name)]

/-- The state of a task that was given none. -/
def defaultTaskStatus : String := "TODO"

/-- The priority of a task that was given none. -/
def defaultTaskPriority : String := "MEDIUM"

/-- How many executions are listed where no number is given. -/
def defaultListLimit : Nat := 50

end Stepwise.Store
