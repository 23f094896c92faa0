import Stepwise.Execution.Program
import Stepwise.Json.Write
import Stepwise.Trigger.Inbound

/-!
# What clients see of the records

The records as values. Numbers that JSON does not know are null in replies, and names are texts.
What an execution received and produced is shown only to a certain depth.
-/

namespace Stepwise.Api

open Store

/-- A field name as a client sees it. -/
def shownKey : Key → String
  | .null => "None"
  | key => String.ofList (Json.keyText key)

mutual

/-- A value as a client sees it. -/
def shown : Value → Value
  | .double x => if x.isFinite then .double x else .null
  | .list items => .list (shownItems items)
  | .object fields => .object (Fields.ofList (shownFields fields))
  | value => value

/-- The items of a list as a client sees them. -/
def shownItems : List Value → List Value
  | [] => []
  | value :: rest => shown value :: shownItems rest

/-- The fields of an object as a client sees them. -/
def shownFields : List (Key × Value) → List (Key × Value)
  | [] => []
  | (key, value) :: rest => (.text (shownKey key), shown value) :: shownFields rest

end

/-- A record with named fields. -/
def record (fields : List (String × Value)) : Value :=
  .object (fields.map fun (name, value) => (.text name, value))

/-- A number or null. -/
def int? : Option Int → Value
  | some n => .int n
  | none => .null

/-- A time or null. -/
def time? : Option Instant → Value
  | some t => .text t.text
  | none => .null

/-- A stored step. -/
def stepView (r : StepRow) : Value :=
  record [("id", .text r.id), ("name", .text r.name), ("type", .text r.type),
    ("config", shown r.config), ("position", .int r.position), ("parent_id", .ofText? r.parent),
    ("next_step_id", .ofText? r.next)]

/-- A stored workflow with its steps, and with its number of executions where it was counted. -/
def workflowView (w : Workflow.Stored) (executions : Option Nat) : Value :=
  let r := w.row
  record [("id", .text r.id), ("workspace_id", .text r.workspace), ("name", .text r.name),
    ("description", .ofText? r.description), ("icon", .ofText? r.icon), ("color", .ofText? r.color),
    ("trigger", shown (r.trigger.orElse (.object []))), ("active", .bool r.active),
    ("version", .int r.version), ("created_by", .ofText? r.creator),
    ("created_at", .text r.created.text), ("updated_at", .text r.updated.text),
    ("steps", .list (w.steps.map stepView)), ("execution_count", int? (executions.map Int.ofNat))]

/-- A stored trigger with its secret. -/
def triggerView (r : TriggerRow) : Value :=
  record [("id", .text r.id), ("workspace_id", .text r.workspace),
    ("workflow_id", .text r.workflow), ("name", .text r.name), ("url", .text r.url),
    ("secret", .text r.secret), ("active", .bool r.active), ("trigger_count", .int r.count),
    ("last_triggered", time? r.lastTriggered), ("created_by", .ofText? r.creator),
    ("created_at", .text r.created.text)]

/-- The workflow of an execution. -/
def ownerView (r : WorkflowRow) : Value :=
  record [("id", .text r.id), ("name", .text r.name), ("workspace_id", .text r.workspace)]

/-! ## What cannot be shown -/

mutual

/-- The number of levels of a value; a value without parts is one level. -/
def depth : Value → Nat
  | .list items => 1 + depthOfItems items
  | .object fields => 1 + depthOfFields fields
  | _ => 1

/-- The number of levels of the deepest item of a list. -/
def depthOfItems : List Value → Nat
  | [] => 0
  | value :: rest => max (depth value) (depthOfItems rest)

/-- The number of levels of the deepest field of an object. -/
def depthOfFields : List (Key × Value) → Nat
  | [] => 0
  | (_, value) :: rest => max (depth value) (depthOfFields rest)

end

/-- The number of levels that are shown of a value. -/
def depthLimit : Nat := 255

/-- What keeps a record from being shown. -/
inductive Obstacle
  /-- Variables with keys that are no texts. -/
  | nameless (keys : List Key)
  | tooDeep

/-- How a message names the place of a variable with a key that is no text. -/
def keyPlace (key : Key) : String :=
  let place := match key with
    | .bool b => toString b.toNat
    | key => String.ofList key.shown
  if place.contains '.' then "`" ++ place ++ "`" else place

/-- The notation of a key, cut in its middle if it is long. -/
def briefKey (key : Key) : String :=
  let text := key.shown
  if text.length ≤ 50 then String.ofList text
  else String.ofList (text.take 25) ++ "..."
    ++ String.ofList (text.drop (text.length - 24))

/-- What a message tells of a variable with a key that is no text. -/
def keyComplaint (key : Key) : String :=
  "\noutput." ++ keyPlace key ++ ".[key]\n  Input should be a valid string [type=string_type, "
    ++ "input_value=" ++ briefKey key ++ ", input_type=" ++ key.toValue.kind.name ++ "]\n"
    ++ "    For further information visit https://errors.pydantic.dev/2.14/v/string_type"

/-- The wording of what keeps a record from being shown. -/
def Obstacle.message : Obstacle → String
  | .nameless keys =>
    toString keys.length ++ (if keys.length = 1 then " validation error" else " validation errors")
      ++ " for ExecuteResponse" ++ String.join (keys.map keyComplaint)
  | .tooDeep =>
    "Error serializing to JSON: ValueError: Circular reference detected (depth exceeded)"

/-! ## Executions -/

/-- A stored execution, with the text of the time of its end, and with its workflow where that is
shown. The variables are the fields of its output; log entries hold texts only. -/
def executionView (r : ExecutionRow) (completed : Value) (owner : Option WorkflowRow) :
    Except Obstacle Value :=
  if depth r.input ≤ depthLimit ∧ depth r.output ≤ 1 + depthLimit then
    .ok <| record [("id", .text r.id), ("workflow_id", .text r.workflow),
      ("status", .text r.status), ("input", shown r.input), ("output", shown r.output),
      ("logs", shown r.log), ("error", .ofText? r.error),
      ("triggered_by", .ofText? r.triggeredBy), ("started_at", .text r.started.text),
      ("completed_at", completed), ("duration_ms", int? r.duration),
      ("workflow", (owner.map ownerView).getD .null)]
  else .error .tooDeep

/-- An execution as it is stored. -/
def storedView (r : ExecutionRow) (owner : Option WorkflowRow) : Except Obstacle Value :=
  executionView r (time? r.completed) owner

/-- An execution that was cancelled just now, whose end is told in universal time. -/
def cancelledView (r : ExecutionRow) : Except Obstacle Value :=
  executionView r (.ofText? (r.completed.map (·.text ++ "Z"))) none

/-- A variable that can be shown under its name. -/
def isNamed : Key → Bool
  | .text _ => true
  | _ => false

/-- The report of an execution; it can only be shown if all variables are named by texts. -/
def reportView (r : Execution.Report) : Except Obstacle Value :=
  match (r.output.map Prod.fst).filter (!isNamed ·) with
  | [] =>
    if depthOfFields r.output ≤ depthLimit then
      .ok <| record [("success", .bool true), ("execution_id", .text r.id),
        ("output", shown (.object r.output))]
    else .error .tooDeep
  | keys => .error (.nameless keys)

end Stepwise.Api
