import Stepwise.Input.Form
import Stepwise.Workflow.Edit

/-!
# Submitted records

What clients submit: new workflows and changes of workflows with their steps, new triggers, and the
input of an execution. The steps of a workflow refer to each other by names that the client gives
them; such a reference may be spelled in two ways. Fields that are not known are passed over.
-/

namespace Stepwise.Api

open Input

/-- A step as it is submitted. -/
structure SubmittedStep where
  /-- The name under which other steps refer to the step. -/
  handle : Option String
  name : String
  kind : StepKind
  config : Fields
  parent : Option String
  next : Option String

/-- The fields from which a step set is built. -/
def SubmittedStep.toFields (s : SubmittedStep) : Fields :=
  [(.text "id", .ofText? s.handle), (.text "name", .text s.name), (.text "type", .text s.kind.name),
    (.text "config", .object s.config), (.text "parent_id", .ofText? s.parent),
    (.text "next_step_id", .ofText? s.next)]

/-- A text or null. -/
def text? : Value → Except Problem (Option String) := orNull text

/-- A kind of steps, by its name. -/
def stepKind (value : Value) : Except Problem StepKind :=
  let named := match value with
    | .text s => StepKind.ofName? s
    | _ => none
  match named with
  | some kind => .ok kind
  | none => .error (.notOneOf (StepKind.all.map (·.name)))

instance : Inhabited StepKind := ⟨.action⟩

instance : Inhabited SubmittedStep := ⟨⟨none, "", default, [], none, none⟩⟩

/-- Reads a step. -/
def readStep (form : Form) : Reading SubmittedStep := do
  let handle ← form.optional ["id"] none text?
  let name ← form.required "name" filledText
  let kind ← form.required "type" stepKind
  let config ← form.optional ["config"] [] object
  let parent ← form.optional ["parent_id", "parentId"] none text?
  let next ← form.optional ["next_step_id", "nextStepId"] none text?
  return { handle, name, kind, config, parent, next }

/-- Reads the steps of a list. -/
def readSteps (path : List Place) (items : List Value) : Reading (List SubmittedStep) :=
  items.zipIdx.mapM fun (item, i) => Form.read (path ++ [.index i]) item readStep

/-- Reads the step list of a record, if it has one. -/
def readStepList (form : Form) (field : Value → Except Problem (Option (List Value))) :
    Reading (Option (List SubmittedStep)) := do
  let items ← form.optional ["steps"] none field
  match items with
  | none => return none
  | some items => some <$> readSteps (form.path ++ [.name "steps"]) items

/-- A new workflow; its workspace and its name are not empty. -/
structure NewWorkflow where
  workspace : String
  name : String
  description : Option String
  icon : Option String
  color : Option String
  trigger : Option Fields
  creator : Option String
  steps : List SubmittedStep
  deriving Inhabited

/-- Reads a new workflow. -/
def readNewWorkflow (form : Form) : Reading NewWorkflow := do
  let workspace ← form.required "workspace_id" filledText
  let name ← form.required "name" filledText
  let description ← form.optional ["description"] none text?
  let icon ← form.optional ["icon"] none text?
  let color ← form.optional ["color"] none text?
  let trigger ← form.optional ["trigger"] none (orNull object)
  let creator ← form.optional ["created_by"] none text?
  let steps ← readStepList form fun value => some <$> list value
  return { workspace, name, description, icon, color, trigger, creator, steps := steps.getD [] }

/-- The workflow that is asked for. -/
def NewWorkflow.toDraft (w : NewWorkflow) : Workflow.Draft where
  workspace := some w.workspace
  name := some w.name
  description := w.description
  icon := w.icon
  color := w.color
  trigger := (w.trigger.map Value.object).getD .null
  creator := w.creator
  steps := w.steps.map (·.toFields)

/-- A change of a workflow; what is not given stays, and given steps replace all steps. -/
structure WorkflowPatch where
  name : Option String
  description : Option String
  icon : Option String
  color : Option String
  trigger : Option Fields
  active : Option Bool
  steps : Option (List SubmittedStep)
  deriving Inhabited

/-- Reads a change of a workflow. -/
def readWorkflowPatch (form : Form) : Reading WorkflowPatch := do
  let name ← form.optional ["name"] none (orNull filledText)
  let description ← form.optional ["description"] none text?
  let icon ← form.optional ["icon"] none text?
  let color ← form.optional ["color"] none text?
  let trigger ← form.optional ["trigger"] none (orNull object)
  let active ← form.optional ["active"] none (orNull truth)
  let steps ← readStepList form (orNull list)
  return { name, description, icon, color, trigger, active, steps }

/-- The changes that are asked for. -/
def WorkflowPatch.toChanges (p : WorkflowPatch) : Workflow.Changes where
  data := [(.text "name", .ofText? p.name), (.text "description", .ofText? p.description),
    (.text "icon", .ofText? p.icon), (.text "color", .ofText? p.color),
    (.text "trigger", (p.trigger.map Value.object).getD .null),
    (.text "active", (p.active.map Value.bool).getD .null)]
  spares := by simp [Workflow.keptColumns, Fields.get?]

/-- A new trigger. -/
structure NewTrigger where
  workspace : String
  workflow : String
  name : String
  creator : Option String
  deriving Inhabited

/-- Reads a new trigger. -/
def readNewTrigger (form : Form) : Reading NewTrigger := do
  let workspace ← form.required "workspace_id" filledText
  let workflow ← form.required "workflow_id" filledText
  let name ← form.required "name" filledText
  let creator ← form.optional ["created_by"] none text?
  return { workspace, workflow, name, creator }

/-- What an execution is started with. -/
structure ExecutionOrder where
  input : Value
  triggeredBy : Option String
  deriving Inhabited

/-- Reads what an execution is started with. -/
def readExecutionOrder (form : Form) : Reading ExecutionOrder := do
  let input ← form.optional ["input"] .null .ok
  let triggeredBy ← form.optional ["triggered_by"] none text?
  return { input, triggeredBy }

/-- Who started an execution, where nobody is named. -/
def ExecutionOrder.starter (o : ExecutionOrder) : String :=
  match o.triggeredBy with
  | some s => if s.isEmpty then Store.TriggerKind.manual.name else s
  | none => Store.TriggerKind.manual.name

/-- The number of executions to list, which is between one and 500. -/
def readLimit : Option String → Reading Nat
  | none => return Store.defaultListLimit
  | some s =>
    let limit := do
      let n ← readInt s
      let n ← atLeast 1 n
      let n ← atMost 500 n
      return n.toNat
    .check [.name "query", .name "limit"] limit

end Stepwise.Api
