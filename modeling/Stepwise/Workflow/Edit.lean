import Stepwise.Store.Schema
import Stepwise.Workflow.StepSet

/-!
# Creating, changing and deleting workflows

A workflow is stored with its steps. A change sets the given fields and counts the version up by
one; with a step list it also replaces all steps. A change is made in two parts, the reading of the
workflow and the writing, between which other changes may come. A deletion takes the steps and the
executions along.
-/

namespace Stepwise.Workflow

open Store

/-- What a new workflow is made of; a workspace and a name are needed. -/
structure Draft where
  workspace : Option String
  name : Option String
  description : Option String
  icon : Option String
  color : Option String
  trigger : Value
  creator : Option String
  steps : List Fields

/-- The columns of a workflow that no change gives values for: ids stay, and versions and times are
kept by the store. -/
def keptColumns : List String := ["id", "version", "created_at", "updated_at"]

/-- New values for columns of a workflow; a column without one keeps its content. -/
structure Changes where
  data : Fields
  spares : ∀ name ∈ keptColumns, data.get? (.text name) = none

/-- A workflow with its steps by position. -/
structure Stored where
  row : WorkflowRow
  steps : List StepRow

/-- The steps of a workflow by position. -/
def stepsOf (tables : Tables) (id : String) : List StepRow :=
  (tables.steps.filter (·.workflow == id)).mergeSort fun a b => decide (a.position ≤ b.position)

/-- The row of a workflow. -/
def find? (tables : Tables) (id : String) : Option WorkflowRow :=
  tables.workflows.find? (·.id == id)

/-- A workflow with its steps. -/
def get? (tables : Tables) (id : String) : Option Stored :=
  (find? tables id).map fun row => ⟨row, stepsOf tables id⟩

/-- The insertion of the row of an accepted step. -/
def insertionOfStep (s : NewStep) : Statement :=
  stepTable.insertion [.text s.workflow, s.name, s.type, ColumnSort.json.bound s.config,
    .int s.position, .ofText? s.parent, .ofText? s.next, .text s.id]

/-- The content that a column of texts gets from a field of an accepted step. -/
def textCell (s : NewStep) (column : String) (value : Value) : Except Fault Cell :=
  ColumnSort.text.cell ⟨insertionOfStep s, placeOf stepTable.columns column⟩ value

/-- The text in a column of steps, which must not be empty. -/
def needed (s : NewStep) (column : String) : Cell → Except Fault String
  | .text text => .ok text
  | _ => .error (.refused (.notNull stepTable.name column) (insertionOfStep s))

/-- The row of an accepted step. -/
def stepRow (now : Instant) (s : NewStep) : Except Fault StepRow := do
  let name ← textCell s "name" s.name
  let type ← textCell s "type" s.type
  let name ← needed s "name" name
  let type ← needed s "type" type
  let row : StepRow :=
    { id := s.id, workflow := s.workflow, name, type, config := Json.settle s.config
      position := s.position, parent := s.parent, next := s.next, created := now, updated := now }
  return row

/-- Builds the steps of a set with ids from the supply. -/
def buildSteps (workflow : String) (steps : List Fields) : Transaction (List NewStep) :=
  fun tables supply =>
    let (built, fresh) := StepSet.build workflow supply.fresh steps
    (built.map (·, tables), { supply with fresh })

/-- Draws the id of a workflow. -/
def drawId : Transaction String := fun tables supply =>
  (.ok (StepSet.freshId supply.fresh, tables), { supply with fresh := supply.fresh + 1 })

/-- Stores the rows of accepted steps after those that are there. -/
def insertSteps (now : Instant) (steps : List NewStep) : Transaction Unit := do
  let rows ← .ofExcept (steps.mapM (stepRow now))
  let tables ← Transaction.tables
  match rows.find? fun row => tables.steps.any (·.id == row.id) with
  | some row => .fail (.refused (.notUnique stepTable.name "id") (stepTable.insertionOf row))
  | none => .modify fun tables => { tables with steps := tables.steps ++ rows }

/-- Stores the row of a workflow after those that are there. -/
def insertRow (row : WorkflowRow) : Transaction Unit := do
  let tables ← Transaction.tables
  if (find? tables row.id).isSome then
    .fail (.refused (.notUnique workflowTable.name "id") (workflowTable.insertionOf row))
  else .modify fun tables => { tables with workflows := tables.workflows ++ [row] }

/-- The trigger of a new workflow. -/
def Draft.startedBy (d : Draft) : Value := d.trigger.orElse manualTrigger

/-- The insertion of a new workflow under an id. -/
def Draft.insertion (d : Draft) (id : String) : Statement :=
  workflowTable.insertion [.ofText? d.workspace, .ofText? d.creator, .ofText? d.name,
    .ofText? d.description, .ofText? d.icon, .ofText? d.color, ColumnSort.json.bound d.startedBy,
    .int 1, .int 1, .text id]

/-- Creates a workflow with its steps. -/
def create (now : Instant) (d : Draft) : Transaction Stored := do
  let id ← drawId
  let steps ← buildSteps id d.steps
  match d.workspace, d.name with
  | none, _ => .fail (.refused (.notNull workflowTable.name "workspace_id") (d.insertion id))
  | _, none => .fail (.refused (.notNull workflowTable.name "name") (d.insertion id))
  | some workspace, some name =>
    let row : WorkflowRow :=
      { id, workspace, creator := d.creator, name, description := d.description, icon := d.icon
        color := d.color, trigger := Json.settle d.startedBy, active := true
        version := 1, created := now, updated := now }
    insertRow row
    insertSteps now steps
    let tables ← Transaction.tables
    return ⟨row, stepsOf tables id⟩

/-- The changes that named values make, apart from the columns that no change gives values for. -/
def Changes.ofFields (data : Fields) : Changes where
  data := data.filter fun (key, _) => keptColumns.all fun name => !key.same (.text name)
  spares := fun name hname => by
    refine Fields.get?_filter_eq_none data fun key _ hkept => ?_
    simpa using List.all_eq_true.mp hkept name hname

/-- A change that was read and is not yet written. -/
structure Edit where
  /-- The workflow as it was read. -/
  row : WorkflowRow
  changes : Changes
  /-- The steps that replace the old ones. -/
  steps : Option (List NewStep)

namespace Edit

/-- The version that will be written, which counts on from the one that was read. -/
def version (e : Edit) : Int := e.row.version + 1

/-- The values that are given, with the version. -/
def data (e : Edit) : Fields := e.changes.data.set (.text "version") (.int e.version)

/-- The columns that will be written: those that differ from what was read. -/
def values (e : Edit) : List (Column WorkflowRow × Value) :=
  workflowTable.changes e.row e.data

end Edit

/-- Reads what a change needs: the workflow, and the accepted steps. -/
def beginEdit (id : String) (changes : Changes) (steps : Option (List Fields)) :
    Transaction Edit := do
  let tables ← Transaction.tables
  match find? tables id with
  | none => .fail .workflowMissing
  | some row =>
    let steps ← match steps with
      | none => pure none
      | some steps => Option.some <$> buildSteps id steps
    return ⟨row, changes, steps⟩

/-- Writes a change that was read. -/
def commitEdit (now : Instant) (e : Edit) : Transaction Unit := do
  let _ ← workflowTable.rewrite now e.row.id e.values
  match e.steps with
  | none => return ()
  | some steps =>
    .modify fun tables =>
      { tables with steps := tables.steps.filter (·.workflow != e.row.id) }
    insertSteps now steps

/-- Changes a workflow at once. -/
def update (now : Instant) (id : String) (changes : Changes) (steps : Option (List Fields)) :
    Transaction (Option Stored) := do
  let edit ← beginEdit id changes steps
  commitEdit now edit
  let tables ← Transaction.tables
  return get? tables id

/-- Deletes a workflow with its steps and executions: whether there was one. -/
def delete (id : String) : Transaction Bool := do
  let tables ← Transaction.tables
  if (find? tables id).isNone then return false
  else
    .modify fun tables =>
      { tables with
        workflows := tables.workflows.filter (·.id != id)
        steps := tables.steps.filter (·.workflow != id)
        executions := tables.executions.filter (·.workflow != id) }
    return true

/-- The workflows of a workspace with their numbers of executions, the last changed first. -/
def list (tables : Tables) (workspace : String) : List (Stored × Nat) :=
  let rows := tables.workflows.filter (·.workspace == workspace)
  let rows := rows.mergeSort fun a b =>
    decide (b.updated.micros < a.updated.micros
      ∨ (b.updated = a.updated ∧ b.created.micros ≤ a.created.micros))
  rows.map fun row =>
    (⟨row, stepsOf tables row.id⟩, (tables.executions.filter (·.workflow == row.id)).length)

end Stepwise.Workflow
