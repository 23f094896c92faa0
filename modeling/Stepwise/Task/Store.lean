import Stepwise.Store.Schema

/-!
# The store behind runs

Runs create, change and delete tasks and create notifications. Every operation is a transaction of
its own, so what a step has done stays done when a later step fails. A task is handed to the run as
an object with the names that steps are configured by.
-/

namespace Stepwise.Task

open Store

/-- The names that steps are configured by, with the columns they stand for. -/
def columnNames : List (String × String) :=
  [("title", "title"), ("description", "description"), ("projectId", "project_id"),
    ("assigneeId", "assignee_id"), ("status", "status"), ("priority", "priority")]

/-- The values that configured fields give to columns; nulls and other names are passed over. -/
def columnsOf (fields : Fields) : Fields :=
  fields.filterMap fun (key, value) =>
    match key, value with
    | _, .null => none
    | .text name, value => (columnNames.lookup name).map fun column => (.text column, value)
    | _, _ => none

/-- A task as it is handed to a run. -/
def toFields (r : TaskRow) : Fields :=
  [(.text "id", .text r.id), (.text "projectId", .ofText? r.project),
    (.text "title", .text r.title), (.text "description", .ofText? r.description),
    (.text "status", .text r.status), (.text "priority", .text r.priority),
    (.text "assigneeId", .ofText? r.assignee),
    (.text "createdAt", .text r.created.text), (.text "updatedAt", .text r.updated.text)]

/-- The id that a value names a task by. -/
def idOf? (id : Value) : Except Fault String :=
  if id.isTruthy then
    match storedText? id, id with
    | some s, _ => .ok s
    | none, .double _ => .error (.taskMissing id)
    | none, .int _ => .error .intTooLong
    | none, id => .error (.unhashable id.kind)
  else .error (.taskMissing id)

/-- Creates a task. -/
def create (now : Instant) (fields : Fields) : Transaction Value := do
  let row ← taskTable.insert now (columnsOf fields)
  return .object (toFields row)

/-- Changes the given fields of a task. -/
def update (now : Instant) (id : Value) (fields : Fields) : Transaction Value := do
  let name ← .ofExcept (idOf? id)
  match ← taskTable.update now name (columnsOf fields) with
  | some row => return .object (toFields row)
  | none => .fail (.taskMissing id)

/-- Deletes a task. -/
def delete (id : Value) : Transaction Unit := do
  let name ← .ofExcept (idOf? id)
  if ← taskTable.delete name then return () else .fail (.taskMissing id)

/-- Creates a notification. -/
def notify (now : Instant) (user title message : Value) : Transaction Unit := do
  let _ ← notificationTable.insert now
    [(.text "user_id", user), (.text "title", title), (.text "message", message)]

/-- All tasks as they are handed to runs, the oldest first. -/
def list (tables : Tables) : List Fields :=
  (tables.tasks.mergeSort fun a b => decide (a.created.micros ≤ b.created.micros)).map toFields

end Stepwise.Task
