import Stepwise.Run.Log
import Stepwise.Store.Schema

/-!
# The records of executions

An execution is recorded as running before its first step, and ends in one of three states. The
record of a run that has ended is closed only if it is still running, so a cancellation that came
first stays. A cancellation is made in two parts, a check and a write, between which other writes
may come.
-/

namespace Stepwise.Execution

open Store

/-- The record of an id. -/
def find? (tables : Tables) (id : String) : Option ExecutionRow :=
  tables.executions.find? (·.id == id)

/-- Records a new running execution, if its input can be written. -/
def start (now : Instant) (workflow : String) (input : Value) (triggeredBy : Option String) :
    Transaction String := do
  let id ← Transaction.drawRowId
  if !Json.isShort input then .fail (.longInt true)
  else
    let tables ← Transaction.tables
    let row : ExecutionRow :=
      { id, workflow, status := Status.running.name, input := Json.settle input, output := .null
        log := .list [], error := none, triggeredBy, started := now, completed := none
        duration := none, created := now, updated := now }
    if (find? tables id).isSome then
      .fail (.refused (.notUnique executionTable.name "id") (executionTable.insertionOf row))
    else
      .modify fun tables => { tables with executions := tables.executions ++ [row] }
      return id

/-- Fails to record an execution whose input is not JSON; the id that was drawn for it is lost. -/
def startRaw : Transaction Empty := do
  let _ ← Transaction.drawRowId
  .fail (.unwritable true)

/-- How a run ended, with what is recorded of it. -/
inductive Closing
  | completed (output : Fields) (log : List Run.Entry)
  | failed (error : String) (log : List Run.Entry)

/-- The state that an ended run is recorded in. -/
def Closing.status : Closing → Status
  | .completed _ _ => .completed
  | .failed _ _ => .failed

/-- The milliseconds between two times. -/
def elapsed (since now : Instant) : Int := (now.micros - since.micros) / 1000

/-- A record with the end of its run. -/
def Closing.write (c : Closing) (since now : Instant) (row : ExecutionRow) : ExecutionRow :=
  let row := { row with
    status := c.status.name, completed := some now, duration := some (elapsed since now)
    updated := now }
  match c with
  | .completed output log =>
    { row with output := Json.settle (.object output), log := Run.logValue log }
  | .failed error log => { row with error := some error, log := Run.logValue log }

/-- A record that is not closed yet. -/
def isOpen (row : ExecutionRow) : Bool := row.status == Status.running.name

/-- Closes a record if it is still running: whether it was, and the tables. -/
def close (since now : Instant) (id : String) (c : Closing) (tables : Tables) : Bool × Tables :=
  (tables.executions.any fun row => row.id == id && isOpen row,
    { tables with
      executions := tables.executions.map fun row =>
        if row.id == id && isOpen row then c.write since now row else row })

/-- The first part of a cancellation: the record as it was read, if it may be cancelled. -/
def checkCancel (tables : Tables) (id : String) : Except Fault ExecutionRow :=
  match find? tables id with
  | none => .error .executionMissing
  | some row => if isOpen row then .ok row else .error (.executionEnded row.status)

/-- A record as a cancellation leaves it. -/
def cancelled (now : Instant) (row : ExecutionRow) : ExecutionRow :=
  { row with status := Status.cancelled.name, completed := some now, updated := now }

/-- The second part of a cancellation: the write, whatever the record has become meanwhile. -/
def commitCancel (now : Instant) (id : String) (tables : Tables) : Tables :=
  { tables with
    executions := tables.executions.map fun row =>
      if row.id == id then cancelled now row else row }

/-- The executions of a workflow, the newest first. -/
def list (tables : Tables) (workflow : String) (limit : Option Nat) : List ExecutionRow :=
  let rows := (tables.executions.filter (·.workflow == workflow)).mergeSort fun a b =>
    decide (b.started.micros ≤ a.started.micros)
  match limit with
  | some limit => rows.take limit
  | none => rows

end Stepwise.Execution
