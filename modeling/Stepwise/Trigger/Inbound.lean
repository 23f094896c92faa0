import Stepwise.Signature.Hmac
import Stepwise.Signature.Token
import Stepwise.Store.Schema

/-!
# Triggers and inbound calls

A trigger is the address at which calls from outside start a workflow. A call is accepted if the
trigger exists and is active, and if the call is unsigned or its signature is the one expected. An
accepted call is counted before the workflow runs; a refused one leaves no trace.
-/

namespace Stepwise.Trigger

open Store

/-- The tag of executions that inbound calls start. -/
def sourceTag : String := "webhook"

/-- Draws a number for an address or a secret. -/
def drawToken : Transaction Nat := fun tables supply =>
  (.ok (supply.token, tables), { supply with token := supply.token + 1 })

/-- Creates a trigger of a workflow with an address and a secret of its own. -/
def create (now : Instant) (workspace workflow name : Option String) (creator : Option String) :
    Transaction TriggerRow := do
  let tables ← Transaction.tables
  match workflow with
  | none => .fail .workflowMissing
  | some workflow =>
    if !tables.workflows.any (·.id == workflow) then .fail .workflowMissing
    else
      let url := Signature.address (← drawToken)
      let secret := Signature.secret (← drawToken)
      let id ← Transaction.drawRowId
      let insertion := triggerTable.insertion
        [.ofText? workspace, .text workflow, .ofText? creator, .ofText? name, .text url,
          .text secret, .int 1, .null, .int 0, .text id]
      match workspace, name with
      | none, _ => .fail (.refused (.notNull triggerTable.name "workspace_id") insertion)
      | _, none => .fail (.refused (.notNull triggerTable.name "name") insertion)
      | some workspace, some name =>
        let row : TriggerRow :=
          { id, workspace, workflow, creator, name, url, secret, active := true
            lastTriggered := none, count := 0, created := now, updated := now }
        let tables ← Transaction.tables
        if tables.triggers.any (·.id == id) then
          .fail (.refused (.notUnique triggerTable.name "id") (triggerTable.insertionOf row))
        else if tables.triggers.any (·.url == url) then
          .fail (.refused (.notUnique triggerTable.name "url") (triggerTable.insertionOf row))
        else
          .modify fun tables => { tables with triggers := tables.triggers ++ [row] }
          return row

/-- The trigger at an address. -/
def find? (tables : Tables) (url : String) : Option TriggerRow :=
  tables.triggers.find? (·.url == url)

/-- The triggers of a workspace, the newest first. -/
def list (tables : Tables) (workspace : String) (limit : Option Nat) : List TriggerRow :=
  let rows := (tables.triggers.filter (·.workspace == workspace)).mergeSort fun a b =>
    decide (b.created.micros ≤ a.created.micros)
  match limit with
  | some limit => rows.take limit
  | none => rows

/-- Whether the signature of a call is admitted: there is none, or it is the one expected. A payload
that is not JSON has no signature. -/
def admits (row : TriggerRow) (payload : Option Value) (signature : Option String) :
    Except Fault Bool :=
  match signature with
  | none => .ok true
  | some signature =>
    if signature.isEmpty then .ok true
    else
      match payload with
      | some payload =>
        Signature.verify (.ofValue payload) (Text.points row.secret) (Text.points signature)
      | none => .error (.unwritable false)

/-- Counts a call of a trigger. -/
def count (now : Instant) (id : String) (tables : Tables) : Tables :=
  { tables with
    triggers := tables.triggers.map fun row =>
      if row.id == id then
        { row with count := row.count + 1, lastTriggered := some now, updated := now }
      else row }

/-- Accepts or refuses a call: the workflow that an accepted one starts. -/
def accept (now : Instant) (url : String) (payload : Option Value) (signature : Option String) :
    Transaction String := do
  match find? (← Transaction.tables) url with
  | none => .fail .triggerMissing
  | some row =>
    if !row.active then .fail .triggerMissing
    else if !(← .ofExcept (admits row payload signature)) then .fail .wrongSignature
    else
      .modify (count now row.id)
      return row.workflow

end Stepwise.Trigger
