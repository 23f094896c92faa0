import Stepwise.Execution.Record
import Stepwise.Run.Executor
import Stepwise.Step.Config
import Stepwise.Workflow.Edit

/-!
# Executing a stored workflow

An execution reads the workflow and its steps, records itself as running, registers so that a
cancellation can reach it, runs the steps and closes its record. Every access to the database is one
request, so other executions and cancellations may come in between. The result tells how the
execution ended: with the variables of the run, or with the fault that the record shows too, or as
cancelled.
-/

namespace Stepwise.Execution

open Store

/-- A request of an execution. -/
inductive Request
  /-- To count an inbound call and learn which workflow it starts. -/
  | accept (url : String) (payload : Value) (signature : Option String)
  /-- To read a workflow with its steps. -/
  | load (workflow : String)
  /-- To record a running execution. -/
  | start (workflow : String) (input : Value) (triggeredBy : Option String)
  /-- To be reachable for cancellations. -/
  | register (id : String)
  /-- No longer to be reachable. -/
  | withdraw (id : String)
  /-- To close the record of an execution that has run since a time. -/
  | close (id : String) (since : Instant) (closing : Closing)
  /-- What the run of the steps asks. -/
  | run (id : String) (request : Run.Request)

/-- The answers to a request. -/
@[reducible] def Request.Answer : Request → Type
  | .accept _ _ _ => Except Fault String
  | .load _ => Option Workflow.Stored
  | .start _ _ _ => Except Fault String
  | .register _ => Unit
  | .withdraw _ => Unit
  | .close _ _ _ => Bool
  | .run _ request => request.Answer

/-- The surroundings of an execution. -/
@[reducible] def surroundings : Interface := ⟨Request, Request.Answer⟩

/-- An execution or a part of one. -/
abbrev Activity (α : Type) := Program surroundings α

/-- Makes one request. -/
def ask (r : Request) : Activity r.Answer := Program.request (I := surroundings) r

/-- What a successful execution reports. -/
structure Report where
  id : String
  output : Fields

/-- The rules that executions follow. -/
structure Rules where
  /-- The record of a failed execution keeps its log. -/
  keepLogs : Bool
  /-- How deep steps may be nested. -/
  limit : Int

/-- Runs the steps of a workflow as an execution of the given id. -/
def runSteps (rules : Rules) (id : String) (tree : StepTree) (input : Value) :
    Activity (Except Fault Unit × Run.Context) :=
  (Run.runTree tree rules.limit ⟨input, [], []⟩).lift (J := surroundings) (.run id)
    fun _ answer => answer

/-- Ends an execution: closes its record unless it was cancelled. -/
def conclude (rules : Rules) (id : String) (since : Instant) (outcome : Except Fault Unit)
    (context : Run.Context) : Activity (Except Fault Report) :=
  match outcome with
  | .error .cancelled => do
    ask (.withdraw id)
    return .error .cancelled
  | .error fault => do
    let log := if rules.keepLogs then context.log else []
    let _ ← ask (.close id since (.failed fault.recorded log))
    ask (.withdraw id)
    return .error fault
  | .ok () => do
    let cancelled : Bool ← ask (.run id .cancelled)
    ask (.withdraw id)
    if cancelled then return .error .cancelled
    else
      let closed : Bool ← ask (.close id since (.completed context.vars context.log))
      return if closed then .ok ⟨id, context.vars⟩ else .error .cancelled

/-- The step that a row describes, if its configuration can be read. -/
def readStep (r : StepRow) : Except Fault Step := r.toStep <$> Step.readConfig r.config

/-- The tree of the steps of a stored workflow, if they can be read. -/
def treeOf (stored : Workflow.Stored) : Except Fault StepTree :=
  .ofSteps <$> stored.steps.mapM readStep

/-- Executes a workflow. -/
def execute (rules : Rules) (workflow : String) (input : Value) (triggeredBy : Option String) :
    Activity (Except Fault Report) := do
  let stored : Option Workflow.Stored ← ask (.load workflow)
  match stored with
  | none => return .error .workflowInactive
  | some stored =>
    if !stored.row.active then return .error .workflowInactive
    else
      match treeOf stored with
      | .error fault => return .error fault
      | .ok tree =>
        let started : Except Fault String ← ask (.start workflow input triggeredBy)
        match started with
        | .error fault => return .error fault
        | .ok id =>
          ask (.register id)
          let since : Instant ← ask (.run id .now)
          let (outcome, context) ← runSteps rules id tree input
          conclude rules id since outcome context

/-- Executes the workflow of an inbound call, if the call is accepted. -/
def executeInbound (rules : Rules) (tag url : String) (payload : Value)
    (signature : Option String) : Activity (Except Fault Report) := do
  let accepted : Except Fault String ← ask (.accept url payload signature)
  match accepted with
  | .error fault => return .error fault
  | .ok workflow => execute rules workflow payload (some tag)

end Stepwise.Execution
