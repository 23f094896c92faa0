import Stepwise.Execution.Program
import Stepwise.Outbound.Script
import Stepwise.Task.Store
import Stepwise.Trigger.Inbound

/-!
# Executions side by side

A server holds the database and the executions that have been started and not yet ended. An
execution in the background goes on until it ends or has to wait, for an answer that is held back or
in a delay that is not over; executions in the foreground do not wait. Executions belong to one of
two controllers, which share the database, but each can only reach its own executions with a
cancellation.
-/

namespace Stepwise

open Store

/-- Who started an execution. -/
inductive Controller
  | main
  | other
  deriving DecidableEq

/-- An outbound answer that an execution waits for. -/
structure Pending where
  outcome : Outbound.Outcome
  released : Bool

/-- An execution in the background. -/
structure Background where
  name : String
  controller : Controller
  program : Execution.Activity (Except Fault Execution.Report)
  pending : Option Pending

/-- The state of a server. -/
structure Server where
  db : Database
  now : Instant
  rules : Execution.Rules
  script : List Outbound.Scripted
  /-- The calls sent and not yet asked for. -/
  calls : List Outbound.Call
  /-- The executions that a cancellation can reach, in the order of their start. -/
  registered : List (Controller × String)
  /-- The executions that a cancellation was signalled to. -/
  signalled : List String
  background : List Background

namespace Server

/-- A server with nothing stored. -/
def fresh (rules : Execution.Rules) (script : List Outbound.Scripted) : Server :=
  ⟨.empty, ⟨0⟩, rules, script, [], [], [], []⟩

/-- Carries a transaction out. -/
def transact {α : Type} (s : Server) (t : Transaction α) : Except Fault α × Server :=
  let (r, db) := s.db.transact t
  (r, { s with db })

/-- Sends a call: the scripted answer, and the server after it. -/
def send (s : Server) (call : Outbound.Call) : Outbound.Scripted × Server :=
  let (entry, script) := Outbound.nextScripted s.script
  (entry, { s with script, calls := s.calls ++ [call] })

/-- Whether a wait is broken off by a cancellation: one that was signalled breaks off any wait but
that for no time. -/
def breaksOff (s : Server) (id : String) (micros : Option Nat) : Bool :=
  s.signalled.contains id && micros != some 0

/-- Answers a request of a run without delay. -/
def respondRun (s : Server) (id : String) : (r : Run.Request) → r.Answer × Server
  | .now => (s.now, s)
  | .cancelled => (s.signalled.contains id, s)
  | .wait micros => (s.breaksOff id micros, s)
  | .send call =>
    let (entry, s) := s.send call
    (entry.outcome, s)
  | .createTask fields => s.transact (Task.create s.now fields)
  | .updateTask task fields => s.transact (Task.update s.now task fields)
  | .deleteTask task => s.transact (Task.delete task)
  | .notify user title message => s.transact (Task.notify s.now user title message)

/-- Answers a request of an execution of a controller without delay. -/
def respond (controller : Controller) (s : Server) :
    (r : Execution.Request) → r.Answer × Server
  | .accept url payload signature =>
    s.transact (Trigger.accept s.now url (some payload) signature)
  | .load workflow => (Workflow.get? s.db.tables workflow, s)
  | .start workflow input triggeredBy =>
    s.transact (Execution.start s.now workflow input triggeredBy)
  | .register id => ((), { s with registered := s.registered ++ [(controller, id)] })
  | .withdraw id => ((), { s with registered := s.registered.filter (· != (controller, id)) })
  | .close id since closing =>
    let (closed, tables) := Execution.close since s.now id closing s.db.tables
    (closed, { s with db := { s.db with tables } })
  | .run id request => s.respondRun id request

/-- A wait of at least a second is not over before the execution is cancelled. -/
def isLong : Option Nat → Bool
  | some micros => decide (1000000 ≤ micros)
  | none => true

/-- Answers a request of an execution in the background, if it can be answered yet. A call is sent
once; its answer may be held back until it is released. -/
def respondLater (controller : Controller) :
    Server × Option Pending → (r : Execution.Request) →
      Option r.Answer × (Server × Option Pending)
  | (s, some pending), .run _ (.send _) =>
    if pending.released then (some pending.outcome, (s, none)) else (none, (s, some pending))
  | (s, none), .run _ (.send call) =>
    let (entry, s) := s.send call
    if entry.held then (none, (s, some ⟨entry.outcome, false⟩)) else (some entry.outcome, (s, none))
  | (s, pending), .run id (.wait micros) =>
    if isLong micros && !s.breaksOff id micros then (none, (s, pending))
    else (some (s.breaksOff id micros), (s, pending))
  | (s, pending), request =>
    let (answer, s) := s.respond controller request
    (some answer, (s, pending))

/-- Runs an execution in the foreground. -/
def run {α : Type} (s : Server) (controller : Controller) (e : Execution.Activity α) :
    α × Server :=
  Program.run (I := Execution.surroundings) (respond controller) e s

/-- Lets an execution in the background go on as far as it can. -/
def advance (s : Server) (b : Background) : Background × Server :=
  let (program, (s, pending)) :=
    Program.advance (I := Execution.surroundings) (respondLater b.controller) b.program
      (s, b.pending)
  ({ b with program, pending }, s)

/-- Lets the given executions go on one after the other. -/
def advanceEach (s : Server) : List Background → List Background × Server
  | [] => ([], s)
  | b :: rest =>
    let (b, s) := s.advance b
    let (rest, s) := s.advanceEach rest
    (b :: rest, s)

/-- Lets all executions in the background go on in the order of their start. -/
def settle (s : Server) : Server :=
  let (background, s) := s.advanceEach s.background
  { s with background }

/-- Starts an execution in the background under a name. -/
def launch (s : Server) (name : String) (controller : Controller)
    (e : Execution.Activity (Except Fault Execution.Report)) : Server :=
  settle { s with background := s.background ++ [⟨name, controller, e, none⟩] }

/-- How the execution of a name ended, if it has ended. -/
def result? (s : Server) (name : String) : Option (Except Fault Execution.Report) :=
  (s.background.find? (·.name == name)).bind fun b =>
    match b.program with
    | .done r => some r
    | .ask _ _ => none

/-- The executions that a controller's cancellation can reach, in the order of their start. -/
def running (s : Server) (controller : Controller) : List String :=
  (s.registered.filter (·.1 == controller)).map (·.2)

/-- Releases all answers that are held back: how many there were. -/
def release (s : Server) : Nat × Server :=
  let isHeld (b : Background) : Bool := b.pending.any (!·.released)
  let background := s.background.map fun b =>
    { b with pending := b.pending.map fun p => { p with released := true } }
  ((s.background.filter isHeld).length, { s with background })

/-- Signals a cancellation to an execution, if the controller can reach it. -/
def signal (s : Server) (controller : Controller) (id : String) : Server :=
  if s.registered.contains (controller, id) then { s with signalled := s.signalled ++ [id] } else s

/-- Cancels an execution: its record after the cancellation. -/
def cancel (s : Server) (controller : Controller) (id : String) :
    Except Fault ExecutionRow × Server :=
  match Execution.checkCancel s.db.tables id with
  | .error fault => (.error fault, s)
  | .ok row =>
    let tables := Execution.commitCancel s.now id s.db.tables
    let s := { s with db := { s.db with tables } }
    (.ok (Execution.cancelled s.now row), s.signal controller id)

/-- Executes a workflow with an input that is not JSON, which fails when the execution is to be
recorded. -/
def executeRaw (s : Server) (workflow : String) : Fault × Server :=
  match Workflow.get? s.db.tables workflow with
  | none => (.workflowInactive, s)
  | some stored =>
    if !stored.row.active then (.workflowInactive, s)
    else
      match Execution.treeOf stored with
      | .error fault => (fault, s)
      | .ok _ =>
        match s.transact Execution.startRaw with
        | (.error fault, s) => (fault, s)

/-- Takes in a call whose payload is not JSON. If it is accepted it is counted, but its execution
fails. -/
def receiveRaw (s : Server) (url : String) (signature : Option String) : Fault × Server :=
  match s.transact (Trigger.accept s.now url none signature) with
  | (.error fault, s) => (fault, s)
  | (.ok workflow, s) => s.executeRaw workflow

/-- The calls sent since the last time, and the server without them. -/
def takeCalls (s : Server) : List Outbound.Call × Server := (s.calls, { s with calls := [] })

end Server

end Stepwise
