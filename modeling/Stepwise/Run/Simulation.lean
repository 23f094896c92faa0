import Stepwise.Outbound.Script
import Stepwise.Run.Executor

/-!
# Simulated surroundings

Surroundings in which a run can be watched: a clock that moves only while the run waits, scripted
answers to calls, tasks held in memory, and a cancellation that comes at a given time or on a given
event. Everything the run asks of the store and sends outside is kept in order.
-/

namespace Stepwise.Run

/-- What happens when the store is asked for an operation. -/
inductive Trouble
  /-- The operation fails. -/
  | fails (message : String)
  /-- The operation succeeds, but the run is cancelled meanwhile. -/
  | cancels

/-- The operations of a store. -/
inductive StoreOperation
  | createTask
  | updateTask
  | deleteTask
  | notify
  deriving DecidableEq

/-- The name of an operation. -/
def StoreOperation.name : StoreOperation → String
  | .createTask => "create_task"
  | .updateTask => "update_task"
  | .deleteTask => "delete_task"
  | .notify => "create_notification"

/-- The state of simulated surroundings. -/
structure Simulation where
  clock : Nat
  /-- The cancellation was signalled. -/
  signalled : Bool
  /-- The run looks at the signal. -/
  heeded : Bool
  /-- When the signal comes, if it is not there yet. -/
  signalAt : Option Nat
  script : List Outbound.Scripted
  tasks : Fields
  /-- How many tasks were created. -/
  created : Nat
  troubles : List (StoreOperation × Trouble)
  /-- The operations asked of the store, with their arguments. -/
  operations : List (StoreOperation × List Value)
  calls : List Outbound.Call

namespace Simulation

/-- Lets time pass; the signal comes if its time is reached. -/
def pass (s : Simulation) (micros : Nat) : Simulation :=
  let clock := s.clock + micros
  match s.signalAt with
  | some time =>
    if 0 < micros ∧ time ≤ clock then { s with clock, signalled := true, signalAt := none }
    else { s with clock }
  | none => { s with clock }

/-- Waits: whether the signal broke the wait off, and the state at its end. -/
def wait (s : Simulation) (micros : Nat) : Bool × Simulation :=
  if micros = 0 then (false, s)
  else if s.heeded then
    if s.signalled then (true, s)
    else
      match s.signalAt with
      | some time =>
        if time ≤ s.clock + micros then
          (true, { s with clock := max s.clock time, signalled := true, signalAt := none })
        else (false, { s with clock := s.clock + micros })
      | none => (false, { s with clock := s.clock + micros })
  else (false, s.pass micros)

/-- Sends a call. -/
def send (s : Simulation) (call : Outbound.Call) : Outbound.Outcome × Simulation :=
  let (entry, script) := Outbound.nextScripted s.script
  let s := { s with script, calls := s.calls ++ [call], signalled := s.signalled || entry.cancels }
  (entry.outcome, s.pass entry.delay)

/-- Performs an operation of the store: it is kept, and then fails or takes effect. -/
def operate {α : Type} (s : Simulation) (operation : StoreOperation) (arguments : List Value)
    (effect : Simulation → Except Fault α × Simulation) : Except Fault α × Simulation :=
  let s := { s with operations := s.operations ++ [(operation, arguments)] }
  match s.troubles.lookup operation with
  | some (.fails message) => (.error (.storeFailure message), s)
  | some .cancels => effect { s with signalled := true }
  | none => effect s

/-- A new task with the given fields. -/
def createTask (fields : Fields) (s : Simulation) : Except Fault Value × Simulation :=
  let id := "task-" ++ toString (s.created + 1)
  let task : Fields := Fields.merge [(.text "id", .text id)] fields
  (.ok (.object task),
    { s with created := s.created + 1, tasks := s.tasks.set (.text id) (.object task) })

/-- The task of an id. -/
def findTask (s : Simulation) (id : Value) : Except Fault (Key × Value) :=
  match id.toKey? with
  | none => .error (.unhashable id.kind)
  | some key =>
    match s.tasks.get? key with
    | some task => .ok (key, task)
    | none => .error (.taskMissing id)

/-- Changes fields of a task. -/
def updateTask (id : Value) (fields : Fields) (s : Simulation) :
    Except Fault Value × Simulation :=
  match s.findTask id with
  | .error fault => (.error fault, s)
  | .ok (key, task) =>
    let old := match task with
      | .object old => old
      | _ => []
    let task := Value.object (Fields.merge old fields)
    (.ok task, { s with tasks := s.tasks.set key task })

/-- Removes a task. -/
def deleteTask (id : Value) (s : Simulation) : Except Fault Unit × Simulation :=
  match s.findTask id with
  | .error fault => (.error fault, s)
  | .ok (key, _) => (.ok (), { s with tasks := s.tasks.filter fun (k, _) => !k.same key })

/-- Answers a request. -/
def respond (s : Simulation) : (r : Request) → r.Answer × Simulation
  | .now => (⟨s.clock⟩, s)
  | .cancelled => (s.heeded && s.signalled, s)
  | .wait micros => s.wait (micros.getD 0)
  | .send call => s.send call
  | .createTask fields => s.operate .createTask [.object fields] (createTask fields)
  | .updateTask id fields => s.operate .updateTask [id, .object fields] (updateTask id fields)
  | .deleteTask id => s.operate .deleteTask [id] (deleteTask id)
  | .notify user title message =>
    s.operate .notify [user, title, message] fun s => (.ok (), s)

/-- Runs a stage from a context: how it ends, the context, and the surroundings after it. -/
def run (s : Simulation) (stage : Stage Unit) (context : Context) :
    (Except Fault Unit × Context) × Simulation :=
  (stage context).run (I := surroundings) respond s

end Simulation

end Stepwise.Run
