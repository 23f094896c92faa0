import Stepwise.Proofs.Execution.Account
import Stepwise.Proofs.Execution.Record
import Stepwise.Server

/-!
# An execution among cancellations

One execution and any number of cancellations of its record, each of which moves in its own steps:
a cancellation reads the record, writes it, and looks up whom to signal; the execution makes one
request after another. A schedule is a list of such moves in any order, with the clock and the
deletion of workflows between them.
-/

namespace Stepwise.Execution

open Store

/-- How far a cancellation has come. -/
inductive Phase
  /-- It is asked for. -/
  | asked
  /-- It has read the record as running. -/
  | checked
  /-- It has written the record. -/
  | committed
  /-- It has returned; `live` if it found the execution and signalled to it. -/
  | returned (live : Bool)
  /-- It was refused after it had read. -/
  | refused (fault : Fault)
  /-- The record was gone when it was to be written. -/
  | lost

/-- The cancellation has written the record. -/
def Phase.hasWritten : Phase → Bool
  | .committed | .returned _ => true
  | .asked | .checked | .refused _ | .lost => false

/-- A cancellation by one of the controllers. -/
structure Cancel where
  controller : Controller
  phase : Phase

/-- The next move of a cancellation of an id: how far it has come, and the server after it. -/
def Cancel.next (c : Cancel) (id : String) (s : Server) : Phase × Server :=
  match c.phase with
  | .asked =>
    match checkCancel s.db.tables id with
    | .ok _ => (.checked, s)
    | .error fault => (.refused fault, s)
  | .checked =>
    if (find? s.db.tables id).isNone then (.lost, s)
    else (.committed, { s with db := { s.db with tables := commitCancel s.now id s.db.tables } })
  | .committed => (.returned (s.registered.contains (c.controller, id)), s.signal c.controller id)
  | .returned live => (.returned live, s)
  | .refused fault => (.refused fault, s)
  | .lost => (.lost, s)

/-- The moves of a cancellation that nothing comes between are those of a cancellation made at
once. -/
theorem Cancel.next_eq_cancel (controller : Controller) (id : String) (s : Server) :
    let read := Cancel.next ⟨controller, .asked⟩ id s
    let written := Cancel.next ⟨controller, read.1⟩ id read.2
    let done := Cancel.next ⟨controller, written.1⟩ id written.2
    done.2 = (s.cancel controller id).2 ∧
      match (s.cancel controller id).1 with
      | .ok _ => ∃ live, done.1 = .returned live
      | .error fault => done.1 = .refused fault := by
  dsimp only
  cases h : checkCancel s.db.tables id with
  | error fault => simp [next, Server.cancel, h]
  | ok row =>
    have hfound : (find? s.db.tables id).isNone = false := by
      unfold checkCancel at h
      split at h
      · cases h
      · rename_i hrow
        rw [hrow]
        rfl
    simp [next, Server.cancel, h, hfound]

theorem Cancel.next_of_returned (c : Cancel) {live : Bool} (h : c.phase = .returned live)
    (id : String) (s : Server) : (c.next id s).1 = .returned live := by
  simp [next, h]

/-- The readings of the clock that an activity begins with; they take no turn of their own. -/
def readClock {α : Type} (now : Instant) : Activity α → Activity α
  | .ask (.run _ .now) next => readClock now (next now)
  | activity => activity

theorem readClock_of_ne {α : Type} (now : Instant) {activity : Activity α}
    (h : ∀ id (next : Instant → Activity α), activity ≠ .ask (.run id .now) next) :
    readClock now activity = activity := readClock.eq_2 now activity h

/-- No reading of the clock is left to do. -/
theorem readClock_ne {α : Type} (now : Instant) (activity : Activity α) (id : String)
    (next : Instant → Activity α) : readClock now activity ≠ .ask (.run id .now) next := by
  induction activity using readClock.induct now with
  | case1 id' next' ih => exact ih
  | case2 activity h =>
    rw [readClock.eq_2 now activity h]
    exact h id next

/-- An execution with the cancellations of its record. -/
structure World where
  server : Server
  program : Activity (Except Fault Report)
  /-- The id of its record, once there is one. -/
  opened : Option String
  cancels : List Cancel

/-- A move. -/
inductive Event
  /-- The execution has its request answered, and goes on to the next one. -/
  | run
  /-- Someone asks for a cancellation. -/
  | arrive (controller : Controller)
  /-- A cancellation moves on. -/
  | advance (n : Nat)
  /-- Time passes. -/
  | tick (now : Instant)
  /-- A workflow is deleted. -/
  | delete (workflow : String)

namespace World

/-- The record of the execution. -/
def row? (w : World) : Option ExecutionRow := w.opened.bind (find? w.server.db.tables)

/-- What the execution has reported, if it has ended. -/
def outcome? (w : World) : Option (Except Fault Report) :=
  match w.program with
  | .done result => some result
  | .ask _ _ => none

/-- The execution has its request answered. -/
def run (w : World) : World :=
  match w.program with
  | .done _ => w
  | .ask r next =>
    let (answer, server) := w.server.respond .main r
    { w with
      server
      program := readClock server.now (next answer)
      opened := (r.opens answer).or w.opened }

/-- A cancellation moves on. -/
def advance (w : World) (n : Nat) : World :=
  match w.opened, w.cancels[n]? with
  | some id, some c =>
    let (phase, server) := c.next id w.server
    { w with server, cancels := w.cancels.set n { c with phase } }
  | _, _ => w

/-- One move. A cancellation can be asked for as soon as there is a record. -/
def step (w : World) : Event → World
  | .run => w.run
  | .arrive controller =>
    if w.opened.isSome then { w with cancels := w.cancels ++ [⟨controller, .asked⟩] } else w
  | .advance n => w.advance n
  | .tick now => { w with server := { w.server with now } }
  | .delete workflow =>
    { w with server := (w.server.transact (Workflow.delete workflow)).2 }

/-- A schedule of moves. -/
def play (w : World) (events : List Event) : World := events.foldl step w

/-- An execution that is to begin on a server that runs nothing else. -/
def begin (db : Database) (now : Instant) (rules : Rules) (script : List Outbound.Scripted)
    (workflow : String) (input : Value) (triggeredBy : Option String) : World where
  server := { Server.fresh rules script with db, now }
  program := execute rules workflow input triggeredBy
  opened := none
  cancels := []

/-- An execution of a workflow whose one step sends a call, with nothing else stored. -/
def calling (script : List Outbound.Scripted) : World :=
  let workflow : WorkflowRow := { (default : WorkflowRow) with id := "w", active := true }
  let step : StepRow :=
    { (default : StepRow) with
      id := "s", workflow := "w", name := "call", type := StepKind.webhook.name
      config := .object [(.text "url", .text "http://localhost")] }
  begin ⟨{ Tables.empty with workflows := [workflow], steps := [step] }, ⟨1, 1, 1⟩⟩
    ⟨0⟩ ⟨false, 5⟩ script "w" .null none

@[simp] theorem play_cons (w : World) (e : Event) (events : List Event) :
    w.play (e :: events) = (w.step e).play events := rfl

theorem play_append (w : World) (events later : List Event) :
    w.play (events ++ later) = (w.play events).play later :=
  List.foldl_append

theorem outcome?_eq_some {w : World} {result : Except Fault Report} :
    w.outcome? = some result ↔ w.program = .done result := by
  unfold outcome?
  split
  · rename_i result' h
    rw [h]
    simp
  · rename_i r next h
    rw [h]
    simp

theorem run_of_done {w : World} {result : Except Fault Report} (h : w.program = .done result) :
    w.run = w := by
  rw [run, h]

theorem run_of_ask {w : World} {r : Request} {next : r.Answer → Activity (Except Fault Report)}
    (h : w.program = .ask r next) :
    w.run = { w with
      server := (w.server.respond .main r).2
      program := readClock (w.server.respond .main r).2.now (next (w.server.respond .main r).1)
      opened := (r.opens (w.server.respond .main r).1).or w.opened } := by
  rw [run, h]

@[simp] theorem cancels_run (w : World) : w.run.cancels = w.cancels := by
  cases h : w.program with
  | done result => rw [run_of_done h]
  | ask r next => rw [run_of_ask h]

/-- A cancellation that is asked for stands last, if there is something to cancel. -/
theorem step_arrive (w : World) (controller : Controller) :
    w.step (.arrive controller) = w ∨ w.opened.isSome = true ∧
      w.step (.arrive controller) = { w with cancels := w.cancels ++ [⟨controller, .asked⟩] } := by
  unfold step
  split_ifs with hopened
  · exact .inr ⟨hopened, rfl⟩
  · exact .inl rfl

/-- Left to itself, the execution ends as an activity that is run at once. -/
def EndsAs (w : World) (activity : Activity (Except Fault Report)) : Prop :=
  ∃ n, (w.play (List.replicate n .run)).program = .done (w.server.run .main activity).1 ∧
    (w.play (List.replicate n .run)).server = (w.server.run .main activity).2

theorem endsAs_of_ask {w : World} {r : Request}
    {next : r.Answer → Activity (Except Fault Report)} (hw : w.program = .ask r next)
    (h : w.run.EndsAs (next (w.server.respond .main r).1)) : w.EndsAs (.ask r next) := by
  obtain ⟨n, hprogram, hserver⟩ := h
  have hrun := run_of_ask hw
  refine ⟨n + 1, hprogram.trans ?_, hserver.trans ?_⟩
  · rw [hrun]
    rfl
  · rw [hrun]
    rfl

/-- The readings of the clock are no moves, so the induction is on an activity that may begin with
some, where the world holds what is left after them. -/
theorem endsAs_of_readClock (activity : Activity (Except Fault Report)) {w : World}
    (hw : w.program = readClock w.server.now activity) : w.EndsAs activity := by
  induction activity generalizing w with
  | done result => exact ⟨0, hw, rfl⟩
  | ask r next ih =>
    by_cases hclock : ∃ id next', Program.ask r next = .ask (.run id .now) next'
    · obtain ⟨id, next', h⟩ := hclock
      cases h
      exact ih w.server.now hw
    · push Not at hclock
      rw [readClock_of_ne _ hclock] at hw
      have hrun := run_of_ask hw
      exact endsAs_of_ask hw (ih (w.server.respond .main r).1 (by rw [hrun]))

/-- An execution that nothing comes between ends as one that is run at once. -/
theorem endsAs_program (w : World) : w.EndsAs w.program := by
  cases h : w.program with
  | done result => exact ⟨0, h, rfl⟩
  | ask r next =>
    have hrun := run_of_ask h
    exact endsAs_of_ask h (endsAs_of_readClock _ (by rw [hrun]))

end World

end Stepwise.Execution
