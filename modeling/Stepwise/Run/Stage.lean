import Stepwise.Run.Log
import Stepwise.Run.Surroundings

/-!
# Stages of a run

The context of a run is its input, its variables and its log. A stage changes the context, asks
the surroundings, and ends with a result or a fault; a fault ends the stages after it too, but the
context stays as far as it has come.
-/

namespace Stepwise.Run

/-- The state of a run. -/
structure Context where
  input : Value
  vars : Fields
  log : List Entry

/-- The values that the paths of templates begin at. -/
def Context.root (c : Context) : Fields :=
  [(.text "input", c.input), (.text "variables", .object c.vars),
    (.text "logs", logValue c.log)]

/-- A part of a run with a result of type `α`. -/
def Stage (α : Type) : Type := Context → Program surroundings (Except Fault α × Context)

namespace Stage

variable {α β : Type}

/-- Nothing but a result. -/
def result (a : α) : Stage α := fun c => .done (.ok a, c)

/-- Goes on with the result of a stage, if it has one. -/
def andThen (stage : Stage α) (next : α → Stage β) : Stage β := fun c =>
  (stage c).bind fun
    | (.ok a, c) => next a c
    | (.error fault, c) => .done (.error fault, c)

instance : Monad Stage where
  pure := result
  bind := andThen

/-- Ends the run with a fault. -/
def fail (fault : Fault) : Stage α := fun c => .done (.error fault, c)

/-- A result that may be a fault. -/
def ofExcept (r : Except Fault α) : Stage α := fun c => .done (r, c)

/-- The context. -/
def context : Stage Context := fun c => .done (.ok c, c)

/-- Asks the surroundings. -/
def ask (r : Request) : Stage r.Answer := fun c => .ask r fun answer => .done (.ok answer, c)

/-- A result computed from the values that paths begin at. -/
def fromRoot (f : Fields → Except Fault α) : Stage α := fun c => .done (f c.root, c)

/-- Sets a variable; only values that can be keys can name one. -/
def assign (name : Value) (value : Value) : Stage Unit := fun c =>
  match name.toKey? with
  | some key => .done (.ok (), { c with vars := c.vars.set key value })
  | none => .done (.error (.unhashable name.kind), c)

/-- Appends an entry to the log, with the time it is made at. -/
def record (step type : String) (mark : Mark) (error : Option String) : Stage Unit := do
  let time ← ask .now
  fun c => .done (.ok (), { c with log := c.log ++ [⟨time, step, type, mark, error⟩] })

/-- Looks at how a stage ends; the stage after it has the last word. -/
def attempt (stage : Stage α) : Stage (Except Fault α) := fun c =>
  (stage c).bind fun (r, c) => .done (.ok r, c)

/-- Runs a stage for each item of a list in order. -/
def forEach (f : α → Stage Unit) : List α → Stage Unit
  | [] => result ()
  | a :: rest => (f a).andThen fun _ => forEach f rest

end Stage

end Stepwise.Run
