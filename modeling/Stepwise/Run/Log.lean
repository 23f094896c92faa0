import Stepwise.Clock
import Stepwise.Value.Basic

/-!
# The log of a run

Every step that begins leaves an entry, and another one when it is completed or has failed. A
step that a cancellation cuts off leaves no second entry.
-/

namespace Stepwise.Run

/-- What an entry says of its step. -/
inductive Mark
  | started
  | completed
  | failed
  deriving DecidableEq

namespace Mark

/-- All marks in their order. -/
def all : List Mark := [.started, .completed, .failed]

/-- The name of a mark. -/
def name : Mark → String
  | .started => "started"
  | .completed => "completed"
  | .failed => "failed"

end Mark

/-- An entry of a log. -/
structure Entry where
  time : Instant
  step : String
  type : String
  mark : Mark
  error : Option String
  deriving DecidableEq

/-- An entry as a value. -/
def Entry.toFields (e : Entry) : Fields :=
  [(.text "timestamp", .text e.time.zonedText), (.text "step", .text e.step),
    (.text "type", .text e.type), (.text "status", .text e.mark.name)]
    ++ match e.error with
      | some error => [(.text "error", .text error)]
      | none => []

/-- A log as a value. -/
def logValue (log : List Entry) : Value := .list (log.map fun e => .object e.toFields)

end Stepwise.Run
