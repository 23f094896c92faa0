import Stepwise.Clock
import Stepwise.Outbound.Call
import Stepwise.Program

/-!
# What a run asks of its surroundings

A run reads the time and whether it was cancelled, waits, sends calls, and asks a store to keep
tasks and notifications. It has no other effects.
-/

namespace Stepwise.Run

/-- A request of a run. -/
inductive Request
  /-- The time. -/
  | now
  /-- Whether the run was cancelled. -/
  | cancelled
  /-- To wait for some microseconds; without a number, for ever. -/
  | wait (micros : Option Nat)
  /-- To send a call. -/
  | send (call : Outbound.Call)
  | createTask (fields : Fields)
  | updateTask (id : Value) (fields : Fields)
  | deleteTask (id : Value)
  | notify (user title message : Value)

/-- The answers to a request. -/
@[reducible] def Request.Answer : Request → Type
  | .now => Instant
  | .cancelled => Bool
  | .wait _ => Bool
  | .send _ => Outbound.Outcome
  | .createTask _ => Except Fault Value
  | .updateTask _ _ => Except Fault Value
  | .deleteTask _ => Except Fault Unit
  | .notify _ _ _ => Except Fault Unit

/-- The surroundings of a run. A wait is answered by whether a cancellation broke it off. -/
@[reducible] def surroundings : Interface := ⟨Request, Request.Answer⟩

end Stepwise.Run
