import Stepwise.Outbound.Call

/-!
# Scripted answers

A script answers outbound calls one after another; when it is used up, every call is answered by
the same plain success. An entry may take time, cancel the run that sent the call, or hold its
answer back until it is released.
-/

namespace Stepwise.Outbound

/-- One scripted answer. -/
structure Scripted where
  outcome : Outcome
  /-- How many microseconds the answer takes. -/
  delay : Nat
  /-- The run is cancelled as the call arrives. -/
  cancels : Bool
  /-- The answer waits for a release. -/
  held : Bool

/-- The answer to every call after the script. -/
def plainReply : Reply := ⟨200, [], "\x7b\"ok\":true\x7d"⟩

/-- The scripted answer after the script. -/
def Scripted.default : Scripted := ⟨.ok plainReply, 0, false, false⟩

/-- The next answer of a script, and what is left of it. -/
def nextScripted : List Scripted → Scripted × List Scripted
  | [] => (.default, [])
  | entry :: rest => (entry, rest)

end Stepwise.Outbound
