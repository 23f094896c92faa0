import Stepwise.Text.Quoted

/-!
# Addresses and secrets of triggers

A trigger is given an address and a secret from one sequence of numbers that are never drawn
twice, each written in hexadecimal digits of a fixed width.
-/

namespace Stepwise.Signature

/-- The address of a trigger made of a number. -/
def address (n : Nat) : String := "webhook_" ++ String.ofList (Text.hex 32 n)

/-- The secret of a trigger made of a number. -/
def secret (n : Nat) : String := String.ofList (Text.hex 64 n)

end Stepwise.Signature
