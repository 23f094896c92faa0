/-!
# Sets of characters as ranges of code points

The character tables of the library list inclusive ranges; `inRanges` is membership.
-/

namespace Stepwise.Text

/-- Inclusive ranges of code points. -/
abbrev Ranges := List (Nat × Nat)

/-- The character lies in one of the ranges. -/
def inRanges (ranges : Ranges) (c : Char) : Bool :=
  ranges.any fun (low, high) => decide (low ≤ c.toNat ∧ c.toNat ≤ high)

end Stepwise.Text
