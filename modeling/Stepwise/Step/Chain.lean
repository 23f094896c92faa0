import Stepwise.Step.Tree

/-!
# Successor chains

From a step, its successors can be followed until a step names none or one is met again. The
chain of a step is fixed by the tree alone; running it cannot change it.
-/

namespace Stepwise

/-- The steps met by following successors, and the step at which the chain came back to one of
them, if it did. -/
structure Chain where
  steps : List Step
  repeated : Option Step

namespace StepTree

/-- Follows successors from a step, not beyond an id in `seen` and for at most `fuel` steps. -/
def follow (tree : StepTree) : Nat → List String → Option Step → Chain
  | _, _, none => ⟨[], none⟩
  | 0, _, some step => ⟨[], some step⟩
  | fuel + 1, seen, some step =>
    if seen.contains step.id then ⟨[], some step⟩
    else
      let rest := follow tree fuel (step.id :: seen) (tree.nextOf step)
      ⟨step :: rest.steps, rest.repeated⟩

/-- The chain of a step. One step more than the tree holds is enough to meet one again, since the
first step need not be of the tree. -/
def chain (tree : StepTree) (step : Step) : Chain :=
  tree.follow (tree.steps.length + 2) [] (some step)

end StepTree

end Stepwise
