import Stepwise.Step.Basic

/-!
# Step trees

A tree holds the steps of a workflow by position; steps of one position stay in the order given.
The roots are the steps without a parent, and the children of an id are the steps that name it as
their parent, whether or not a step has that id. Of several steps with one id the last is found by
it.
-/

namespace Stepwise

/-- Steps by position. -/
structure StepTree where
  steps : List Step

namespace StepTree

/-- The tree of a list of steps. -/
def ofSteps (steps : List Step) : StepTree :=
  ⟨steps.mergeSort fun a b => decide (a.position ≤ b.position)⟩

/-- The steps without a parent. -/
def roots (tree : StepTree) : List Step := tree.steps.filter (·.parent.isNone)

/-- The steps under a parent. -/
def childrenOf (tree : StepTree) (id : String) : List Step :=
  tree.steps.filter (·.parent == some id)

/-- The step of an id. -/
def get? (tree : StepTree) (id : String) : Option Step :=
  tree.steps.reverse.find? (·.id == id)

/-- Some step has the id. -/
def contains (tree : StepTree) (id : String) : Bool := (tree.get? id).isSome

/-- How many ids the steps have. -/
def size (tree : StepTree) : Nat := (tree.steps.map (·.id)).eraseDups.length

/-- The successor of a step, if it names a step of the tree. -/
def nextOf (tree : StepTree) (step : Step) : Option Step := step.next.bind tree.get?

/-- The ordered list holds the steps given. -/
theorem ofSteps_perm (steps : List Step) : (ofSteps steps).steps.Perm steps :=
  List.mergeSort_perm _ _

end StepTree

end Stepwise
