import Mathlib.Tactic.Common
import Stepwise.Step.Tree

/-!
# The order of steps

A tree holds its steps by position, so its roots and the children of every step stand by position
too. The sort is stable: steps of one position keep the order in which they were given.
-/

namespace Stepwise

/-- The steps stand by position. -/
def InOrder (steps : List Step) : Prop := steps.Pairwise fun a b => a.position ≤ b.position

instance (steps : List Step) : Decidable (InOrder steps) :=
  inferInstanceAs (Decidable (steps.Pairwise fun a b => a.position ≤ b.position))

/-- One step comes before another: by position, or of one position and given earlier. -/
def Precedes (steps : List Step) (a b : Step) : Prop :=
  a.position < b.position ∨ a.position = b.position ∧ [a, b].Sublist steps

theorem InOrder.filter {steps : List Step} (h : InOrder steps) (p : Step → Bool) :
    InOrder (steps.filter p) := List.Pairwise.filter p h

namespace StepTree

theorem roots_subset (tree : StepTree) : tree.roots ⊆ tree.steps :=
  fun _ h => (List.mem_filter.mp h).1

theorem childrenOf_subset (tree : StepTree) (id : String) : tree.childrenOf id ⊆ tree.steps :=
  fun _ h => (List.mem_filter.mp h).1

/-- A successor is a step of the tree. -/
theorem mem_of_nextOf {tree : StepTree} {step next : Step} (h : tree.nextOf step = some next) :
    next ∈ tree.steps := by
  obtain ⟨id, _, hget⟩ := Option.bind_eq_some_iff.mp h
  exact List.mem_reverse.mp (List.mem_of_find?_eq_some hget)

theorem decide_position_trans (a b c : Step) (hab : decide (a.position ≤ b.position) = true)
    (hbc : decide (b.position ≤ c.position) = true) : decide (a.position ≤ c.position) = true :=
  decide_eq_true (Int.le_trans (of_decide_eq_true hab) (of_decide_eq_true hbc))

theorem decide_position_total (a b : Step) :
    (decide (a.position ≤ b.position) || decide (b.position ≤ a.position)) = true := by
  simpa using Int.le_total a.position b.position

theorem inOrder_ofSteps (steps : List Step) : InOrder (ofSteps steps).steps :=
  (List.pairwise_mergeSort decide_position_trans decide_position_total steps).imp of_decide_eq_true

/-- Steps that stand by position already stay as they are. -/
theorem ofSteps_of_inOrder {steps : List Step} (h : InOrder steps) : ofSteps steps = ⟨steps⟩ :=
  congrArg StepTree.mk (List.mergeSort_of_pairwise (h.imp decide_eq_true))

theorem inOrder_roots (steps : List Step) : InOrder (ofSteps steps).roots :=
  (inOrder_ofSteps steps).filter _

theorem inOrder_childrenOf (steps : List Step) (id : String) :
    InOrder ((ofSteps steps).childrenOf id) := (inOrder_ofSteps steps).filter _

theorem mem_roots_ofSteps {steps : List Step} {step : Step} :
    step ∈ (ofSteps steps).roots ↔ step ∈ steps ∧ step.parent = none := by
  simp [roots, (ofSteps_perm steps).mem_iff]

theorem mem_childrenOf_ofSteps {steps : List Step} {id : String} {step : Step} :
    step ∈ (ofSteps steps).childrenOf id ↔ step ∈ steps ∧ step.parent = some id := by
  simp [childrenOf, (ofSteps_perm steps).mem_iff]

/-- The steps of one position are a sorted sublist of the steps given, so the sort leaves them
as they are. -/
theorem filter_position_ofSteps (steps : List Step) (position : Int) :
    (ofSteps steps).steps.filter (·.position == position) =
      steps.filter (·.position == position) := by
  have hlevel : (steps.filter (·.position == position)).Pairwise
      fun a b => decide (a.position ≤ b.position) = true := by
    refine List.pairwise_of_forall_mem_list fun a ha b hb => decide_eq_true ?_
    have hpa := eq_of_beq (List.mem_filter.mp ha).2
    have hpb := eq_of_beq (List.mem_filter.mp hb).2
    omega
  have hsub : (steps.filter (·.position == position)).Sublist (ofSteps steps).steps :=
    List.sublist_mergeSort decide_position_trans decide_position_total hlevel List.filter_sublist
  have hsub' := hsub.filter (·.position == position)
  simp only [List.filter_filter, Bool.and_self] at hsub'
  exact (hsub'.eq_of_length ((ofSteps_perm steps).filter _).length_eq.symm).symm

theorem precedes_ofSteps (steps : List Step) :
    (ofSteps steps).steps.Pairwise (Precedes steps) := by
  refine List.pairwise_iff_forall_sublist.mpr fun {a b} hsub => ?_
  have hle := List.pairwise_iff_forall_sublist.mp (inOrder_ofSteps steps) hsub
  obtain hlt | heq := Int.lt_or_eq_of_le hle
  · exact .inl hlt
  · have hlevel := hsub.filter (·.position == b.position)
    have hboth : [a, b].filter (·.position == b.position) = [a, b] := by simp [heq]
    rw [filter_position_ofSteps, hboth] at hlevel
    exact .inr ⟨heq, hlevel.trans List.filter_sublist⟩

end StepTree

end Stepwise
