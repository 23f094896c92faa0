import Stepwise.Proofs.Run.Uncancelled
import Stepwise.Proofs.Workflow.Accepted
import Stepwise.Execution.Program

/-!
# Steps with the configurations they are read with

An object is read as itself, and what cannot be read fails with a fault of its own. The steps of a
stored workflow are its rows, each with its configuration.
-/

namespace Stepwise

namespace Step

@[simp] theorem readConfig_object (fields : Fields) : readConfig (.object fields) = .ok fields := by
  cases fields with
  | nil => rfl
  | cons field rest => rfl

theorem uncancelled_readPair (place : Nat) (element : Value) :
    Uncancelled (readPair place element) := by
  unfold readPair
  split
  · simp
  · split <;> simp
  · simp

theorem uncancelled_readConfig (config : Value) : Uncancelled (readConfig config) := by
  unfold readConfig
  split
  · simp
  · split
    · simp
    · exact (Uncancelled.mapM fun (element, place) _ => uncancelled_readPair place element).map _

end Step

namespace Execution

theorem uncancelled_treeOf (stored : Workflow.Stored) : Uncancelled (treeOf stored) :=
  (Uncancelled.mapM fun row _ => (Step.uncancelled_readConfig row.config).map _).map _

/-- The steps of the tree of a workflow are its rows as they are read. -/
theorem mem_steps_treeOf {stored : Workflow.Stored} {tree : StepTree}
    (h : treeOf stored = .ok tree) {step : Step} (hstep : step ∈ tree.steps) :
    ∃ row ∈ stored.steps, ∃ config,
      Step.readConfig row.config = .ok config ∧ step = row.toStep config := by
  obtain ⟨steps, hsteps, rfl⟩ := Except.ok_of_map h
  obtain ⟨row, hrow, hread⟩ := exists_mem_of_forall₂ (Except.mapM_eq_ok_iff.mp hsteps)
    ((StepTree.ofSteps_perm steps).mem_iff.mp hstep)
  obtain ⟨config, hconfig, rfl⟩ := Except.ok_of_map hread
  exact ⟨row, hrow, config, hconfig, rfl⟩

end Execution

end Stepwise
