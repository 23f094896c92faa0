import Stepwise.Proofs.Run.LogGrammar
import Stepwise.Proofs.Step.Relabel

/-!
# Runs do not tell names apart

Two steps that differ in their ids and positions only, in trees that differ in the same way, are
run alike. The single exception is the variable in which a condition keeps its outcome, and this is
why conditions have their ids still.
-/

namespace Stepwise.Run

open Stage

variable {l : Relabeling} {tree : StepTree}

/-- Every step of the tree is run by the one runner as it is under its new name by the other. -/
def Alike (l : Relabeling) (tree : StepTree) (run run' : Runner) : Prop :=
  ∀ step ∈ tree.steps, run' (step.relabel l) = run step

theorem forEach_map {α : Type} {f f' : α → Stage Unit} {g : α → α} {items : List α}
    (h : ∀ a ∈ items, f' (g a) = f a) : forEach f' (items.map g) = forEach f items := by
  induction items with
  | nil => rfl
  | cons a rest ih =>
    obtain ⟨ha, hrest⟩ := List.forall_mem_cons.mp h
    rw [List.map_cons, forEach, forEach, ha, ih hrest]

theorem Alike.forEach {run run' : Runner} (h : Alike l tree run run') {steps : List Step}
    (hs : steps ⊆ tree.steps) :
    Stage.forEach run' (steps.map (Step.relabel l)) = Stage.forEach run steps :=
  forEach_map fun step hstep => h step (hs hstep)

theorem branchSteps_relabel (h : l.Keeps tree.steps) {step : Step} (hs : step ∈ tree.steps)
    (outcome : Bool) : branchSteps (tree.relabel l) (step.relabel l) outcome =
      (branchSteps tree step outcome).map (Step.relabel l) := by
  have hchildren := StepTree.childrenOf_relabel h (id_mem_idsOf hs)
  unfold branchSteps
  dsimp only [Step.relabel] at hchildren ⊢
  rw [hchildren, List.filter_map]
  rfl

theorem runCondition_relabel (h : l.Keeps tree.steps) {inner inner' : Runner}
    (hi : Alike l tree inner inner') {step : Step} (hs : step ∈ tree.steps)
    (hk : StepKind.ofName? step.type = some .condition) :
    runCondition (tree.relabel l) inner' (step.relabel l) = runCondition tree inner step := by
  funext c
  have hkey : outcomeKey (step.relabel l) = outcomeKey step := by
    unfold outcomeKey
    dsimp only [Step.relabel]
    rw [h.conditions step hs hk]
  have hbranch (outcome : Bool) : branchSteps tree step outcome ⊆ tree.steps :=
    fun _ hchild => tree.childrenOf_subset step.id (List.mem_filter.mp hchild).1
  have houtcome : conditionOutcome (step.relabel l) c.root = conditionOutcome step c.root := rfl
  rw [runCondition_eq, runCondition_eq, hkey, houtcome]
  cases conditionOutcome step c.root with
  | error fault => rfl
  | ok outcome =>
    dsimp only
    rw [branchSteps_relabel h hs, hi.forEach (hbranch outcome)]

theorem runRound_relabel (h : l.Keeps tree.steps) {inner inner' : Runner}
    (hi : Alike l tree inner inner') {step : Step} (hs : step ∈ tree.steps) (item : Value) :
    runRound (tree.relabel l) inner' (step.relabel l) item = runRound tree inner step item := by
  have hchildren := StepTree.childrenOf_relabel h (id_mem_idsOf hs)
  unfold runRound
  dsimp only [Step.relabel] at hchildren ⊢
  rw [hchildren, hi.forEach (tree.childrenOf_subset step.id)]

theorem runLoop_relabel (h : l.Keeps tree.steps) {inner inner' : Runner}
    (hi : Alike l tree inner inner') {step : Step} (hs : step ∈ tree.steps) :
    runLoop (tree.relabel l) inner' (step.relabel l) = runLoop tree inner step := by
  funext c
  have hround : runRound (tree.relabel l) inner' (step.relabel l) = runRound tree inner step :=
    funext fun item => runRound_relabel h hi hs item
  rw [runLoop_eq, runLoop_eq, hround]
  rfl

/-- A step without children looks neither at its id nor at its position. -/
theorem runBody_relabel (h : l.Keeps tree.steps) {inner inner' : Runner}
    (hi : Alike l tree inner inner') {step : Step} (hs : step ∈ tree.steps) :
    runBody (tree.relabel l) inner' (step.relabel l) = runBody tree inner step := by
  have htype : (step.relabel l).type = step.type := rfl
  unfold runBody
  rw [htype]
  cases hk : StepKind.ofName? step.type with
  | none => rfl
  | some kind =>
    cases kind with
    | condition => exact runCondition_relabel h hi hs hk
    | loop => exact runLoop_relabel h hi hs
    | action => rfl
    | delay => rfl
    | webhook => rfl
    | notification => rfl

theorem alike_runStep (h : l.Keeps tree.steps) {inner inner' : Runner}
    (hi : Alike l tree inner inner') :
    Alike l tree (runStep tree inner) (runStep (tree.relabel l) inner') := by
  intro step hs
  unfold runStep
  rw [runBody_relabel h hi hs]
  rfl

theorem alike_runChain (h : l.Keeps tree.steps) {inner inner' : Runner}
    (hi : Alike l tree inner inner') :
    Alike l tree (runChain tree inner) (runChain (tree.relabel l) inner') := by
  intro step hs
  have hlinks := (alike_runStep h hi).forEach (StepTree.mem_of_mem_chain hs)
  unfold runChain
  rw [StepTree.chain_relabel h hs]
  dsimp only [Chain.relabel]
  rw [hlinks]
  cases (tree.chain step).repeated with
  | none => rfl
  | some repeated => rfl

/-- By induction on the levels that are left. -/
theorem alike_runNested (h : l.Keeps tree.steps) (limit : Int) (levels : Nat) :
    Alike l tree (runNested tree limit levels) (runNested (tree.relabel l) limit levels) := by
  induction levels with
  | zero => exact fun step _ => rfl
  | succ levels ih => exact alike_runChain h ih

theorem runTree_relabel (h : l.Keeps tree.steps) (limit : Int) :
    runTree (tree.relabel l) limit = runTree tree limit := by
  unfold runTree
  rw [StepTree.roots_relabel]
  exact (alike_runNested h limit _).forEach tree.roots_subset

/-- The ids and the positions of steps, and the order in which they are given, tell a run how the
steps belong together, and nothing else. If steps of different positions are given new ids that
keep them apart, new positions in the same order, and are listed in any order, the run of their
tree stays what it was: from every context it makes the same requests of its surroundings and comes
to the same result or fault, with the same variables and the same log. -/
theorem run_of_relabeled_steps {l : Relabeling} {steps steps' : List Step}
    (hp : (steps.map (·.position)).Nodup) (h : l.Keeps steps)
    (hperm : steps'.Perm (steps.map (Step.relabel l))) (limit : Int) :
    runTree (.ofSteps steps') limit = runTree (.ofSteps steps) limit := by
  have htree : l.Keeps (StepTree.ofSteps steps).steps :=
    h.subset (StepTree.ofSteps_perm steps).subset
  rw [StepTree.ofSteps_relabel h hp hperm]
  exact runTree_relabel htree limit

/-- Fresh ids for all steps but conditions, and every other position. -/
def freshLabels : Relabeling where
  id id := if id = "c" then "c" else "fresh-" ++ id
  position n := 2 * n + 1

/-- The loop, its condition and their steps run as before if they are listed the other way round
under fresh ids. -/
theorem run_of_relabeled_loopSteps :
    freshLabels.Keeps loopSteps ∧
      (loopSteps.map (Step.relabel freshLabels)).reverse ≠ loopSteps ∧
      runTree (.ofSteps (loopSteps.map (Step.relabel freshLabels)).reverse) 5 =
        runTree (.ofSteps loopSteps) 5 := by
  have hkeeps : freshLabels.Keeps loopSteps :=
    ⟨by decide +kernel, by decide +kernel, by decide +kernel⟩
  refine ⟨hkeeps, fun heq => ?_, ?_⟩
  · have hids := congrArg (List.map Step.id) heq
    revert hids
    decide +kernel
  · exact run_of_relabeled_steps (by decide +kernel) hkeeps (List.reverse_perm _) 5

end Stepwise.Run
