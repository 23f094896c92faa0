import Stepwise.Proofs.Run.Rules

/-!
# Every run comes to its end

The rules for running steps bound nothing, and yet they have a derivation for every run, which is
that of the run itself. Three things get less: the levels that are left under the limit, as steps
stand inside one another; the steps that a chain has not met yet, as it is followed; and the steps
and items that are left, as they are gone through.
-/

namespace Stepwise.Run

open Stage

variable {σ : Type} {respond : σ → (r : Request) → r.Answer × σ} {tree : StepTree} {limit : Int}

section

variable {α β : Type} {m m₁ m' : Moment σ}

theorem ends_done {stage : Stage α} {c : Context} {r : Except Fault α}
    (h : stage m.context = .done (r, c)) : Ends respond stage m r ⟨c, m.state⟩ := by
  rw [Ends, h]
  rfl

theorem Ends.andThen {stage : Stage α} {f : α → Stage β} {a : α} {r : Except Fault β}
    (hs : Ends respond stage m (.ok a) m₁) (hf : Ends respond (f a) m₁ r m') :
    Ends respond (stage.andThen f) m r m' := by
  unfold Ends Stage.andThen at *
  rw [Program.run_bind, hs]
  exact hf

theorem Ends.andThen_fault {stage : Stage α} {f : α → Stage β} {fault : Fault}
    (hs : Ends respond stage m (.error fault) m₁) :
    Ends respond (stage.andThen f) m (.error fault) m₁ := by
  unfold Ends Stage.andThen at *
  rw [Program.run_bind, hs]
  rfl

theorem ends_of_run (respond : σ → (r : Request) → r.Answer × σ) (stage : Stage α)
    (m : Moment σ) : ∃ r m', Ends respond stage m r m' :=
  ⟨_, ⟨_, _⟩, rfl⟩

end

/-- The work and the stage come to the same end, from every moment. -/
def Meets (respond : σ → (r : Request) → r.Answer × σ) (tree : StepTree) (limit : Int) (work : Work)
    (stage : Stage Unit) : Prop :=
  ∀ m, ∃ n r m', Executes respond tree limit work m n r m' ∧ Ends respond stage m r m'

theorem meets_steps {depth : Int} {inner : Runner}
    (hi : ∀ step, Meets respond tree limit (.step depth step) (inner step)) (steps : List Step) :
    Meets respond tree limit (.steps depth steps) (forEach inner steps) := by
  induction steps with
  | nil => exact fun m => ⟨0, .ok (), m, .nil, rfl⟩
  | cons step rest ih =>
    intro m
    obtain ⟨n, fault | ⟨⟩, m₁, hstep, hend⟩ := hi step m
    · exact ⟨n, .error fault, m₁, .stop hstep, hend.andThen_fault⟩
    · obtain ⟨n', r, m', hrest, hend'⟩ := ih m₁
      exact ⟨n + n', r, m', .cons hstep hrest, hend.andThen hend'⟩

theorem meets_rounds {depth : Int} {inner : Runner}
    (hi : ∀ step, Meets respond tree limit (.step (depth + 1) step) (inner step)) (step : Step)
    (items : List Value) :
    Meets respond tree limit (.rounds depth step items)
      (forEach (runRound tree inner step) items) := by
  induction items with
  | nil => exact fun m => ⟨0, .ok (), m, .finished, rfl⟩
  | cons item rest ih =>
    intro m
    cases hkey : (step.config.field "variableName").toKey? with
    | none =>
      have hassign : Ends respond (assign (step.config.field "variableName") item) m
          (.error (.unhashable (step.config.field "variableName").kind)) m :=
        ends_done (by rw [assign, hkey])
      exact ⟨0, _, m, .unnamed hkey, hassign.andThen_fault.andThen_fault⟩
    | some key =>
      have hassign : Ends respond (assign (step.config.field "variableName") item) m (.ok ())
          (m.assign key item) := ends_done (by rw [assign, hkey])
      obtain ⟨n, fault | ⟨⟩, m₁, hchildren, hend⟩ := meets_steps hi (tree.childrenOf step.id)
        (m.assign key item)
      · exact ⟨n, .error fault, m₁, .broken hkey hchildren, (hassign.andThen hend).andThen_fault⟩
      · obtain ⟨n', r, m', hrest, hend'⟩ := ih m₁
        exact ⟨n + n', r, m', .round hkey hchildren hrest, (hassign.andThen hend).andThen hend'⟩

theorem meets_condition {depth : Int} {inner : Runner}
    (hi : ∀ step, Meets respond tree limit (.step (depth + 1) step) (inner step)) {step : Step}
    (hk : StepKind.ofName? step.type = some .condition) :
    Meets respond tree limit (.body depth step) (runCondition tree inner step) := by
  intro m
  cases ho : conditionOutcome step m.context.root with
  | error fault =>
    exact ⟨0, _, m, .undecided hk ho, ends_done (by rw [runCondition_eq, ho])⟩
  | ok outcome =>
    obtain ⟨n, r, m', hchildren, hend⟩ := meets_steps hi (branchSteps tree step outcome)
      (m.assign (outcomeKey step) (.bool outcome))
    refine ⟨n, r, m', .condition hk ho hchildren, ?_⟩
    rw [Ends, runCondition_eq, ho]
    exact hend

theorem meets_loop {depth : Int} {inner : Runner}
    (hi : ∀ step, Meets respond tree limit (.step (depth + 1) step) (inner step)) {step : Step}
    (hk : StepKind.ofName? step.type = some .loop) :
    Meets respond tree limit (.body depth step) (runLoop tree inner step) := by
  intro m
  cases hitems : Template.resolve m.context.root (step.config.field "items") with
  | error fault =>
    exact ⟨0, _, m, .unresolved hk hitems, ends_done (by rw [runLoop_eq, hitems])⟩
  | ok value =>
    cases value with
    | list items =>
      cases hname : (step.config.field "variableName").isTruthy with
      | false =>
        refine ⟨0, _, m, .nameless hk hitems hname, ends_done ?_⟩
        rw [runLoop_eq, hitems]
        simp [hname]
      | true =>
        obtain ⟨n, r, m', hrounds, hend⟩ := meets_rounds hi step items m
        refine ⟨n, r, m', .loop hk hitems hname hrounds, ?_⟩
        rw [Ends, runLoop_eq, hitems]
        simp only [hname, if_true]
        exact hend
    | _ =>
      refine ⟨0, _, m, .notList hk hitems nofun, ends_done ?_⟩
      rw [runLoop_eq, hitems]

theorem meets_body {depth : Int} {inner : Runner}
    (hi : ∀ step, Meets respond tree limit (.step (depth + 1) step) (inner step)) (step : Step) :
    Meets respond tree limit (.body depth step) (runBody tree inner step) := by
  have hleaf {stage : Stage Unit} (hl : leafStage? step = some stage) :
      Meets respond tree limit (.body depth step) stage := by
    intro m
    obtain ⟨r, m', hend⟩ := ends_of_run respond stage m
    exact ⟨0, r, m', .leaf hl hend, hend⟩
  unfold runBody
  split
  · rename_i hk
    exact hleaf (by rw [leafStage?, hk])
  · rename_i hk
    exact meets_condition hi hk
  · rename_i hk
    exact meets_loop hi hk
  · rename_i hk
    exact hleaf (by rw [leafStage?, hk])
  · rename_i hk
    exact hleaf (by rw [leafStage?, hk])
  · rename_i hk
    exact hleaf (by rw [leafStage?, hk])
  · rename_i hk
    exact fun m => ⟨0, _, m, .unknown hk, rfl⟩

theorem meets_block {depth : Int} {inner : Runner}
    (hi : ∀ step, Meets respond tree limit (.step (depth + 1) step) (inner step)) (step : Step) :
    Meets respond tree limit (.block depth step) (runStep tree inner step) := by
  intro m
  cases hc : (respond m.state .cancelled).1 with
  | true => exact ⟨1, _, looked respond m, .cutOff hc, breaks_runStep.mpr (.inl ⟨hc, rfl, rfl⟩)⟩
  | false =>
    obtain ⟨n, fault | ⟨⟩, m₁, hbody, hend⟩ := meets_body hi step (begun respond step m)
    · exact ⟨n + 1, _, _, .failed hc hbody, breaks_runStep.mpr (.inr ⟨hc, m₁, hend, rfl⟩)⟩
    · exact ⟨n + 1, _, _, .completed hc hbody, yields_runStep.mpr ⟨hc, m₁, hend, rfl⟩⟩

/-- The steps of a tree whose ids a chain has not met yet. -/
def unmet (tree : StepTree) (seen : List String) : List Step :=
  tree.steps.filter fun step => !seen.contains step.id

/-- A chain that meets a step of the tree for the first time has fewer left to meet. -/
theorem length_unmet_cons {seen : List String} {step : Step} (hs : step ∈ tree.steps)
    (hi : step.id ∉ seen) : (unmet tree (step.id :: seen)).length < (unmet tree seen).length := by
  have hfilter : unmet tree (step.id :: seen) =
      (unmet tree seen).filter fun other => other.id != step.id := by
    unfold unmet
    rw [List.filter_filter]
    refine List.filter_congr fun other _ => ?_
    rw [List.contains_cons, Bool.not_or]
    rfl
  rw [hfilter, List.length_filter_lt_length_iff_exists]
  exact ⟨step, List.mem_filter.mpr ⟨hs, by simpa using hi⟩, by simp⟩

/-- A chain that has come to a step goes on from it, unless it has met the step before. -/
theorem meets_links_succ {depth : Int} {inner : Runner}
    (hi : ∀ step, Meets respond tree limit (.step (depth + 1) step) (inner step)) {fuel : Nat}
    {seen : List String} {step : Step}
    (hr : step.id ∉ seen → Meets respond tree limit
      (.links depth (step.id :: seen) (tree.nextOf step))
      (runLinks tree inner (tree.follow fuel (step.id :: seen) (tree.nextOf step)))) :
    Meets respond tree limit (.links depth seen (some step))
      (runLinks tree inner (tree.follow (fuel + 1) seen (some step))) := by
  intro m
  unfold StepTree.follow
  split_ifs with hseen
  · exact ⟨0, _, m, .cyclic (by simpa using hseen), rfl⟩
  · have hnew : step.id ∉ seen := by simpa using hseen
    rw [runLinks_cons]
    obtain ⟨n, fault | ⟨⟩, m₁, hblock, hend⟩ := meets_block hi step m
    · exact ⟨n, _, m₁, .unfinished hnew hblock, hend.andThen_fault⟩
    · obtain ⟨n', r, m', hlinks, hend'⟩ := hr hnew m₁
      exact ⟨n + n', r, m', .link hnew hblock hlinks, hend.andThen hend'⟩

/-- By induction on the fuel, of which there is more than steps that the chain has not met yet. -/
theorem meets_links {depth : Int} {inner : Runner}
    (hi : ∀ step, Meets respond tree limit (.step (depth + 1) step) (inner step)) {fuel : Nat}
    {seen : List String} {current : Option Step} (hc : ∀ step ∈ current, step ∈ tree.steps)
    (hf : (unmet tree seen).length < fuel) :
    Meets respond tree limit (.links depth seen current)
      (runLinks tree inner (tree.follow fuel seen current)) := by
  induction fuel generalizing seen current with
  | zero => omega
  | succ fuel ih =>
    cases current with
    | none =>
      rw [runLinks_follow_none]
      exact fun m => ⟨0, _, m, .unlinked, rfl⟩
    | some step =>
      refine meets_links_succ hi fun hnew => ih (fun next hnext => StepTree.mem_of_nextOf hnext) ?_
      have hless := length_unmet_cons (hc step rfl) hnew
      omega

/-- The first step of a chain need not be of the tree, but all others are. -/
theorem meets_chain {depth : Int} {inner : Runner}
    (hi : ∀ step, Meets respond tree limit (.step (depth + 1) step) (inner step)) (step : Step) :
    Meets respond tree limit (.links depth [] (some step)) (runChain tree inner step) := by
  refine meets_links_succ hi fun _ =>
    meets_links hi (fun next hnext => StepTree.mem_of_nextOf hnext) ?_
  have hle : (unmet tree [step.id]).length ≤ tree.steps.length := List.length_filter_le _ _
  omega

/-- By induction on the levels that are left under the limit. -/
theorem meets_nested {levels : Nat} {depth : Int} (hl : levels = levelsLeft limit depth)
    (step : Step) :
    Meets respond tree limit (.step depth step) (runNested tree limit levels step) := by
  unfold levelsLeft at hl
  induction levels generalizing depth step with
  | zero => exact fun m => ⟨0, _, m, .tooDeep (by omega), rfl⟩
  | succ levels ih =>
    intro m
    have hinner (step : Step) :
        Meets respond tree limit (.step (depth + 1) step) (runNested tree limit levels step) :=
      ih (by omega) step
    obtain ⟨n, r, m', hlinks, hend⟩ := meets_chain hinner step m
    exact ⟨n, r, m', .chain (by omega) hlinks, hend⟩

/-- Every run comes to its end: whatever steps a tree is built from, whatever the limit of nesting
is, from whatever context and however it is answered, the rules lead in finitely many runs of a step
to a result or a fault, which is that of the run, and to nothing else. -/
theorem run_comes_to_end (respond : σ → (r : Request) → r.Answer × σ) (steps : List Step)
    (limit : Int) (c : Context) (s : σ) :
    ∃ n r m', Ends respond (runTree (.ofSteps steps) limit) ⟨c, s⟩ r m' ∧
      Executes respond (.ofSteps steps) limit (.steps 0 (StepTree.ofSteps steps).roots) ⟨c, s⟩ n r
        m' ∧
      ∀ n' r' m'', Executes respond (.ofSteps steps) limit
        (.steps 0 (StepTree.ofSteps steps).roots) ⟨c, s⟩ n' r' m'' →
          n' = n ∧ r' = r ∧ m'' = m' := by
  have hinner (step : Step) : Meets respond (.ofSteps steps) limit (.step 0 step)
      (runAt (.ofSteps steps) limit 0 step) := meets_nested rfl step
  obtain ⟨n, r, m', hsteps, hend⟩ := meets_steps hinner (StepTree.ofSteps steps).roots ⟨c, s⟩
  exact ⟨n, r, m', hend, hsteps, fun n' r' m'' h => h.unique hsteps⟩

end Stepwise.Run
