import Stepwise.Proofs.Run.Discipline
import Stepwise.Proofs.Step.Relabel

/-!
# Runs that leave tasks alone

Only action steps create, change or delete tasks. A run of a tree in which no step does makes no
request about tasks, however it is answered.
-/

namespace Stepwise

/-- The step is an action that creates, changes or deletes a task. -/
def Step.changesTasks (step : Step) : Bool :=
  StepKind.ofName? step.type == some .action &&
    match ActionKind.ofValue? (step.config.field "actionType") with
    | some .createTask | some .updateTask | some .deleteTask => true
    | some .setVariable | none => false

namespace Run

/-- A request about a task. -/
def Request.isAboutTask : Request → Bool
  | .createTask _ | .updateTask _ _ | .deleteTask _ => true
  | .now | .cancelled | .wait _ | .send _ | .notify _ _ _ => false

/-- A program of a run that makes no request about a task. -/
abbrev SparesTasks {α : Type} (p : Program surroundings α) : Prop :=
  p.AsksOnly fun r => r.isAboutTask = false

namespace Stage

variable {α β : Type}

/-- A stage that makes no request about a task. -/
def SparesTasks (stage : Stage α) : Prop := ∀ c, Run.SparesTasks (stage c)

theorem Silent.sparesTasks {stage : Stage α} (h : Silent stage) : SparesTasks stage := by
  intro c
  obtain ⟨_, _, hdone, _⟩ := h c
  rw [hdone]
  trivial

theorem SparesTasks.andThen {stage : Stage α} {f : α → Stage β} (hs : SparesTasks stage)
    (hf : ∀ a, SparesTasks (f a)) : SparesTasks (stage.andThen f) := by
  refine fun c => (hs c).bind ?_
  rintro ⟨fault | a, c'⟩
  · trivial
  · exact hf a c'

theorem sparesTasks_ask {r : Request} (h : r.isAboutTask = false) : SparesTasks (ask r) :=
  fun _ => ⟨h, fun _ _ => trivial⟩

theorem sparesTasks_forEach {f : α → Stage Unit} {items : List α}
    (hf : ∀ a ∈ items, SparesTasks (f a)) : SparesTasks (forEach f items) := by
  induction items with
  | nil => exact (silent_result ()).sparesTasks
  | cons a rest ih =>
    obtain ⟨ha, hrest⟩ := List.forall_mem_cons.mp hf
    exact ha.andThen fun _ => ih hrest

end Stage

open Stage

variable {tree : StepTree} {step : Step} {inner : Runner}

theorem sparesTasks_runAction (hk : StepKind.ofName? step.type = some .action)
    (h : step.changesTasks = false) : (runAction step).SparesTasks := by
  unfold runAction
  unfold Step.changesTasks at h
  rw [hk] at h
  dsimp only
  split
  · rename_i hkind
    simp [hkind] at h
  · rename_i hkind
    simp [hkind] at h
  · rename_i hkind
    simp [hkind] at h
  · split_ifs
    · exact ((silent_filled step "value").andThen fun _ => silent_assign _ _).sparesTasks
    · exact (silent_fail (by simp)).sparesTasks
  · exact (silent_fail (by simp)).sparesTasks

theorem sparesTasks_runDelay (step : Step) : (runDelay step).SparesTasks := by
  refine (silent_ofExcept (uncancelled_durationOf _)).sparesTasks.andThen fun duration => ?_
  refine (sparesTasks_ask rfl).andThen fun (broken : Bool) c => ?_
  cases broken with
  | false => trivial
  | true => trivial

theorem sparesTasks_runWebhook (step : Step) : (runWebhook step).SparesTasks := by
  rw [runWebhook_eq]
  split_ifs
  · refine (silent_callBody step).sparesTasks.andThen fun body => ?_
    refine (silent_ofExcept (Outbound.uncancelled_build _ _ _ _)).sparesTasks.andThen fun call => ?_
    refine (sparesTasks_ask rfl).andThen fun outcome => Silent.sparesTasks ?_
    exact (silent_ofExcept (Outbound.uncancelled_outcome _ outcome)).andThen (silent_assign _)
  · exact (silent_fail (by simp)).sparesTasks

theorem sparesTasks_runNotification (step : Step) : (runNotification step).SparesTasks := by
  refine (silent_filled step "title").sparesTasks.andThen fun title => ?_
  refine (silent_filled step "message").sparesTasks.andThen fun message => ?_
  exact (sparesTasks_ask rfl).andThen fun answer _ => trivial

theorem sparesTasks_runCondition (hi : ∀ child ∈ tree.steps, (inner child).SparesTasks)
    (step : Step) : (runCondition tree inner step).SparesTasks := by
  refine (silent_filled step "left").sparesTasks.andThen fun _ => ?_
  refine (silent_filled step "right").sparesTasks.andThen fun _ => ?_
  refine (silent_ofExcept (Condition.uncancelled_evaluate _ _ _)).sparesTasks.andThen fun _ => ?_
  refine (silent_assign _ _).sparesTasks.andThen fun _ => sparesTasks_forEach fun child hchild => ?_
  exact hi child (tree.childrenOf_subset _ (List.mem_of_mem_filter hchild))

theorem sparesTasks_runLoop (hi : ∀ child ∈ tree.steps, (inner child).SparesTasks)
    (step : Step) : (runLoop tree inner step).SparesTasks := by
  have hresolve := silent_fromRoot fun root =>
    Template.uncancelled_resolve root (step.config.field "items")
  refine hresolve.sparesTasks.andThen fun items => ?_
  split
  · dsimp only
    split_ifs
    · refine sparesTasks_forEach fun item _ => ?_
      refine (silent_assign _ item).sparesTasks.andThen fun _ => ?_
      exact sparesTasks_forEach fun child hchild => hi child (tree.childrenOf_subset _ hchild)
    · exact (silent_fail (by simp)).sparesTasks
  · exact (silent_fail (by simp)).sparesTasks

theorem sparesTasks_runBody (h : step.changesTasks = false)
    (hi : ∀ child ∈ tree.steps, (inner child).SparesTasks) :
    (runBody tree inner step).SparesTasks := by
  unfold runBody
  split
  · rename_i hk
    exact sparesTasks_runAction hk h
  · exact sparesTasks_runCondition hi step
  · exact sparesTasks_runLoop hi step
  · exact sparesTasks_runDelay step
  · exact sparesTasks_runWebhook step
  · exact sparesTasks_runNotification step
  · exact (silent_fail (by simp)).sparesTasks

theorem sparesTasks_finish (step : Step) (out : Except Fault Unit × Context) :
    SparesTasks (finish step out) := by
  obtain ⟨fault | ⟨⟩, c⟩ := out
  · by_cases hf : fault = .cancelled
    · subst hf
      trivial
    · rw [finish_fault step hf]
      exact ⟨rfl, fun _ _ => trivial⟩
  · exact ⟨rfl, fun _ _ => trivial⟩

theorem sparesTasks_runStep (h : step.changesTasks = false)
    (hi : ∀ child ∈ tree.steps, (inner child).SparesTasks) :
    (runStep tree inner step).SparesTasks := by
  intro c
  rw [runStep_eq]
  refine ⟨rfl, fun (told : Bool) _ => ?_⟩
  cases told with
  | true => trivial
  | false =>
    refine ⟨rfl, fun time _ => ?_⟩
    exact (sparesTasks_runBody h hi _).bind (sparesTasks_finish step)

theorem sparesTasks_runChain (ht : ∀ step ∈ tree.steps, step.changesTasks = false)
    (hs : step ∈ tree.steps) (hi : ∀ child ∈ tree.steps, (inner child).SparesTasks) :
    (runChain tree inner step).SparesTasks := by
  refine (sparesTasks_forEach fun link hlink => ?_).andThen fun _ => ?_
  · exact sparesTasks_runStep (ht link (StepTree.mem_of_mem_chain hs link hlink)) hi
  · split
    · exact (silent_fail (by simp)).sparesTasks
    · exact (silent_result ()).sparesTasks

/-- By induction on the levels that are left, as the steps nest. -/
theorem sparesTasks_runNested (ht : ∀ step ∈ tree.steps, step.changesTasks = false) (limit : Int)
    (levels : Nat) : ∀ step ∈ tree.steps, (runNested tree limit levels step).SparesTasks := by
  induction levels with
  | zero => exact fun _ _ => (silent_fail (by simp)).sparesTasks
  | succ levels ih => exact fun step hs => sparesTasks_runChain ht hs ih

/-- A run of steps that change no tasks makes no request about a task. -/
theorem sparesTasks_runTree (ht : ∀ step ∈ tree.steps, step.changesTasks = false) (limit : Int)
    (c : Context) : SparesTasks (runTree tree limit c) :=
  sparesTasks_forEach
    (fun step hs => sparesTasks_runNested ht limit _ step (tree.roots_subset hs)) c

end Run

end Stepwise
