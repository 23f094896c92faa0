import Mathlib.Tactic.Common
import Stepwise.Run.Executor

/-!
# Steps request by request

A step, a condition and a loop are written as stages. Here each of them is put as the program it is
from a given context: what is asked first, what is computed at once, and where the children come in.
-/

namespace Stepwise.Run

variable {α β : Type}

namespace Stage

theorem andThen_of_done {stage : Stage α} {f : α → Stage β} {c c' : Context} {a : α}
    (h : stage c = .done (.ok a, c')) : stage.andThen f c = f a c' := by
  simp [andThen, h]

theorem andThen_of_fault {stage : Stage α} {f : α → Stage β} {c c' : Context} {fault : Fault}
    (h : stage c = .done (.error fault, c')) :
    stage.andThen f c = .done (.error fault, c') := by
  simp [andThen, h]

theorem andThen_assoc {γ : Type} (stage : Stage α) (f : α → Stage β) (g : β → Stage γ) :
    (stage.andThen f).andThen g = stage.andThen fun a => (f a).andThen g := by
  funext c
  unfold andThen
  rw [Program.bind_assoc]
  congr 1
  funext out
  obtain ⟨fault | a, c'⟩ := out
  · rfl
  · rfl

end Stage

/-- The context with one more entry in its log. -/
def Context.logged (c : Context) (e : Entry) : Context := { c with log := c.log ++ [e] }

/-- The entry of a step at a time. -/
def stepEntry (step : Step) (time : Instant) (mark : Mark) (error : Option String) : Entry :=
  ⟨time, step.name, step.type, mark, error⟩

/-- The end of a step: its second entry, unless it was cut off. -/
def finish (step : Step) :
    Except Fault Unit × Context → Program surroundings (Except Fault Unit × Context)
  | (.ok (), c) => .ask .now fun time =>
    .done (.ok (), c.logged (stepEntry step time .completed none))
  | (.error .cancelled, c) => .done (.error .cancelled, c)
  | (.error fault, c) => .ask .now fun time =>
    .done (.error fault, c.logged (stepEntry step time .failed (some fault.recorded)))

theorem finish_fault (step : Step) {fault : Fault} (h : fault ≠ .cancelled) (c : Context) :
    finish step (.error fault, c) = .ask .now fun time =>
      .done (.error fault, c.logged (stepEntry step time .failed (some fault.recorded))) := by
  unfold finish
  split
  · simp_all
  · simp_all
  · simp_all

/-- A step looks for a cancellation, makes its first entry, does what it is for, and ends. -/
theorem runStep_eq (tree : StepTree) (inner : Runner) (step : Step) (c : Context) :
    runStep tree inner step c = .ask .cancelled fun (told : Bool) =>
      if told = true then .done (.error .cancelled, c)
      else .ask .now fun time =>
        (runBody tree inner step (c.logged (stepEntry step time .started none))).bind
          (finish step) := by
  refine congrArg (@Program.ask surroundings _ Request.cancelled) (funext ?_)
  rintro (_ | _)
  · refine congrArg (@Program.ask surroundings _ Request.now) (funext fun time => ?_)
    show ((runBody tree inner step _).bind _).bind _ = (runBody tree inner step _).bind _
    rw [Program.bind_assoc]
    congr 1
    funext out
    obtain ⟨fault | ⟨⟩, c'⟩ := out
    · by_cases h : fault = .cancelled
      · subst h
        rfl
      · rw [finish_fault step h]
        simp only [Program.bind_done]
        rfl
    · rfl
  · rfl

/-- The body of the call of a webhook step. -/
def callBody (step : Step) : Stage Value :=
  if (step.config.field "body").isTruthy then filled step "body" else Stage.result .null

/-- Builds the call of a webhook step, sends it and keeps its answer. -/
def sendCall (step : Step) (body : Value) : Stage Unit :=
  (Stage.ofExcept (Outbound.Call.build (step.config.field "url")
    ((step.config.field "method").orElse (.text "POST"))
    ((step.config.field "headers").orElse (.object [])) body)).andThen fun call =>
      (Stage.ask (.send call)).andThen fun outcome =>
        (Stage.ofExcept (Outbound.Outcome.value call.url outcome)).andThen
          (Stage.assign (.text "webhookResponse"))

theorem runWebhook_eq (step : Step) :
    runWebhook step = if (step.config.field "url").isTruthy then
      (callBody step).andThen (sendCall step) else Stage.fail .urlMissing := by
  unfold runWebhook callBody
  dsimp only
  cases (step.config.field "url").isTruthy with
  | false => rfl
  | true =>
    rw [if_neg (by simp), if_pos rfl]
    split_ifs
    · rfl
    · rfl

/-- The outcome of a condition step for the values that paths begin at. -/
def conditionOutcome (step : Step) (root : Fields) : Except Fault Bool := do
  let left ← Template.interpolate root (step.config.field "left")
  let right ← Template.interpolate root (step.config.field "right")
  Condition.evaluate (step.config.field "operator") left right

/-- The variable that keeps the outcome of a condition step. -/
def outcomeKey (step : Step) : Key := .text ("condition_" ++ step.id)

/-- A condition step computes its outcome at once, keeps it, and runs the children that belong to
it. -/
theorem runCondition_eq (tree : StepTree) (inner : Runner) (step : Step) (c : Context) :
    runCondition tree inner step c = match conditionOutcome step c.root with
      | .ok outcome => Stage.forEach inner (branchSteps tree step outcome)
          { c with vars := c.vars.set (outcomeKey step) (.bool outcome) }
      | .error fault => .done (.error fault, c) := by
  unfold runCondition conditionOutcome
  cases hl : Template.interpolate c.root (step.config.field "left") with
  | error fault => exact Stage.andThen_of_fault (by rw [← hl]; rfl)
  | ok left =>
    have hleft : filled step "left" c = .done (.ok left, c) := by
      rw [← hl]
      rfl
    refine (Stage.andThen_of_done hleft).trans ?_
    cases hr : Template.interpolate c.root (step.config.field "right") with
    | error fault => exact Stage.andThen_of_fault (by rw [← hr]; rfl)
    | ok right =>
      have hright : filled step "right" c = .done (.ok right, c) := by
        rw [← hr]
        rfl
      refine (Stage.andThen_of_done hright).trans ?_
      show (Stage.ofExcept (Condition.evaluate _ left right)).andThen _ c =
        match Condition.evaluate _ left right with | .ok _ => _ | .error _ => _
      cases Condition.evaluate (step.config.field "operator") left right with
      | error fault => rfl
      | ok outcome => rfl

/-- One round of a loop step: the item is put into the loop variable, and all children run. -/
def runRound (tree : StepTree) (inner : Runner) (step : Step) (item : Value) : Stage Unit :=
  (Stage.assign (step.config.field "variableName") item).andThen fun _ =>
    Stage.forEach inner (tree.childrenOf step.id)

/-- A loop step finds its items at once, and makes a round with each of them. -/
theorem runLoop_eq (tree : StepTree) (inner : Runner) (step : Step) (c : Context) :
    runLoop tree inner step c = match Template.resolve c.root (step.config.field "items") with
      | .ok (.list items) =>
        if (step.config.field "variableName").isTruthy then
          Stage.forEach (runRound tree inner step) items c
        else .done (.error .namelessLoop, c)
      | .ok _ => .done (.error .itemsNotList, c)
      | .error fault => .done (.error fault, c) := by
  unfold runLoop
  cases h : Template.resolve c.root (step.config.field "items") with
  | error fault => exact Stage.andThen_of_fault (by rw [← h]; rfl)
  | ok items =>
    have hitems : Stage.fromRoot (fun root => Template.resolve root (step.config.field "items")) c =
        .done (.ok items, c) := by
      rw [← h]
      rfl
    refine (Stage.andThen_of_done hitems).trans ?_
    cases items with
    | list items =>
      dsimp only
      split_ifs
      · rfl
      · rfl
    | _ => rfl

/-- The steps of a chain, and the fault if it comes back to one of them. -/
def runLinks (tree : StepTree) (inner : Runner) (chain : Chain) : Stage Unit :=
  (Stage.forEach (runStep tree inner) chain.steps).andThen fun _ =>
    match chain.repeated with
    | some step => Stage.fail (.cyclic step.name)
    | none => Stage.result ()

theorem runLinks_cons (tree : StepTree) (inner : Runner) (step : Step) (steps : List Step)
    (repeated : Option Step) :
    runLinks tree inner ⟨step :: steps, repeated⟩ =
      (runStep tree inner step).andThen fun _ => runLinks tree inner ⟨steps, repeated⟩ :=
  Stage.andThen_assoc _ _ _

/-- A chain that is at its end is run by doing nothing. -/
theorem runLinks_follow_none (tree : StepTree) (inner : Runner) (fuel : Nat)
    (seen : List String) : runLinks tree inner (tree.follow fuel seen none) = Stage.result () := by
  cases fuel with
  | zero => rfl
  | succ fuel => rfl

end Stepwise.Run
