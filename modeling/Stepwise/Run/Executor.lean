import Stepwise.Condition
import Stepwise.Run.Stage
import Stepwise.Step.Chain
import Stepwise.Template.Interpolate

/-!
# Running steps

A step is run between two entries of the log. Steps of the tree run in order, each followed by its
chain of successors; conditions and loops run their children one level deeper, down to a limit.
The levels that are left bound the recursion, so every run ends whatever the links of the tree are.
A cancellation is looked for before each step, and while a step waits.
-/

namespace Stepwise.Run

open Stage

/-- Runs one step after another. -/
abbrev Runner := Step → Stage Unit

/-- A configured template, filled. -/
def filled (step : Step) (name : String) : Stage Value :=
  fromRoot fun root => Template.interpolate root (step.config.field name)

/-- The fields that a created task is given. -/
def taskFields (step : Step) : Stage Fields := do
  let title ← filled step "title"
  let description ← filled step "description"
  let plain (name : String) : Key × Value := (.text name, step.config.field name)
  return [(.text "title", title), (.text "description", description), plain "projectId",
    plain "assigneeId", plain "status", plain "priority"]

/-- The fields of a task that a step changes: those that are configured. -/
def taskChanges (step : Step) : Stage Fields := do
  let plain := ["status", "priority", "assigneeId"].filterMap fun name =>
    match step.config.field name with
    | .null => none
    | value => some (Key.text name, value)
  let template (name : String) : Stage Fields :=
    if (step.config.field name).isTruthy then do
      return [(.text name, ← filled step name)]
    else return []
  let title ← template "title"
  let description ← template "description"
  return plain ++ title ++ description

/-- An answer of the store. -/
def stored {α : Type} (r : Except Fault α) : Stage α := ofExcept r

/-- Runs an action step. -/
def runAction (step : Step) : Stage Unit :=
  let action := step.config.field "actionType"
  match ActionKind.ofValue? action with
  | some .createTask => do
    let fields ← taskFields step
    let task ← stored (← ask (.createTask fields))
    assign (.text "createdTask") task
  | some .updateTask => do
    let changes ← taskChanges step
    let task ← stored (← ask (.updateTask (step.config.field "taskId") changes))
    assign (.text "updatedTask") task
  | some .deleteTask => do stored (← ask (.deleteTask (step.config.field "taskId")))
  | some .setVariable =>
    let name := step.config.field "name"
    if name.isTruthy then do assign name (← filled step "value")
    else fail .namelessVariable
  | none => fail (.unknownAction action)

/-- The children of a condition that belong to one of its outcomes. -/
def branchSteps (tree : StepTree) (step : Step) (outcome : Bool) : List Step :=
  let branch := if outcome then "true" else "false"
  (tree.childrenOf step.id).filter fun child =>
    (child.config.field "branch").equal (.text branch)

/-- Runs a condition step; the outcome is kept in a variable of its own. -/
def runCondition (tree : StepTree) (inner : Runner) (step : Step) : Stage Unit := do
  let left ← filled step "left"
  let right ← filled step "right"
  let outcome ← ofExcept (Condition.evaluate (step.config.field "operator") left right)
  assign (.text ("condition_" ++ step.id)) (.bool outcome)
  forEach inner (branchSteps tree step outcome)

/-- Runs a loop step: all its children for each item. The items are taken once, before the first
round. -/
def runLoop (tree : StepTree) (inner : Runner) (step : Step) : Stage Unit := do
  let items ← fromRoot fun root => Template.resolve root (step.config.field "items")
  match items with
  | .list items =>
    let name := step.config.field "variableName"
    if name.isTruthy then
      forEach (fun item => do
        assign name item
        forEach inner (tree.childrenOf step.id)) items
    else fail .namelessLoop
  | _ => fail .itemsNotList

/-- The double that a configured duration is. -/
def durationOf : Value → Except Fault Double
  | .bool b => .ok (.ofInt b.toInt)
  | .int n =>
    match Double.ofInt? n with
    | some x => .ok x
    | none => .error .intTooLarge
  | .double x => .ok x
  | .text s =>
    match Double.read? s.toList with
    | some x => .ok x
    | none => .error (.unreadableNumber s)
  | value => .error (.notNumber value.kind)

/-- The microseconds of a duration in milliseconds; a negative one is none, an infinite one never
ends. -/
def microsOf : Double → Option Nat
  | .infinite false => none
  | .finite false mantissa exponent _ =>
    some (roundHalfEven (mantissa * Nat.pow 2 exponent * 1000) Double.scale)
  | _ => some 0

/-- Runs a delay step. -/
def runDelay (step : Step) : Stage Unit := do
  let duration ← ofExcept (durationOf ((step.config.field "duration").orElse (.int 0)))
  let broken : Bool ← ask (.wait (microsOf duration))
  if broken then fail .cancelled

/-- Runs a webhook step: sends a call and keeps what it answers. -/
def runWebhook (step : Step) : Stage Unit := do
  let url := step.config.field "url"
  if !url.isTruthy then fail .urlMissing
  else
    let body ← if (step.config.field "body").isTruthy then filled step "body" else result .null
    let method := (step.config.field "method").orElse (.text "POST")
    let headers := (step.config.field "headers").orElse (.object [])
    let call ← ofExcept (Outbound.Call.build url method headers body)
    let outcome ← ask (.send call)
    assign (.text "webhookResponse") (← ofExcept (Outbound.Outcome.value call.url outcome))

/-- Runs a notification step. -/
def runNotification (step : Step) : Stage Unit := do
  let title ← filled step "title"
  let message ← filled step "message"
  stored (← ask (.notify (step.config.field "userId") (title.orElse (.text ""))
    (message.orElse (.text ""))))

/-- Does what a step is for; `inner` runs its children. -/
def runBody (tree : StepTree) (inner : Runner) (step : Step) : Stage Unit :=
  match StepKind.ofName? step.type with
  | some .action => runAction step
  | some .condition => runCondition tree inner step
  | some .loop => runLoop tree inner step
  | some .delay => runDelay step
  | some .webhook => runWebhook step
  | some .notification => runNotification step
  | none => fail (.unknownStepType step.type)

/-- Runs one step between its entries of the log, unless the run was cancelled. -/
def runStep (tree : StepTree) (inner : Runner) (step : Step) : Stage Unit := do
  let cancelled : Bool ← ask .cancelled
  if cancelled then fail .cancelled
  else
    record step.name step.type .started none
    match ← attempt (runBody tree inner step) with
    | .ok () => record step.name step.type .completed none
    | .error .cancelled => fail .cancelled
    | .error fault =>
      record step.name step.type .failed (some fault.recorded)
      fail fault

/-- Runs a step and its chain of successors; a chain that comes back to one of its steps is a
fault once the steps before have run. -/
def runChain (tree : StepTree) (inner : Runner) (step : Step) : Stage Unit := do
  let chain := tree.chain step
  forEach (runStep tree inner) chain.steps
  match chain.repeated with
  | some step => fail (.cyclic step.name)
  | none => return ()

/-- Runs a step with its chain, where `levels` more levels of nesting are left under `limit`. -/
def runNested (tree : StepTree) (limit : Int) : Nat → Runner
  | 0, step => fail (.tooDeep limit step.name)
  | levels + 1, step => runChain tree (runNested tree limit levels) step

/-- The levels that are left at a depth under a limit. -/
def levelsLeft (limit depth : Int) : Nat := (limit + 1 - depth).toNat

/-- Runs a step with its chain at a depth. -/
def runAt (tree : StepTree) (limit depth : Int) (step : Step) : Stage Unit :=
  runNested tree limit (levelsLeft limit depth) step

/-- Runs the roots of a tree with their chains. -/
def runTree (tree : StepTree) (limit : Int) : Stage Unit :=
  forEach (runAt tree limit 0) tree.roots

end Stepwise.Run
