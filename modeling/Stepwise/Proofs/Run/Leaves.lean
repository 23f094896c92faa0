import Stepwise.Proofs.Run.LogGrammar

/-!
# Steps without children, request by request

A step without children computes what it needs, makes one request at most, and ends. Unless it fails
it may set one variable, which its configuration tells; if it fails, the context is as it was, and
the store has done nothing that was requested.
-/

namespace Stepwise.Run

variable {α β : Type}

/-- The variable that an action sets. -/
def actionTarget? (step : Step) : Option Key :=
  match ActionKind.ofValue? (step.config.field "actionType") with
  | some .createTask => some (.text "createdTask")
  | some .updateTask => some (.text "updatedTask")
  | some .setVariable =>
    if (step.config.field "name").isTruthy then (step.config.field "name").toKey? else none
  | some .deleteTask | none => none

/-- The variable that a step sets of itself. -/
def target? (step : Step) : Option Key :=
  match StepKind.ofName? step.type with
  | some .action => actionTarget? step
  | some .condition => some (outcomeKey step)
  | some .loop =>
    if (step.config.field "variableName").isTruthy then
      (step.config.field "variableName").toKey? else none
  | some .webhook => some (.text "webhookResponse")
  | some .delay | some .notification | none => none

/-- A variable is set. -/
def Context.assign (c : Context) (key : Key) (value : Value) : Context :=
  { c with vars := c.vars.set key value }

/-- The store has done what was requested. -/
def Request.Done : (r : Request) → r.Answer → Prop
  | .createTask _, answer => ∃ task : Value, answer = .ok task
  | .updateTask _ _, answer => ∃ task : Value, answer = .ok task
  | .deleteTask _, answer => answer = .ok ()
  | .notify _ _ _, answer => answer = .ok ()
  | .now, _ | .cancelled, _ | .wait _, _ | .send _, _ => False

/-- What a step without children leaves of a context: a fault leaves it as it was, and a result with
one variable set at most. -/
inductive Settled (key? : Option Key) (c : Context) : Except Fault Unit × Context → Prop
  | failed (fault : Fault) : Settled key? c (.error fault, c)
  | kept : Settled key? c (.ok (), c)
  | assigned {key : Key} (h : key? = some key) (value : Value) :
      Settled key? c (.ok (), c.assign key value)

/-- A program that makes one request at most, and does not fail once the store has done what was
requested. -/
inductive Single (key? : Option Key) (c : Context) :
    Program surroundings (Except Fault Unit × Context) → Prop
  | done {out : Except Fault Unit × Context} (h : Settled key? c out) : Single key? c (.done out)
  | asked {r : Request} {settle : r.Answer → Except Fault Unit × Context}
      (h : ∀ answer, Settled key? c (settle answer))
      (hd : ∀ answer, r.Done answer → (settle answer).1 = .ok ()) :
      Single key? c (.ask r fun answer => .done (settle answer))

namespace Stage

/-- A stage that only computes. -/
def Plain (stage : Stage α) : Prop := ∀ c, ∃ r, stage c = .done (r, c)

theorem plain_result (a : α) : Plain (result a) := fun _ => ⟨.ok a, rfl⟩

theorem plain_ofExcept (r : Except Fault α) : Plain (ofExcept r) := fun _ => ⟨r, rfl⟩

theorem plain_fromRoot (f : Fields → Except Fault α) : Plain (fromRoot f) :=
  fun c => ⟨f c.root, rfl⟩

theorem Plain.andThen {stage : Stage α} {f : α → Stage β} (hs : Plain stage)
    (hf : ∀ a, Plain (f a)) : Plain (stage.andThen f) := by
  intro c
  obtain ⟨fault | a, hr⟩ := hs c
  · exact ⟨.error fault, andThen_of_fault hr⟩
  · rw [andThen_of_done hr]
    exact hf a c

variable {key? : Option Key}

/-- From every context on, the stage makes one request at most. -/
def IsSingle (key? : Option Key) (stage : Stage Unit) : Prop := ∀ c, Single key? c (stage c)

theorem single_fail (fault : Fault) : IsSingle key? (fail fault) := fun _ => .done (.failed fault)

theorem single_assign {name : Value} (h : ∀ key, name.toKey? = some key → key? = some key)
    (value : Value) : IsSingle key? (assign name value) := by
  intro c
  unfold assign
  split
  · rename_i key hkey
    exact .done (.assigned (h key hkey) value)
  · exact .done (.failed _)

theorem Plain.andThen_single {stage : Stage α} {f : α → Stage Unit} (hs : Plain stage)
    (hf : ∀ a, IsSingle key? (f a)) : IsSingle key? (stage.andThen f) := by
  intro c
  obtain ⟨fault | a, hr⟩ := hs c
  · rw [andThen_of_fault hr]
    exact .done (.failed fault)
  · rw [andThen_of_done hr]
    exact hf a c

/-- A request, and what is done with its answer at once. -/
theorem single_ask_andThen {r : Request} {f : r.Answer → Stage Unit}
    (h : ∀ c answer, ∃ out, f answer c = .done out ∧ Settled key? c out ∧
      (r.Done answer → out.1 = .ok ())) : IsSingle key? ((ask r).andThen f) := by
  intro c
  choose out hout hsettled hdone using h c
  have heq : (ask r).andThen f c = .ask r fun answer => .done (out answer) :=
    congrArg (@Program.ask surroundings _ r) (funext hout)
  rw [heq]
  exact .asked hsettled hdone

end Stage

/-! ## The kinds of steps -/

open Stage

theorem plain_filled (step : Step) (name : String) : Plain (filled step name) := plain_fromRoot _

theorem plain_taskFields (step : Step) : Plain (taskFields step) :=
  (plain_filled step "title").andThen fun _ =>
    (plain_filled step "description").andThen fun _ => plain_result _

theorem plain_taskChanges (step : Step) : Plain (taskChanges step) := by
  have htemplate (name : String) : Plain (if (step.config.field name).isTruthy then do
      return [(Key.text name, ← filled step name)] else return [] : Stage Fields) := by
    split_ifs
    · exact (plain_filled step name).andThen fun _ => plain_result _
    · exact plain_result _
  exact (htemplate "title").andThen fun _ => (htemplate "description").andThen fun _ =>
    plain_result _

theorem plain_callBody (step : Step) : Plain (callBody step) := by
  unfold callBody
  split_ifs
  · exact plain_filled step "body"
  · exact plain_result _

/-- A task that was created or changed is kept in a variable. -/
def keepTask (name : String) (answer : Except Fault Value) : Stage Unit :=
  (stored answer).andThen (assign (.text name))

theorem keepTask_eq (name : String) (answer : Except Fault Value) (c : Context) :
    keepTask name answer c = .done (match answer with
      | .ok task => (.ok (), c.assign (.text name) task)
      | .error fault => (.error fault, c)) := by
  cases answer with
  | ok task => rfl
  | error fault => rfl

theorem runAction_createTask {step : Step}
    (h : ActionKind.ofValue? (step.config.field "actionType") = some .createTask) :
    runAction step = (taskFields step).andThen fun fields =>
      (ask (.createTask fields)).andThen (keepTask "createdTask") := by
  rw [runAction, h]
  rfl

theorem runAction_updateTask {step : Step}
    (h : ActionKind.ofValue? (step.config.field "actionType") = some .updateTask) :
    runAction step = (taskChanges step).andThen fun changes =>
      (ask (.updateTask (step.config.field "taskId") changes)).andThen
        (keepTask "updatedTask") := by
  rw [runAction, h]
  rfl

theorem settled_keepTask (name : String) (answer : Except Fault Value) (c : Context) :
    ∃ out, keepTask name answer c = .done out ∧ Settled (some (.text name)) c out ∧
      ((∃ task : Value, answer = .ok task) → out.1 = .ok ()) := by
  refine ⟨_, keepTask_eq name answer c, ?_⟩
  cases answer with
  | ok task => exact ⟨.assigned rfl task, fun _ => rfl⟩
  | error fault => exact ⟨.failed fault, nofun⟩

theorem single_runAction (step : Step) : IsSingle (actionTarget? step) (runAction step) := by
  cases ha : ActionKind.ofValue? (step.config.field "actionType") with
  | none =>
    rw [runAction, ha]
    exact single_fail _
  | some kind =>
    cases kind with
    | createTask =>
      rw [runAction_createTask ha, actionTarget?, ha]
      exact (plain_taskFields step).andThen_single fun fields =>
        single_ask_andThen fun c answer => settled_keepTask "createdTask" answer c
    | updateTask =>
      rw [runAction_updateTask ha, actionTarget?, ha]
      exact (plain_taskChanges step).andThen_single fun changes =>
        single_ask_andThen fun c answer => settled_keepTask "updatedTask" answer c
    | deleteTask =>
      rw [runAction, ha]
      refine single_ask_andThen fun c (answer : Except Fault Unit) => ⟨_, rfl, ?_, fun h => h⟩
      cases answer with
      | ok => exact .kept
      | error fault => exact .failed fault
    | setVariable =>
      rw [runAction, actionTarget?, ha]
      dsimp only
      split_ifs
      · exact (plain_filled step "value").andThen_single fun value =>
          single_assign (fun _ hkey => hkey) value
      · exact single_fail _

theorem single_runDelay (step : Step) : IsSingle none (runDelay step) := by
  refine (plain_ofExcept _).andThen_single fun duration => single_ask_andThen fun c answer => ?_
  cases (answer : Bool) with
  | false => exact ⟨_, rfl, .kept, nofun⟩
  | true => exact ⟨_, rfl, .failed _, nofun⟩

theorem single_runWebhook (step : Step) :
    IsSingle (some (.text "webhookResponse")) (runWebhook step) := by
  rw [runWebhook_eq]
  split_ifs
  · refine (plain_callBody step).andThen_single fun body =>
      (plain_ofExcept _).andThen_single fun call => single_ask_andThen fun c outcome => ?_
    cases hvalue : Outbound.Outcome.value call.url outcome with
    | error fault => exact ⟨(.error fault, c), rfl, .failed fault, nofun⟩
    | ok value => exact ⟨(.ok (), c.assign _ value), rfl, .assigned rfl value, nofun⟩
  · exact single_fail _

theorem single_runNotification (step : Step) : IsSingle none (runNotification step) := by
  refine (plain_filled step "title").andThen_single fun title =>
    (plain_filled step "message").andThen_single fun message =>
      single_ask_andThen fun c (answer : Except Fault Unit) => ⟨_, rfl, ?_, fun h => h⟩
  cases answer with
  | ok => exact .kept
  | error fault => exact .failed fault

/-- A step without children makes one request at most, and sets no variable but its own. -/
theorem single_leafStage? {step : Step} {stage : Stage Unit} (h : leafStage? step = some stage) :
    IsSingle (target? step) stage := by
  unfold leafStage? at h
  unfold target?
  cases hk : StepKind.ofName? step.type with
  | none =>
    rw [hk] at h
    cases h
  | some kind =>
    rw [hk] at h
    cases kind with
    | action => exact Option.some.inj h ▸ single_runAction step
    | delay => exact Option.some.inj h ▸ single_runDelay step
    | webhook => exact Option.some.inj h ▸ single_runWebhook step
    | notification => exact Option.some.inj h ▸ single_runNotification step
    | condition => cases h
    | loop => cases h

/-- What a step is for: it has no children, or it is a condition or a loop, or of no kind. -/
theorem runBody_cases (tree : StepTree) (inner : Runner) (step : Step) :
    (∃ stage, leafStage? step = some stage ∧ runBody tree inner step = stage) ∨
    (StepKind.ofName? step.type = some .condition ∧
      runBody tree inner step = runCondition tree inner step) ∨
    (StepKind.ofName? step.type = some .loop ∧
      runBody tree inner step = runLoop tree inner step) ∨
    (StepKind.ofName? step.type = none ∧
      runBody tree inner step = fail (.unknownStepType step.type)) := by
  unfold leafStage? runBody
  cases StepKind.ofName? step.type with
  | none => exact .inr (.inr (.inr ⟨rfl, rfl⟩))
  | some kind =>
    cases kind with
    | condition => exact .inr (.inl ⟨rfl, rfl⟩)
    | loop => exact .inr (.inr (.inl ⟨rfl, rfl⟩))
    | action => exact .inl ⟨_, rfl, rfl⟩
    | delay => exact .inl ⟨_, rfl, rfl⟩
    | webhook => exact .inl ⟨_, rfl, rfl⟩
    | notification => exact .inl ⟨_, rfl, rfl⟩

end Stepwise.Run
