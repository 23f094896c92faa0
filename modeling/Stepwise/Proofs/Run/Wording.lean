import Stepwise.Proofs.Run.Leaves
import Stepwise.Proofs.Store.Wording

/-!
# What a run makes of the wording of a refusal

A run that the store refuses something ends with the fault, and closes its open steps with the text
of the fault; nothing else that it does depends on what the fault quotes. So a run that is answered
alike does alike, request by request: it comes to the same results with the same variables, and if
it fails, its faults and its log are the same but for ids that are quoted.
-/

namespace Stepwise.Run

open Stage

variable {α β : Type}

/-- Two texts are the same, or those of faults that are alike. -/
def TextsAlike (text text' : String) : Prop :=
  text = text' ∨ ∃ fault fault' : Fault,
    fault.Alike fault' ∧ text = fault.recorded ∧ text' = fault'.recorded

/-- Two texts that may be missing. -/
abbrev ErrorsAlike (error error' : Option String) : Prop := Option.Rel TextsAlike error error'

/-- Two entries of a log are the same, but for ids in the texts of faults. -/
structure Entry.Alike (e e' : Entry) : Prop where
  time : e.time = e'.time
  step : e.step = e'.step
  type : e.type = e'.type
  mark : e.mark = e'.mark
  error : ErrorsAlike e.error e'.error

/-- Two logs with entries that are alike. -/
abbrev LogsAlike (log log' : List Entry) : Prop := List.Forall₂ Entry.Alike log log'

/-- Two contexts are the same, but for ids in the texts of faults. -/
structure Context.Alike (c c' : Context) : Prop where
  input : c.input = c'.input
  vars : c.vars = c'.vars
  log : LogsAlike c.log c'.log

/-- Two answers to a request are the same, or refusals that are alike. -/
def Request.AnswersAlike : (r : Request) → r.Answer → r.Answer → Prop
  | .now, answer, answer' | .cancelled, answer, answer' | .wait _, answer, answer'
  | .send _, answer, answer' => answer = answer'
  | .createTask _, answer, answer' => ResultsAlike (· = ·) answer answer'
  | .updateTask _ _, answer, answer' => ResultsAlike (· = ·) answer answer'
  | .deleteTask _, answer, answer' => ResultsAlike (· = ·) answer answer'
  | .notify _ _ _, answer, answer' => ResultsAlike (· = ·) answer answer'

/-- Two programs that ask alike as long as they are answered alike, and end alike. -/
inductive Akin : Program surroundings (Except Fault α × Context) →
    Program surroundings (Except Fault α × Context) → Prop
  | done (a : α) (c : Context) : Akin (.done (.ok a, c)) (.done (.ok a, c))
  | failed {fault fault' : Fault} {c c' : Context} (hf : fault.Alike fault') (hc : c.Alike c') :
      Akin (.done (.error fault, c)) (.done (.error fault', c'))
  | ask (r : Request) {next next' : r.Answer → Program surroundings (Except Fault α × Context)}
      (h : ∀ answer answer', r.AnswersAlike answer answer' → Akin (next answer) (next' answer')) :
      Akin (.ask r next) (.ask r next')

theorem textsAlike_recorded {fault fault' : Fault} (h : fault.Alike fault') :
    TextsAlike fault.recorded fault'.recorded := .inr ⟨fault, fault', h, rfl, rfl⟩

theorem ErrorsAlike.refl (error : Option String) : ErrorsAlike error error := by
  cases error with
  | none => exact .none
  | some text => exact .some (.inl rfl)

theorem Entry.Alike.refl (e : Entry) : e.Alike e := ⟨rfl, rfl, rfl, rfl, ErrorsAlike.refl _⟩

theorem LogsAlike.refl (log : List Entry) : LogsAlike log log :=
  List.forall₂_same.mpr fun e _ => .refl e

theorem Context.Alike.refl (c : Context) : c.Alike c := ⟨rfl, rfl, .refl c.log⟩

theorem Context.Alike.logged {c c' : Context} (h : c.Alike c') {e e' : Entry} (he : e.Alike e') :
    (c.logged e).Alike (c'.logged e') :=
  ⟨h.input, h.vars, List.rel_append h.log (.cons he .nil)⟩

namespace Akin

theorem ended (out : Except Fault α × Context) :
    Akin (.done out) (.done out : Program surroundings (Except Fault α × Context)) := by
  obtain ⟨fault | a, c⟩ := out
  · exact .failed (.same fault) (.refl c)
  · exact .done a c

theorem bind {program program' : Program surroundings (Except Fault α × Context)}
    {f f' : Except Fault α × Context → Program surroundings (Except Fault β × Context)}
    (h : Akin program program') (hok : ∀ a c, Akin (f (.ok a, c)) (f' (.ok a, c)))
    (hfailed : ∀ (fault fault' : Fault) c c', fault.Alike fault' → c.Alike c' →
      Akin (f (.error fault, c)) (f' (.error fault', c'))) :
    Akin (program.bind f) (program'.bind f') := by
  induction h with
  | done a c => exact hok a c
  | failed hf hc => exact hfailed _ _ _ _ hf hc
  | ask r h ih => exact .ask r ih

end Akin

namespace Stage

/-- From every context on, the stage does alike if it is answered alike. -/
def Steady (stage : Stage α) : Prop := ∀ c, Akin (stage c) (stage c)

theorem Plain.steady {stage : Stage α} (h : Plain stage) : Steady stage := by
  intro c
  obtain ⟨r, hr⟩ := h c
  rw [hr]
  exact .ended (r, c)

theorem steady_fail (fault : Fault) : Steady (fail fault : Stage α) := fun _ => .ended _

theorem steady_assign (name value : Value) : Steady (assign name value) := by
  intro c
  unfold assign
  split
  · exact .ended _
  · exact .ended _

theorem Steady.andThen {stage : Stage α} {f : α → Stage β} (h : Steady stage)
    (hf : ∀ a, Steady (f a)) : Steady (stage.andThen f) :=
  fun c => (h c).bind (fun a c => hf a c) fun _ _ _ _ hfault hc => .failed hfault hc

theorem steady_forEach {f : α → Stage Unit} (h : ∀ a, Steady (f a)) (items : List α) :
    Steady (forEach f items) := by
  induction items with
  | nil => exact (plain_result ()).steady
  | cons a rest ih => exact (h a).andThen fun _ => ih

/-- A request that has one answer like each answer. -/
theorem steady_ask {r : Request} {f : r.Answer → Stage β}
    (h : ∀ answer answer', r.AnswersAlike answer answer' → answer = answer')
    (hf : ∀ answer, Steady (f answer)) : Steady ((ask r).andThen f) := by
  refine fun c => .ask r fun answer answer' ha => ?_
  obtain rfl := h answer answer' ha
  exact hf answer c

/-- What follows an answer of the store that may be a refusal. -/
theorem akin_stored {answer answer' : Except Fault α} (h : ResultsAlike (· = ·) answer answer')
    {f : α → Stage β} (hf : ∀ a, Steady (f a)) (c : Context) :
    Akin ((stored answer).andThen f c) ((stored answer').andThen f c) := by
  cases h with
  | ok h =>
    subst h
    exact hf _ c
  | error h => exact .failed h (.refl c)

end Stage

/-! ## The steps -/

theorem steady_filled (step : Step) (name : String) : Steady (filled step name) :=
  (plain_filled step name).steady

theorem steady_runAction (step : Step) : Steady (runAction step) := by
  cases ha : ActionKind.ofValue? (step.config.field "actionType") with
  | none =>
    rw [runAction, ha]
    exact steady_fail _
  | some kind =>
    cases kind with
    | createTask =>
      rw [runAction_createTask ha]
      refine (plain_taskFields step).steady.andThen fun fields c =>
        .ask (.createTask fields) fun answer answer' h => ?_
      exact akin_stored h (steady_assign _) c
    | updateTask =>
      rw [runAction_updateTask ha]
      refine (plain_taskChanges step).steady.andThen fun changes c =>
        .ask (.updateTask (step.config.field "taskId") changes) fun answer answer' h => ?_
      exact akin_stored h (steady_assign _) c
    | deleteTask =>
      rw [runAction, ha]
      refine fun c => .ask (.deleteTask (step.config.field "taskId")) fun answer answer' h => ?_
      cases h with
      | ok h => exact .ended _
      | error h => exact .failed h (.refl c)
    | setVariable =>
      rw [runAction, ha]
      dsimp only
      split_ifs
      · exact (steady_filled step "value").andThen (steady_assign _)
      · exact steady_fail _

theorem steady_runDelay (step : Step) : Steady (runDelay step) := by
  refine (plain_ofExcept _).steady.andThen fun duration => ?_
  refine steady_ask (fun _ _ h => h) fun (broken : Bool) => ?_
  cases broken with
  | false => exact (plain_result ()).steady
  | true => exact steady_fail _

theorem steady_runWebhook (step : Step) : Steady (runWebhook step) := by
  rw [runWebhook_eq]
  split_ifs
  · refine (plain_callBody step).steady.andThen fun body => ?_
    refine (plain_ofExcept _).steady.andThen fun call => ?_
    refine steady_ask (fun _ _ h => h) fun outcome => ?_
    exact (plain_ofExcept _).steady.andThen (steady_assign _)
  · exact steady_fail _

theorem steady_runNotification (step : Step) : Steady (runNotification step) := by
  refine (steady_filled step "title").andThen fun title => ?_
  refine (steady_filled step "message").andThen fun message c => ?_
  refine .ask (.notify (step.config.field "userId") (title.orElse (.text ""))
    (message.orElse (.text ""))) fun answer answer' h => ?_
  cases h with
  | ok h => exact .ended _
  | error h => exact .failed h (.refl c)

section

variable {tree : StepTree} {inner : Runner} (hi : ∀ step, Steady (inner step))

include hi

theorem steady_runCondition (step : Step) : Steady (runCondition tree inner step) := by
  intro c
  rw [runCondition_eq]
  cases conditionOutcome step c.root with
  | error fault => exact .ended _
  | ok outcome => exact steady_forEach hi _ _

theorem steady_runLoop (step : Step) : Steady (runLoop tree inner step) := by
  intro c
  rw [runLoop_eq]
  have hround (item : Value) : Steady (runRound tree inner step item) :=
    (steady_assign _ item).andThen fun _ => steady_forEach hi _
  split
  · split_ifs
    · exact steady_forEach hround _ c
    · exact .ended _
  · exact .ended _
  · exact .ended _

theorem steady_runBody (step : Step) : Steady (runBody tree inner step) := by
  unfold runBody
  split
  · exact steady_runAction step
  · exact steady_runCondition hi step
  · exact steady_runLoop hi step
  · exact steady_runDelay step
  · exact steady_runWebhook step
  · exact steady_runNotification step
  · exact steady_fail _

/-- A step that fails is closed with the text of its fault. -/
theorem steady_runStep (step : Step) : Steady (runStep tree inner step) := by
  intro c
  rw [runStep_eq]
  refine .ask .cancelled fun (told told' : Bool) (h : told = told') => ?_
  subst h
  split_ifs
  · exact .ended _
  · refine .ask .now fun time time' (h : time = time') => ?_
    subst h
    refine (steady_runBody hi step _).bind (fun _ c => ?_) fun fault fault' c c' hfault hc => ?_
    · refine .ask .now fun time time' (h : time = time') => ?_
      subst h
      exact .ended _
    · by_cases hcancelled : fault = .cancelled
      · obtain rfl := hcancelled
        obtain rfl := hfault.eq_cancelled_iff.mp rfl
        exact .failed hfault hc
      · rw [finish_fault step hcancelled,
          finish_fault step (mt hfault.eq_cancelled_iff.mpr hcancelled)]
        refine .ask .now fun time time' (h : time = time') => ?_
        subst h
        exact .failed hfault
          (hc.logged ⟨rfl, rfl, rfl, rfl, .some (textsAlike_recorded hfault)⟩)

theorem steady_runChain (step : Step) : Steady (runChain tree inner step) := by
  refine (steady_forEach (steady_runStep hi) _).andThen fun _ => ?_
  split
  · exact steady_fail _
  · exact (plain_result ()).steady

end

/-- By induction on the levels that are left. -/
theorem steady_runNested (tree : StepTree) (limit : Int) (levels : Nat) (step : Step) :
    Steady (runNested tree limit levels step) := by
  induction levels generalizing step with
  | zero => exact steady_fail _
  | succ levels ih => exact steady_runChain ih step

/-- A run of steps does alike if it is answered alike. -/
theorem steady_runTree (tree : StepTree) (limit : Int) : Steady (runTree tree limit) :=
  steady_forEach (fun step => steady_runNested tree limit _ step) tree.roots

end Stepwise.Run
