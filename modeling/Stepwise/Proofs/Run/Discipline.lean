import Stepwise.Proofs.Program.Contract
import Stepwise.Proofs.Run.Uncancelled
import Stepwise.Proofs.Run.Unfolding

/-!
# The discipline of a run

A run looks for a cancellation before each step. Between two looks it begins at most one effect
outside itself, and none after a look that told it of a cancellation; and it ends as cancelled only
if it was told so, by a look or by a wait that was broken off. The store is taken not to answer with
the fault of a cancelled run.
-/

namespace Stepwise.Run

/-- What a run has heard of a cancellation. -/
structure Leave where
  /-- It was told that it is cancelled. -/
  told : Bool
  /-- It has looked, and begun nothing since. -/
  free : Bool

/-- A request that has an effect outside the run: a call, or an operation of the store. -/
def Request.isEffect : Request → Bool
  | .now | .cancelled | .wait _ => false
  | .send _ | .createTask _ | .updateTask _ _ | .deleteTask _ | .notify _ _ _ => true

/-- An answer that is not the fault of a cancelled run. -/
def Request.Fair : (r : Request) → r.Answer → Prop
  | .createTask _, answer => Uncancelled (answer : Except Fault Value)
  | .updateTask _ _, answer => Uncancelled (answer : Except Fault Value)
  | .deleteTask _, answer => Uncancelled (answer : Except Fault Unit)
  | .notify _ _ _, answer => Uncancelled (answer : Except Fault Unit)
  | .now, _ | .cancelled, _ | .wait _, _ | .send _, _ => True

/-- What a run has heard after an answer. -/
def Leave.after (l : Leave) : (r : Request) → r.Answer → Leave
  | .now, _ => l
  | .cancelled, told => ⟨l.told || told, !told⟩
  | .wait _, told => ⟨l.told || told, false⟩
  | .send _, _ | .createTask _, _ | .updateTask _ _, _ | .deleteTask _, _ | .notify _ _ _, _ =>
    { l with free := false }

/-- One effect for each look. -/
def discipline : Contract surroundings Leave where
  may := fun l r => r.isEffect = true → l.free = true
  fair := fun _ r answer => r.Fair answer
  next := Leave.after

namespace Stage

variable {α β : Type}

/-- A stage that asks nothing, does not end as cancelled, and leaves the log and the input alone. -/
def Silent (stage : Stage α) : Prop :=
  ∀ c, ∃ r c', stage c = .done (r, c') ∧ Uncancelled r ∧ c'.log = c.log ∧ c'.input = c.input

theorem silent_result (a : α) : Silent (result a) :=
  fun c => ⟨.ok a, c, rfl, uncancelled_ok a, rfl, rfl⟩

theorem silent_fail {fault : Fault} (h : fault ≠ .cancelled) : Silent (fail fault : Stage α) :=
  fun c => ⟨.error fault, c, rfl, (uncancelled_error fault).mpr h, rfl, rfl⟩

theorem silent_ofExcept {r : Except Fault α} (h : Uncancelled r) : Silent (ofExcept r) :=
  fun c => ⟨r, c, rfl, h, rfl, rfl⟩

theorem silent_fromRoot {f : Fields → Except Fault α} (h : ∀ root, Uncancelled (f root)) :
    Silent (fromRoot f) := fun c => ⟨f c.root, c, rfl, h _, rfl, rfl⟩

theorem silent_assign (name value : Value) : Silent (assign name value) := by
  intro c
  unfold assign
  split
  · exact ⟨.ok (), _, rfl, uncancelled_ok (), rfl, rfl⟩
  · exact ⟨_, c, rfl, (uncancelled_error _).mpr nofun, rfl, rfl⟩

theorem Silent.andThen {stage : Stage α} {f : α → Stage β} (hs : Silent stage)
    (hf : ∀ a, Silent (f a)) : Silent (stage.andThen f) := by
  intro c
  obtain ⟨r, c', hr, hu, hlog, hinput⟩ := hs c
  cases r with
  | ok a =>
    obtain ⟨r', c'', hr', hu', hlog', hinput'⟩ := hf a c'
    exact ⟨r', c'', by simp [Stage.andThen, hr, hr'], hu', hlog'.trans hlog,
      hinput'.trans hinput⟩
  | error fault =>
    have hu' : Uncancelled (.error fault : Except Fault β) :=
      (uncancelled_error fault).mpr ((uncancelled_error fault).mp hu)
    exact ⟨.error fault, c', by simp [Stage.andThen, hr], hu', hlog, hinput⟩

/-- A stage that keeps the discipline from wherever it may begin an effect, if it is `licensed`, and
from everywhere, if it is not. -/
def Lawful (licensed : Bool) (stage : Stage α) : Prop :=
  ∀ c l, (licensed = true → l.free = true) →
    (stage c).Keeps discipline (fun l' out => out.1 = .error .cancelled → l'.told = true) l

theorem Lawful.license {licensed : Bool} {stage : Stage α} (h : Lawful false stage) :
    Lawful licensed stage := fun c l _ => h c l nofun

theorem Silent.lawful {licensed : Bool} {stage : Stage α} (h : Silent stage) :
    Lawful licensed stage := by
  intro c l _
  obtain ⟨r, c', hr, hu, _⟩ := h c
  rw [hr]
  exact fun hc => absurd hc hu

theorem Silent.andThen_lawful {licensed : Bool} {stage : Stage α} {f : α → Stage β}
    (hs : Silent stage) (hf : ∀ a, Lawful licensed (f a)) : Lawful licensed (stage.andThen f) := by
  intro c l hl
  obtain ⟨r, c', hr, hu, _⟩ := hs c
  unfold Stage.andThen
  rw [hr]
  cases r with
  | ok a => exact hf a c' l hl
  | error fault => exact fun hc => absurd (by simpa using hc) ((uncancelled_error fault).mp hu)

theorem Lawful.andThen {licensed : Bool} {stage : Stage α} {f : α → Stage β}
    (hs : Lawful licensed stage) (hf : ∀ a, Lawful false (f a)) :
    Lawful licensed (stage.andThen f) := by
  intro c l hl
  refine (Program.keeps_bind _ _ _).mpr ((hs c l hl).mono ?_)
  rintro l' ⟨r | a, c'⟩ h
  · exact fun hc => h (by simpa using hc)
  · exact hf a c' l' nofun

/-- An effect, and what is done with its answer. -/
theorem lawful_ask_andThen (r : Request) {f : r.Answer → Stage β}
    (hf : ∀ answer, r.Fair answer → Lawful false (f answer)) :
    Lawful true ((ask r).andThen f) := by
  intro c l hl
  exact ⟨fun _ => hl rfl, fun answer ha => hf answer ha c _ nofun⟩

theorem lawful_forEach {f : α → Stage Unit} (hf : ∀ a, Lawful false (f a)) (items : List α) :
    Lawful false (forEach f items) := by
  induction items with
  | nil => exact (silent_result ()).lawful
  | cons a rest ih => exact (hf a).andThen fun _ => ih

end Stage

/-! ## The kinds of steps -/

open Stage

theorem silent_filled (step : Step) (name : String) : Silent (filled step name) :=
  silent_fromRoot fun root => Template.uncancelled_interpolate root _

theorem silent_taskFields (step : Step) : Silent (taskFields step) :=
  (silent_filled step "title").andThen fun _ =>
    (silent_filled step "description").andThen fun _ => silent_result _

theorem silent_taskChanges (step : Step) : Silent (taskChanges step) := by
  have htemplate (name : String) : Silent (if (step.config.field name).isTruthy then do
      return [(Key.text name, ← filled step name)] else return [] : Stage Fields) := by
    split_ifs
    · exact (silent_filled step name).andThen fun _ => silent_result _
    · exact silent_result _
  exact (htemplate "title").andThen fun _ => (htemplate "description").andThen fun _ =>
    silent_result _

theorem lawful_runAction (step : Step) : Lawful true (runAction step) := by
  unfold runAction
  dsimp only
  split
  · refine (silent_taskFields step).andThen_lawful fun fields => lawful_ask_andThen _ fun r hr => ?_
    exact ((silent_ofExcept hr).andThen fun _ => silent_assign _ _).lawful
  · refine (silent_taskChanges step).andThen_lawful fun changes =>
      lawful_ask_andThen _ fun r hr => ?_
    exact ((silent_ofExcept hr).andThen fun _ => silent_assign _ _).lawful
  · exact lawful_ask_andThen _ fun r hr => (silent_ofExcept hr).lawful
  · split_ifs
    · exact ((silent_filled step "value").andThen fun _ => silent_assign _ _).lawful
    · exact (silent_fail (by simp)).lawful
  · exact (silent_fail (by simp)).lawful

/-- A wait that was broken off is the one thing besides a look that a cancellation is heard by. -/
theorem lawful_runDelay (step : Step) : Lawful true (runDelay step) := by
  refine (silent_ofExcept (uncancelled_durationOf _)).andThen_lawful fun duration c l _ => ?_
  refine ⟨nofun, fun broken _ => ?_⟩
  cases broken with
  | false => exact fun h => nomatch h
  | true => exact fun _ => Bool.or_true l.told

theorem silent_callBody (step : Step) : Silent (callBody step) := by
  unfold callBody
  split_ifs
  · exact silent_filled step "body"
  · exact silent_result _

theorem lawful_runWebhook (step : Step) : Lawful true (runWebhook step) := by
  rw [runWebhook_eq]
  split_ifs
  · refine (silent_callBody step).andThen_lawful fun body => ?_
    refine (silent_ofExcept (Outbound.uncancelled_build _ _ _ _)).andThen_lawful fun call => ?_
    refine lawful_ask_andThen _ fun outcome _ => Silent.lawful ?_
    exact (silent_ofExcept (Outbound.uncancelled_outcome _ outcome)).andThen (silent_assign _)
  · exact (silent_fail (by simp)).lawful

theorem lawful_runNotification (step : Step) : Lawful true (runNotification step) :=
  (silent_filled step "title").andThen_lawful fun _ =>
    (silent_filled step "message").andThen_lawful fun _ =>
      lawful_ask_andThen _ fun _ hr => (silent_ofExcept hr).lawful

theorem lawful_runCondition (tree : StepTree) {inner : Runner}
    (hi : ∀ step, Lawful false (inner step)) (step : Step) :
    Lawful true (runCondition tree inner step) :=
  (silent_filled step "left").andThen_lawful fun _ =>
    (silent_filled step "right").andThen_lawful fun _ =>
      (silent_ofExcept (Condition.uncancelled_evaluate _ _ _)).andThen_lawful fun _ =>
        (silent_assign _ _).andThen_lawful fun _ => (lawful_forEach hi _).license

theorem lawful_runLoop (tree : StepTree) {inner : Runner}
    (hi : ∀ step, Lawful false (inner step)) (step : Step) :
    Lawful true (runLoop tree inner step) := by
  refine Silent.andThen_lawful (silent_fromRoot fun root => Template.uncancelled_resolve root _)
    fun items => ?_
  split
  · dsimp only
    split_ifs
    · refine (lawful_forEach (fun item => ?_) _).license
      exact (silent_assign _ item).andThen_lawful fun _ => lawful_forEach hi _
    · exact (silent_fail (by simp)).lawful
  · exact (silent_fail (by simp)).lawful

theorem lawful_runBody (tree : StepTree) {inner : Runner}
    (hi : ∀ step, Lawful false (inner step)) (step : Step) :
    Lawful true (runBody tree inner step) := by
  unfold runBody
  split
  · exact lawful_runAction step
  · exact lawful_runCondition tree hi step
  · exact lawful_runLoop tree hi step
  · exact lawful_runDelay step
  · exact lawful_runWebhook step
  · exact lawful_runNotification step
  · exact (silent_fail (by simp)).lawful

/-! ## Steps, chains and trees -/

/-- The end of a step tells nothing of a cancellation that the step did not tell. -/
theorem keeps_finish (step : Step) {out : Except Fault Unit × Context} {l : Leave}
    (h : out.1 = .error .cancelled → l.told = true) :
    (finish step out).Keeps discipline (fun l' out => out.1 = .error .cancelled → l'.told = true)
      l := by
  obtain ⟨fault | ⟨⟩, c⟩ := out
  · by_cases hf : fault = .cancelled
    · subst hf
      exact fun _ => h rfl
    · rw [finish_fault step hf]
      exact ⟨nofun, fun _ _ hc => absurd (by simpa using hc) hf⟩
  · exact ⟨nofun, fun _ _ => nofun⟩

/-- The look before a step licenses what the step does. -/
theorem lawful_runStep (tree : StepTree) {inner : Runner}
    (hi : ∀ step, Lawful false (inner step)) (step : Step) :
    Lawful false (runStep tree inner step) := by
  intro c l _
  rw [runStep_eq]
  refine ⟨nofun, fun (told : Bool) _ => ?_⟩
  cases told with
  | true => exact fun _ => Bool.or_true l.told
  | false =>
    refine ⟨nofun, fun time _ => ?_⟩
    have hbody := lawful_runBody tree hi step (c.logged (stepEntry step time .started none))
      (l.after .cancelled false) fun _ => rfl
    exact (Program.keeps_bind _ _ _).mpr (hbody.mono fun l' out h => keeps_finish step h)

theorem lawful_runChain (tree : StepTree) {inner : Runner}
    (hi : ∀ step, Lawful false (inner step)) (step : Step) :
    Lawful false (runChain tree inner step) := by
  refine (lawful_forEach (fun step => lawful_runStep tree hi step) _).andThen fun _ => ?_
  split
  · exact (silent_fail (by simp)).lawful
  · exact (silent_result ()).lawful

/-- By induction on the levels that are left: the steps one level deeper are lawful, so the steps of
this level are. -/
theorem lawful_runNested (tree : StepTree) (limit : Int) (levels : Nat) (step : Step) :
    Lawful false (runNested tree limit levels step) := by
  induction levels generalizing step with
  | zero => exact (silent_fail (by simp)).lawful
  | succ levels ih => exact lawful_runChain tree ih step

/-- A run keeps the discipline, whatever its tree is and however it is answered. -/
theorem keeps_runTree (tree : StepTree) (limit : Int) (c : Context) (l : Leave) :
    (runTree tree limit c).Keeps discipline
      (fun l' out => out.1 = .error .cancelled → l'.told = true) l :=
  lawful_forEach (fun step => lawful_runNested tree limit _ step) _ c l nofun

end Stepwise.Run
