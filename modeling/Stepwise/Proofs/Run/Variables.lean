import Stepwise.Proofs.Program.Contract
import Stepwise.Proofs.Run.Unfolding
import Stepwise.Proofs.Step.Relabel
import Stepwise.Proofs.Template.Findings
import Stepwise.Proofs.Value.Fields

/-!
# What the variables of a run hold

A run begins with input and steps that were received, and what it is told on the way was received
too, or is a task. So every variable holds what JSON can hold, and no name is used twice. Whether
the names are texts is another matter: a step may name a variable by a number.
-/

namespace Stepwise

namespace Run

open Json

/-- What a run works on: whatever the names of the variables, all values are such as JSON can
hold. -/
structure Context.Sound (c : Context) : Prop where
  input : Clean c.input
  vars : ∀ field ∈ c.vars, Clean field.2
  apart : Fields.Apart c.vars

theorem clean_entry (e : Entry) : Clean (.object e.toFields) := by
  unfold Entry.toFields
  cases e.error with
  | none =>
    refine .object ⟨?_, ?_⟩ ?_
    · simp
    · simp
    · simp [Proper.text]
  | some error =>
    refine .object ⟨?_, ?_⟩ ?_
    · simp
    · simp
    · simp [Proper.text]

theorem clean_logValue (log : List Entry) : Clean (logValue log) := by
  refine .list fun item hitem => ?_
  obtain ⟨e, _, rfl⟩ := List.mem_map.mp hitem
  exact clean_entry e

namespace Context.Sound

variable {c : Context}

theorem logged (h : c.Sound) (e : Entry) : (c.logged e).Sound := ⟨h.input, h.vars, h.apart⟩

theorem set (h : c.Sound) (key : Key) {value : Value} (hv : Clean value) :
    ({ c with vars := c.vars.set key value } : Context).Sound where
  input := h.input
  vars field hfield := by
    obtain hold | ⟨heq, _⟩ := Fields.mem_set hfield
    · exact h.vars field hold
    · rw [heq]
      exact hv
  apart := h.apart.set key value

/-- All that the paths of templates lead to is such as JSON can hold. -/
theorem root (h : c.Sound) : ∀ field ∈ c.root, Within field.2 := by
  have hvars : Within (.object c.vars) := ⟨nofun, fun _ heq => Value.object.inj heq ▸ h.vars⟩
  simp only [Context.root, List.forall_mem_cons]
  exact ⟨h.input.within, hvars, (clean_logValue c.log).within, nofun⟩

end Context.Sound

/-! ## Stages -/

/-- A task that the store hands over is such as JSON can hold. -/
def Request.Received : (r : Request) → r.Answer → Prop
  | .createTask _, answer => ∀ task, answer = .ok task → Clean task
  | .updateTask _ _, answer => ∀ task, answer = .ok task → Clean task
  | .now, _ | .cancelled, _ | .wait _, _ | .send _, _ | .deleteTask _, _ | .notify _ _ _, _ => True

/-- Surroundings that hand over only what JSON can hold. -/
def receiving : Contract surroundings Unit where
  may := fun _ _ => True
  fair := fun _ r answer => r.Received answer
  next := fun _ _ _ => ()

namespace Stage

variable {α β : Type} {q : α → Prop} {r : β → Prop}

/-- The stage keeps the context sound, and `q` holds of its result if it has one. -/
def Keeps (q : α → Prop) (stage : Stage α) : Prop := ∀ c : Context, c.Sound →
  (stage c).Keeps receiving (fun _ out => out.2.Sound ∧ ∀ a, out.1 = .ok a → q a) ()

theorem keeps_result {a : α} (h : q a) : Keeps q (result a) :=
  fun _ hc => ⟨hc, fun _ ha => Except.ok.inj ha ▸ h⟩

theorem keeps_fail (fault : Fault) : Keeps q (fail fault : Stage α) := fun _ hc => ⟨hc, nofun⟩

theorem keeps_ofExcept {e : Except Fault α} (h : ∀ a, e = .ok a → q a) : Keeps q (ofExcept e) :=
  fun _ hc => ⟨hc, h⟩

theorem keeps_fromRoot {f : Fields → Except Fault α}
    (h : ∀ root : Fields, (∀ field ∈ root, Within field.2) → ∀ a, f root = .ok a → q a) :
    Keeps q (fromRoot f) := fun _ hc => ⟨hc, h _ hc.root⟩

theorem keeps_assign (name : Value) {value : Value} (h : Clean value) :
    Keeps (fun _ => True) (assign name value) := by
  intro c hc
  unfold assign
  split
  · exact ⟨hc.set _ h, fun _ _ => trivial⟩
  · exact ⟨hc, nofun⟩

theorem keeps_ask (r : Request) : Keeps (r.Received ·) (ask r) :=
  fun _ hc => ⟨trivial, fun _ hanswer => ⟨hc, fun _ ha => Except.ok.inj ha ▸ hanswer⟩⟩

theorem Keeps.mono {q' : α → Prop} {stage : Stage α} (hs : Keeps q stage)
    (h : ∀ a, q a → q' a) : Keeps q' stage :=
  fun c hc => (hs c hc).mono fun _ _ hout => ⟨hout.1, fun a ha => h a (hout.2 a ha)⟩

theorem Keeps.andThen {stage : Stage α} {f : α → Stage β} (hs : Keeps q stage)
    (hf : ∀ a, q a → Keeps r (f a)) : Keeps r (stage.andThen f) := by
  intro c hc
  refine (Program.keeps_bind _ _ _).mpr ((hs c hc).mono ?_)
  rintro _ ⟨fault | a, c'⟩ ⟨hc', hq⟩
  · exact ⟨hc', nofun⟩
  · exact hf a (hq a rfl) c' hc'

theorem keeps_forEach {f : α → Stage Unit} {items : List α}
    (hf : ∀ a ∈ items, Keeps (fun _ => True) (f a)) : Keeps (fun _ => True) (forEach f items) := by
  induction items with
  | nil => exact keeps_result trivial
  | cons a rest ih =>
    obtain ⟨ha, hrest⟩ := List.forall_mem_cons.mp hf
    exact ha.andThen fun _ _ => ih hrest

end Stage

/-! ## The kinds of steps -/

open Stage

/-- The configuration of the step was received. -/
def IsReceived (step : Step) : Prop := Clean (.object step.config)

variable {tree : StepTree} {step : Step} {inner : Runner}

theorem keeps_filled (h : IsReceived step) (name : String) : (filled step name).Keeps Clean :=
  keeps_fromRoot fun _ _ _ ha => Template.clean_interpolate (h.fieldOf name) ha

theorem keeps_taskFields (h : IsReceived step) : (taskFields step).Keeps fun _ => True :=
  (keeps_filled h "title").andThen fun _ _ => (keeps_filled h "description").andThen fun _ _ =>
    keeps_result trivial

theorem keeps_taskChanges (h : IsReceived step) : (taskChanges step).Keeps fun _ => True := by
  have htemplate (name : String) : Stage.Keeps (fun _ => True)
      (if (step.config.field name).isTruthy then do
        return [(Key.text name, ← filled step name)] else return [] : Stage Fields) := by
    split_ifs
    · exact (keeps_filled h name).andThen fun _ _ => keeps_result trivial
    · exact keeps_result trivial
  exact (htemplate "title").andThen fun _ _ => (htemplate "description").andThen fun _ _ =>
    keeps_result trivial

theorem keeps_runAction (h : IsReceived step) : (runAction step).Keeps fun _ => True := by
  unfold runAction
  dsimp only
  split
  · refine (keeps_taskFields h).andThen fun fields _ => (keeps_ask _).andThen fun task htask => ?_
    exact (keeps_ofExcept htask).andThen fun _ hv => keeps_assign _ hv
  · refine (keeps_taskChanges h).andThen fun changes _ => (keeps_ask _).andThen fun task htask => ?_
    exact (keeps_ofExcept htask).andThen fun _ hv => keeps_assign _ hv
  · exact (keeps_ask _).andThen fun _ _ => keeps_ofExcept fun _ _ => trivial
  · split_ifs
    · exact (keeps_filled h "value").andThen fun _ hv => keeps_assign _ hv
    · exact keeps_fail _
  · exact keeps_fail _

theorem keeps_runDelay (step : Step) : (runDelay step).Keeps fun _ => True := by
  refine (keeps_ofExcept (q := fun _ => True) fun _ _ => trivial).andThen fun duration _ => ?_
  refine (keeps_ask _).andThen fun (broken : Bool) _ => ?_
  cases broken with
  | false => exact keeps_result trivial
  | true => exact keeps_fail _

/-- What a call is answered was read from JSON text. -/
theorem clean_outcome {url : String} {outcome : Outbound.Outcome} {value : Value}
    (h : Outbound.Outcome.value url outcome = .ok value) : Clean value := by
  cases outcome with
  | error failure => cases h
  | ok reply =>
    change reply.value url = _ at h
    unfold Outbound.Reply.value at h
    split_ifs at h
    · split at h
      · rename_i hread
        cases h
        exact clean_readBody hread
      · cases h
      · cases h

theorem keeps_runWebhook (h : IsReceived step) : (runWebhook step).Keeps fun _ => True := by
  have hbody : (callBody step).Keeps fun _ => True := by
    unfold callBody
    split_ifs
    · exact (keeps_filled h "body").mono fun _ _ => trivial
    · exact keeps_result trivial
  rw [runWebhook_eq]
  split_ifs
  · refine hbody.andThen fun body _ => (keeps_ofExcept fun _ _ => trivial).andThen fun call _ => ?_
    refine (keeps_ask _).andThen fun outcome _ => ?_
    exact (keeps_ofExcept fun _ => clean_outcome).andThen fun _ hv => keeps_assign _ hv
  · exact keeps_fail _

theorem keeps_runNotification (h : IsReceived step) :
    (runNotification step).Keeps fun _ => True :=
  (keeps_filled h "title").andThen fun _ _ => (keeps_filled h "message").andThen fun _ _ =>
    (keeps_ask _).andThen fun _ _ => keeps_ofExcept fun _ _ => trivial

theorem keeps_runCondition (h : IsReceived step)
    (hi : ∀ child ∈ tree.steps, (inner child).Keeps fun _ => True) :
    (runCondition tree inner step).Keeps fun _ => True := by
  refine (keeps_filled h "left").andThen fun _ _ => (keeps_filled h "right").andThen fun _ _ => ?_
  refine (keeps_ofExcept fun _ _ => trivial).andThen fun outcome _ => ?_
  refine (keeps_assign _ (.bool outcome)).andThen fun _ _ => keeps_forEach fun child hchild => ?_
  exact hi child (tree.childrenOf_subset _ (List.mem_of_mem_filter hchild))

theorem keeps_runLoop (h : IsReceived step)
    (hi : ∀ child ∈ tree.steps, (inner child).Keeps fun _ => True) :
    (runLoop tree inner step).Keeps fun _ => True := by
  refine (keeps_fromRoot (q := Within) fun root hroot value hvalue =>
    Template.within_resolve hroot (h.fieldOf "items") hvalue).andThen fun items hitems => ?_
  split
  · rename_i items
    dsimp only
    split_ifs
    · refine keeps_forEach fun item hitem => ?_
      refine (keeps_assign _ (hitems.items items rfl item hitem)).andThen fun _ _ => ?_
      exact keeps_forEach fun child hchild => hi child (tree.childrenOf_subset _ hchild)
    · exact keeps_fail _
  · exact keeps_fail _

theorem keeps_runBody (h : IsReceived step)
    (hi : ∀ child ∈ tree.steps, (inner child).Keeps fun _ => True) :
    (runBody tree inner step).Keeps fun _ => True := by
  unfold runBody
  split
  · exact keeps_runAction h
  · exact keeps_runCondition h hi
  · exact keeps_runLoop h hi
  · exact keeps_runDelay step
  · exact keeps_runWebhook h
  · exact keeps_runNotification h
  · exact keeps_fail _

/-! ## Steps, chains and trees -/

theorem keeps_runStep (h : IsReceived step)
    (hi : ∀ child ∈ tree.steps, (inner child).Keeps fun _ => True) :
    (runStep tree inner step).Keeps fun _ => True := by
  intro c hc
  rw [runStep_eq]
  refine ⟨trivial, fun (told : Bool) _ => ?_⟩
  cases told with
  | true => exact ⟨hc, fun _ _ => trivial⟩
  | false =>
    refine ⟨trivial, fun time _ => ?_⟩
    refine (Program.keeps_bind _ _ _).mpr ((keeps_runBody h hi _ (hc.logged _)).mono ?_)
    rintro _ ⟨fault | ⟨⟩, c'⟩ ⟨hc', _⟩
    · by_cases hf : fault = .cancelled
      · subst hf
        exact ⟨hc', fun _ _ => trivial⟩
      · rw [finish_fault step hf]
        exact ⟨trivial, fun _ _ => ⟨hc'.logged _, fun _ _ => trivial⟩⟩
    · exact ⟨trivial, fun _ _ => ⟨hc'.logged _, fun _ _ => trivial⟩⟩

theorem keeps_runChain (ht : ∀ step ∈ tree.steps, IsReceived step) (hs : step ∈ tree.steps)
    (hi : ∀ child ∈ tree.steps, (inner child).Keeps fun _ => True) :
    (runChain tree inner step).Keeps fun _ => True := by
  refine (keeps_forEach fun link hlink => ?_).andThen fun _ _ => ?_
  · exact keeps_runStep (ht link (StepTree.mem_of_mem_chain hs link hlink)) hi
  · split
    · exact keeps_fail _
    · exact keeps_result trivial

/-- By induction on the levels that are left: what runs one level deeper keeps the context sound, so
what runs on this level does. -/
theorem keeps_runNested (ht : ∀ step ∈ tree.steps, IsReceived step) (limit : Int) (levels : Nat) :
    ∀ step ∈ tree.steps, (runNested tree limit levels step).Keeps fun _ => True := by
  induction levels with
  | zero => exact fun _ _ => keeps_fail _
  | succ levels ih => exact fun step hs => keeps_runChain ht hs ih

/-- Whatever a run is told, all of its variables hold what JSON can hold. -/
theorem sound_runTree (ht : ∀ step ∈ tree.steps, IsReceived step) (limit : Int) {input : Value}
    (hinput : Clean input) :
    (runTree tree limit ⟨input, [], []⟩).Keeps receiving (fun _ out => out.2.Sound) () :=
  (keeps_forEach (fun step hs => keeps_runNested ht limit _ step (tree.roots_subset hs))
    ⟨input, [], []⟩ ⟨hinput, nofun, .nil⟩).mono fun _ _ h => h.1

end Run

end Stepwise
