import Stepwise.Proofs.Program.Contract
import Stepwise.Proofs.Run.Unfolding

/-!
# What stages yield

In given surroundings a stage takes one moment of a run to a later one, or ends in a fault. Here is
when sequences, repetitions and whole steps have a result, and which stages leave the log alone.
-/

namespace Stepwise.Run

variable {α β σ : Type}

/-- A moment of a run: its context, and the state of its surroundings. -/
structure Moment (σ : Type) where
  context : Context
  state : σ

/-- A variable is set. -/
def Moment.assign (m : Moment σ) (key : Key) (value : Value) : Moment σ :=
  { m with context := { m.context with vars := m.context.vars.set key value } }

section

variable (respond : σ → (r : Request) → r.Answer × σ)

/-- From a moment on a stage has a result, at a later moment. -/
def Yields (stage : Stage α) (m : Moment σ) (a : α) (m' : Moment σ) : Prop :=
  Program.run (I := surroundings) respond (stage m.context) m.state =
    ((.ok a, m'.context), m'.state)

/-- The first entry of a step that begins at a moment. -/
def firstEntry (step : Step) (m : Moment σ) : Entry :=
  stepEntry step (respond (respond m.state .cancelled).2 .now).1 .started none

/-- The moment after a step has looked for a cancellation and made its first entry. -/
def begun (step : Step) (m : Moment σ) : Moment σ :=
  ⟨m.context.logged (firstEntry respond step m), (respond (respond m.state .cancelled).2 .now).2⟩

/-- The last entry of a step that has done at a moment what it is for. -/
def lastEntry (step : Step) (m : Moment σ) : Entry :=
  stepEntry step (respond m.state .now).1 .completed none

/-- The moment after the last entry of a step. -/
def ended (step : Step) (m : Moment σ) : Moment σ :=
  ⟨m.context.logged (lastEntry respond step m), (respond m.state .now).2⟩

end

variable {respond : σ → (r : Request) → r.Answer × σ} {m m' : Moment σ}

theorem run_ask (r : Request) (next : r.Answer → Program surroundings α) (s : σ) :
    Program.run (I := surroundings) respond (.ask r next) s =
      Program.run (I := surroundings) respond (next (respond s r).1) (respond s r).2 := rfl

theorem yields_result {a b : α} : Yields respond (Stage.result a) m b m' ↔ a = b ∧ m = m' := by
  obtain ⟨c, s⟩ := m
  obtain ⟨c', s'⟩ := m'
  simp [Yields, Stage.result, Program.run, and_assoc]

theorem not_yields_fail {fault : Fault} {a : α} : ¬ Yields respond (Stage.fail fault) m a m' := by
  simp [Yields, Stage.fail, Program.run]

theorem yields_andThen {stage : Stage α} {f : α → Stage β} {b : β} :
    Yields respond (stage.andThen f) m b m' ↔
      ∃ a m₁, Yields respond stage m a m₁ ∧ Yields respond (f a) m₁ b m' := by
  unfold Yields Stage.andThen
  rw [Program.run_bind]
  constructor
  · intro h
    cases hs : Program.run (I := surroundings) respond (stage m.context) m.state with
    | mk out s =>
      obtain ⟨fault | a, c⟩ := out
      · rw [hs] at h
        simp [Program.run] at h
      · rw [hs] at h
        exact ⟨a, ⟨c, s⟩, rfl, h⟩
  · rintro ⟨a, m₁, hs, hf⟩
    rw [hs]
    exact hf

theorem yields_forEach_nil {f : α → Stage Unit} :
    Yields respond (Stage.forEach f []) m () m' ↔ m = m' := by
  rw [Stage.forEach, yields_result]
  simp

theorem yields_forEach_cons {f : α → Stage Unit} {a : α} {rest : List α} :
    Yields respond (Stage.forEach f (a :: rest)) m () m' ↔
      ∃ m₁, Yields respond (f a) m () m₁ ∧ Yields respond (Stage.forEach f rest) m₁ () m' := by
  rw [Stage.forEach, yields_andThen]
  constructor
  · rintro ⟨⟨⟩, m₁, ha, hrest⟩
    exact ⟨m₁, ha, hrest⟩
  · rintro ⟨m₁, ha, hrest⟩
    exact ⟨(), m₁, ha, hrest⟩

theorem yields_assign {name value : Value} :
    Yields respond (Stage.assign name value) m () m' ↔
      ∃ key, name.toKey? = some key ∧ m.assign key value = m' := by
  obtain ⟨c', s'⟩ := m'
  unfold Yields Stage.assign
  cases hkey : name.toKey? with
  | none => simp [Program.run]
  | some key => simp [Program.run, Moment.assign]

theorem run_finish_iff {step : Step} {out : Except Fault Unit × Context} {s : σ} :
    Program.run (I := surroundings) respond (finish step out) s = ((.ok (), m'.context), m'.state) ↔
      out.1 = .ok () ∧ ended respond step ⟨out.2, s⟩ = m' := by
  obtain ⟨c', s'⟩ := m'
  obtain ⟨fault | ⟨⟩, c⟩ := out
  · by_cases hf : fault = .cancelled
    · subst hf
      simp [finish, Program.run]
    · rw [finish_fault step hf]
      simp [Program.run]
  · simp [finish, run_ask, Program.run, ended, lastEntry]

/-- A step that is completed was not cancelled, made its first entry, did what it is for, and made
its last entry. -/
theorem yields_runStep {tree : StepTree} {inner : Runner} {step : Step} :
    Yields respond (runStep tree inner step) m () m' ↔
      (respond m.state .cancelled).1 = false ∧
        ∃ m₁, Yields respond (runBody tree inner step) (begun respond step m) () m₁ ∧
          ended respond step m₁ = m' := by
  unfold Yields
  rw [runStep_eq, run_ask]
  cases htold : (respond m.state .cancelled).1 with
  | true => simp [Program.run]
  | false =>
    rw [if_neg Bool.false_ne_true, run_ask, Program.run_bind, run_finish_iff]
    simp only [true_and]
    constructor
    · rintro ⟨hok, hend⟩
      refine ⟨⟨_, _⟩, Prod.ext (Prod.ext hok rfl) rfl, hend⟩
    · rintro ⟨m₁, hbody, hend⟩
      have hmoment := congrArg (fun out => ended respond step ⟨out.1.2, out.2⟩) hbody
      exact ⟨congrArg (fun out => out.1.1) hbody, hmoment.trans hend⟩

theorem yields_runCondition {tree : StepTree} {inner : Runner} {step : Step} :
    Yields respond (runCondition tree inner step) m () m' ↔
      ∃ outcome, conditionOutcome step m.context.root = .ok outcome ∧
        Yields respond (Stage.forEach inner (branchSteps tree step outcome))
          (m.assign (outcomeKey step) (.bool outcome)) () m' := by
  unfold Yields
  rw [runCondition_eq]
  cases conditionOutcome step m.context.root with
  | error fault => simp [Program.run]
  | ok outcome => simp [Moment.assign]

theorem yields_runLoop {tree : StepTree} {inner : Runner} {step : Step} :
    Yields respond (runLoop tree inner step) m () m' ↔
      ∃ items, Template.resolve m.context.root (step.config.field "items") = .ok (.list items) ∧
        (step.config.field "variableName").isTruthy = true ∧
        Yields respond (Stage.forEach (runRound tree inner step) items) m () m' := by
  unfold Yields
  rw [runLoop_eq]
  cases hitems : Template.resolve m.context.root (step.config.field "items") with
  | error fault => simp [Program.run]
  | ok value =>
    cases value with
    | list items =>
      cases htruthy : (step.config.field "variableName").isTruthy with
      | false => simp [Program.run]
      | true => simp
    | _ => simp [Program.run]

/-! ## Stages that leave the log alone -/

namespace Stage

/-- However it is answered, the stage leaves the log and the input alone. -/
def Quiet (stage : Stage α) : Prop :=
  ∀ c, (stage c).Ends fun out => out.2.log = c.log ∧ out.2.input = c.input

theorem quiet_result (a : α) : Quiet (result a) := fun _ => ⟨rfl, rfl⟩

theorem quiet_fail (fault : Fault) : Quiet (fail fault : Stage α) := fun _ => ⟨rfl, rfl⟩

theorem quiet_ofExcept (r : Except Fault α) : Quiet (ofExcept r) := fun _ => ⟨rfl, rfl⟩

theorem quiet_ask (r : Request) : Quiet (ask r) := by
  intro c
  exact (Program.ends_ask _ _).mpr fun _ => ⟨rfl, rfl⟩

theorem quiet_assign (name value : Value) : Quiet (assign name value) := by
  intro c
  unfold assign
  split
  · exact ⟨rfl, rfl⟩
  · exact ⟨rfl, rfl⟩

theorem Quiet.andThen {stage : Stage α} {f : α → Stage β} (hs : Quiet stage)
    (hf : ∀ a, Quiet (f a)) : Quiet (stage.andThen f) := by
  intro c
  refine (Program.ends_bind _ _).mpr ((hs c).mono ?_)
  rintro ⟨fault | a, c'⟩ ⟨hlog, hinput⟩
  · exact ⟨hlog, hinput⟩
  · refine (hf a c').mono fun out h => ?_
    exact ⟨h.1.trans hlog, h.2.trans hinput⟩

theorem Quiet.yields {stage : Stage α} (h : Quiet stage) {a : α}
    (hy : Yields respond stage m a m') :
    m'.context.log = m.context.log ∧ m'.context.input = m.context.input := by
  have hrun := (h m.context).run respond m.state
  rw [hy] at hrun
  exact hrun

end Stage

end Stepwise.Run
