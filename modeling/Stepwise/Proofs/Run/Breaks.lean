import Mathlib.Data.List.Forall2
import Stepwise.Proofs.Run.Yields

/-!
# Where stages break off

A stage that has no result ends in a fault. Here is where sequences, repetitions and whole steps
break off, and what becomes of the steps that a fault leaves open: each of them gets a last entry,
the innermost first, unless the fault is that of a cancelled run.
-/

namespace Stepwise.Run

variable {α β σ : Type}

section

variable (respond : σ → (r : Request) → r.Answer × σ)

/-- From a moment on a stage ends in a fault, at a later moment. -/
def Breaks (stage : Stage α) (m : Moment σ) (fault : Fault) (m' : Moment σ) : Prop :=
  Program.run (I := surroundings) respond (stage m.context) m.state =
    ((.error fault, m'.context), m'.state)

/-- The moment after a step has looked for a cancellation. -/
def looked (m : Moment σ) : Moment σ := ⟨m.context, (respond m.state .cancelled).2⟩

/-- The last entry of a step that has failed by a moment. -/
def failedEntry (fault : Fault) (step : Step) (m : Moment σ) : Entry :=
  stepEntry step (respond m.state .now).1 .failed (some fault.recorded)

/-- The moment after the last entry of a step that a fault has left open. -/
def abandoned (fault : Fault) (step : Step) (m : Moment σ) : Moment σ :=
  match fault with
  | .cancelled => m
  | fault => ⟨m.context.logged (failedEntry respond fault step m), (respond m.state .now).2⟩

end

variable {respond : σ → (r : Request) → r.Answer × σ} {m m' : Moment σ} {fault : Fault}

theorem abandoned_fault (hf : fault ≠ .cancelled) (step : Step) (m : Moment σ) :
    abandoned respond fault step m =
      ⟨m.context.logged (failedEntry respond fault step m), (respond m.state .now).2⟩ := by
  unfold abandoned
  split
  · exact absurd rfl hf
  · rfl

theorem not_breaks_result {a : α} : ¬ Breaks respond (Stage.result a) m fault m' := by
  simp [Breaks, Stage.result, Program.run]

theorem breaks_fail {f : Fault} :
    Breaks respond (Stage.fail f : Stage α) m fault m' ↔ f = fault ∧ m = m' := by
  obtain ⟨c, s⟩ := m
  obtain ⟨c', s'⟩ := m'
  simp [Breaks, Stage.fail, Program.run, and_assoc]

theorem breaks_andThen {stage : Stage α} {f : α → Stage β} :
    Breaks respond (stage.andThen f) m fault m' ↔ Breaks respond stage m fault m' ∨
      ∃ a m₁, Yields respond stage m a m₁ ∧ Breaks respond (f a) m₁ fault m' := by
  unfold Breaks Yields Stage.andThen
  rw [Program.run_bind]
  cases hs : Program.run (I := surroundings) respond (stage m.context) m.state with
  | mk out s =>
    obtain ⟨f' | a, c⟩ := out
    · simp [Program.run]
    · constructor
      · exact fun h => .inr ⟨a, ⟨c, s⟩, rfl, h⟩
      · rintro (h | ⟨b, m₁, hb, h⟩)
        · cases h
        · cases hb
          exact h

theorem breaks_forEach_cons {f : α → Stage Unit} {a : α} {rest : List α} :
    Breaks respond (Stage.forEach f (a :: rest)) m fault m' ↔ Breaks respond (f a) m fault m' ∨
      ∃ m₁, Yields respond (f a) m () m₁ ∧ Breaks respond (Stage.forEach f rest) m₁ fault m' := by
  rw [Stage.forEach, breaks_andThen]
  constructor
  · rintro (h | ⟨⟨⟩, h⟩)
    · exact .inl h
    · exact .inr h
  · rintro (h | h)
    · exact .inl h
    · exact .inr ⟨(), h⟩

/-- A repetition breaks off in one of its items, after those before it. -/
theorem breaks_forEach {f : α → Stage Unit} {items : List α} :
    Breaks respond (Stage.forEach f items) m fault m' ↔ ∃ before item after m₁,
      items = before ++ item :: after ∧ Yields respond (Stage.forEach f before) m () m₁ ∧
        Breaks respond (f item) m₁ fault m' := by
  induction items generalizing m with
  | nil =>
    constructor
    · exact fun h => absurd h not_breaks_result
    · rintro ⟨before, item, after, m₁, hitems, -⟩
      exact absurd hitems (by simp)
  | cons first rest ih =>
    rw [breaks_forEach_cons]
    constructor
    · rintro (h | ⟨m₁, hfirst, hrest⟩)
      · exact ⟨[], first, rest, m, rfl, yields_forEach_nil.mpr rfl, h⟩
      · obtain ⟨before, item, after, m₂, rfl, hbefore, hitem⟩ := ih.mp hrest
        exact ⟨first :: before, item, after, m₂, rfl,
          yields_forEach_cons.mpr ⟨m₁, hfirst, hbefore⟩, hitem⟩
    · rintro ⟨before, item, after, m₂, hitems, hbefore, hitem⟩
      cases before with
      | nil =>
        obtain ⟨rfl, rfl⟩ := List.cons.inj hitems
        obtain rfl := yields_forEach_nil.mp hbefore
        exact .inl hitem
      | cons _ before =>
        obtain ⟨rfl, rfl⟩ := List.cons.inj hitems
        obtain ⟨m₁, hfirst, hbefore⟩ := yields_forEach_cons.mp hbefore
        exact .inr ⟨m₁, hfirst, ih.mpr ⟨before, item, after, m₂, rfl, hbefore, hitem⟩⟩

theorem breaks_assign {name value : Value} :
    Breaks respond (Stage.assign name value) m fault m' ↔
      name.toKey? = none ∧ .unhashable name.kind = fault ∧ m = m' := by
  obtain ⟨c, s⟩ := m
  obtain ⟨c', s'⟩ := m'
  unfold Breaks Stage.assign
  cases hkey : name.toKey? with
  | none => simp [Program.run, and_assoc]
  | some key => simp [Program.run]

theorem run_finish_fault {step : Step} {out : Except Fault Unit × Context} {s : σ} :
    Program.run (I := surroundings) respond (finish step out) s =
        ((.error fault, m'.context), m'.state) ↔
      out.1 = .error fault ∧ abandoned respond fault step ⟨out.2, s⟩ = m' := by
  obtain ⟨c', s'⟩ := m'
  obtain ⟨f | ⟨⟩, c⟩ := out
  · by_cases hf : f = .cancelled
    · subst hf
      constructor
      · rintro ⟨⟩
        exact ⟨rfl, rfl⟩
      · rintro ⟨⟨⟩, hend⟩
        cases hend
        rfl
    · rw [finish_fault step hf]
      constructor
      · rintro ⟨⟩
        exact ⟨rfl, abandoned_fault hf step _⟩
      · rintro ⟨⟨⟩, hend⟩
        rw [abandoned_fault hf] at hend
        cases hend
        rfl
  · simp [finish, run_ask, Program.run]

/-- A step breaks off before its first entry, if a cancellation is found, or in what it is for. -/
theorem breaks_runStep {tree : StepTree} {inner : Runner} {step : Step} :
    Breaks respond (runStep tree inner step) m fault m' ↔
      ((respond m.state .cancelled).1 = true ∧ fault = .cancelled ∧ looked respond m = m') ∨
      ((respond m.state .cancelled).1 = false ∧
        ∃ m₁, Breaks respond (runBody tree inner step) (begun respond step m) fault m₁ ∧
          abandoned respond fault step m₁ = m') := by
  unfold Breaks
  rw [runStep_eq, run_ask]
  cases htold : (respond m.state .cancelled).1 with
  | true =>
    obtain ⟨c', s'⟩ := m'
    simp [Program.run, looked, eq_comm, and_assoc]
  | false =>
    rw [if_neg Bool.false_ne_true, run_ask, Program.run_bind, run_finish_fault]
    simp only [Bool.false_eq_true, false_and, true_and, false_or]
    constructor
    · rintro ⟨hfault, hend⟩
      exact ⟨⟨_, _⟩, Prod.ext (Prod.ext hfault rfl) rfl, hend⟩
    · rintro ⟨m₁, hbody, hend⟩
      have hmoment := congrArg (fun out => abandoned respond fault step ⟨out.1.2, out.2⟩) hbody
      exact ⟨congrArg (fun out => out.1.1) hbody, hmoment.trans hend⟩

end Stepwise.Run
