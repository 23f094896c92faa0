import Stepwise.Proofs.Run.Breaks
import Stepwise.Proofs.Run.LogGrammar

/-!
# Rules for running steps

How steps are run, as rules that bound nothing: the depth grows as steps stand inside one another,
and a chain is followed until it ends or comes back to one of its steps. A derivation tells how
often a step was run, so where there is one the run has come to its end; and no work has two of
them.
-/

namespace Stepwise.Run

open Stage

variable {σ : Type}

/-- What is to be run. -/
inductive Work
  /-- Some steps, each with its successors. -/
  | steps (depth : Int) (steps : List Step)
  /-- A step with its successors. -/
  | step (depth : Int) (step : Step)
  /-- What is left of a chain whose steps so far have the given ids. -/
  | links (depth : Int) (seen : List String) (current : Option Step)
  /-- A step alone, with its entries in the log. -/
  | block (depth : Int) (step : Step)
  /-- What a step is for. -/
  | body (depth : Int) (step : Step)
  /-- The rounds of a loop step. -/
  | rounds (depth : Int) (step : Step) (items : List Value)

section

variable (respond : σ → (r : Request) → r.Answer × σ)

/-- From a moment on a stage ends so, at a later moment. -/
def Ends {α : Type} (stage : Stage α) (m : Moment σ) (r : Except Fault α) (m' : Moment σ) : Prop :=
  Program.run (I := surroundings) respond (stage m.context) m.state = ((r, m'.context), m'.state)

variable (tree : StepTree) (limit : Int)

/-- The rules: from a moment on the work is done with so many runs of a step, ends so, and leads to
a moment. -/
inductive Executes : Work → Moment σ → Nat → Except Fault Unit → Moment σ → Prop
  | nil {depth : Int} {m : Moment σ} : Executes (.steps depth []) m 0 (.ok ()) m
  | cons {depth : Int} {step : Step} {rest : List Step} {m m₁ m' : Moment σ} {n n' : Nat}
      {r : Except Fault Unit} (hs : Executes (.step depth step) m n (.ok ()) m₁)
      (hr : Executes (.steps depth rest) m₁ n' r m') :
      Executes (.steps depth (step :: rest)) m (n + n') r m'
  | stop {depth : Int} {step : Step} {rest : List Step} {m m' : Moment σ} {n : Nat}
      {fault : Fault} (hs : Executes (.step depth step) m n (.error fault) m') :
      Executes (.steps depth (step :: rest)) m n (.error fault) m'
  | tooDeep {depth : Int} {step : Step} {m : Moment σ} (hd : limit < depth) :
      Executes (.step depth step) m 0 (.error (.tooDeep limit step.name)) m
  | chain {depth : Int} {step : Step} {m m' : Moment σ} {n : Nat} {r : Except Fault Unit}
      (hd : depth ≤ limit) (hl : Executes (.links depth [] (some step)) m n r m') :
      Executes (.step depth step) m n r m'
  | unlinked {depth : Int} {seen : List String} {m : Moment σ} :
      Executes (.links depth seen none) m 0 (.ok ()) m
  | cyclic {depth : Int} {seen : List String} {step : Step} {m : Moment σ} (hi : step.id ∈ seen) :
      Executes (.links depth seen (some step)) m 0 (.error (.cyclic step.name)) m
  | link {depth : Int} {seen : List String} {step : Step} {m m₁ m' : Moment σ} {n n' : Nat}
      {r : Except Fault Unit} (hi : step.id ∉ seen)
      (hb : Executes (.block depth step) m n (.ok ()) m₁)
      (hl : Executes (.links depth (step.id :: seen) (tree.nextOf step)) m₁ n' r m') :
      Executes (.links depth seen (some step)) m (n + n') r m'
  | unfinished {depth : Int} {seen : List String} {step : Step} {m m' : Moment σ} {n : Nat}
      {fault : Fault} (hi : step.id ∉ seen)
      (hb : Executes (.block depth step) m n (.error fault) m') :
      Executes (.links depth seen (some step)) m n (.error fault) m'
  | cutOff {depth : Int} {step : Step} {m : Moment σ}
      (hc : (respond m.state .cancelled).1 = true) :
      Executes (.block depth step) m 1 (.error .cancelled) (looked respond m)
  | completed {depth : Int} {step : Step} {m m₁ : Moment σ} {n : Nat}
      (hc : (respond m.state .cancelled).1 = false)
      (hb : Executes (.body depth step) (begun respond step m) n (.ok ()) m₁) :
      Executes (.block depth step) m (n + 1) (.ok ()) (ended respond step m₁)
  | failed {depth : Int} {step : Step} {m m₁ : Moment σ} {n : Nat} {fault : Fault}
      (hc : (respond m.state .cancelled).1 = false)
      (hb : Executes (.body depth step) (begun respond step m) n (.error fault) m₁) :
      Executes (.block depth step) m (n + 1) (.error fault) (abandoned respond fault step m₁)
  | leaf {depth : Int} {step : Step} {stage : Stage Unit} {m m' : Moment σ}
      {r : Except Fault Unit} (hk : leafStage? step = some stage) (he : Ends respond stage m r m') :
      Executes (.body depth step) m 0 r m'
  | unknown {depth : Int} {step : Step} {m : Moment σ} (hk : StepKind.ofName? step.type = none) :
      Executes (.body depth step) m 0 (.error (.unknownStepType step.type)) m
  | condition {depth : Int} {step : Step} {outcome : Bool} {m m' : Moment σ} {n : Nat}
      {r : Except Fault Unit} (hk : StepKind.ofName? step.type = some .condition)
      (ho : conditionOutcome step m.context.root = .ok outcome)
      (hs : Executes (.steps (depth + 1) (branchSteps tree step outcome))
        (m.assign (outcomeKey step) (.bool outcome)) n r m') :
      Executes (.body depth step) m n r m'
  | undecided {depth : Int} {step : Step} {m : Moment σ} {fault : Fault}
      (hk : StepKind.ofName? step.type = some .condition)
      (ho : conditionOutcome step m.context.root = .error fault) :
      Executes (.body depth step) m 0 (.error fault) m
  | loop {depth : Int} {step : Step} {items : List Value} {m m' : Moment σ} {n : Nat}
      {r : Except Fault Unit} (hk : StepKind.ofName? step.type = some .loop)
      (hi : Template.resolve m.context.root (step.config.field "items") = .ok (.list items))
      (hn : (step.config.field "variableName").isTruthy = true)
      (hr : Executes (.rounds depth step items) m n r m') :
      Executes (.body depth step) m n r m'
  | unresolved {depth : Int} {step : Step} {m : Moment σ} {fault : Fault}
      (hk : StepKind.ofName? step.type = some .loop)
      (hi : Template.resolve m.context.root (step.config.field "items") = .error fault) :
      Executes (.body depth step) m 0 (.error fault) m
  | notList {depth : Int} {step : Step} {value : Value} {m : Moment σ}
      (hk : StepKind.ofName? step.type = some .loop)
      (hi : Template.resolve m.context.root (step.config.field "items") = .ok value)
      (hv : ∀ items, value ≠ .list items) :
      Executes (.body depth step) m 0 (.error .itemsNotList) m
  | nameless {depth : Int} {step : Step} {items : List Value} {m : Moment σ}
      (hk : StepKind.ofName? step.type = some .loop)
      (hi : Template.resolve m.context.root (step.config.field "items") = .ok (.list items))
      (hn : (step.config.field "variableName").isTruthy = false) :
      Executes (.body depth step) m 0 (.error .namelessLoop) m
  | finished {depth : Int} {step : Step} {m : Moment σ} :
      Executes (.rounds depth step []) m 0 (.ok ()) m
  | unnamed {depth : Int} {step : Step} {item : Value} {items : List Value} {m : Moment σ}
      (hk : (step.config.field "variableName").toKey? = none) :
      Executes (.rounds depth step (item :: items)) m 0
        (.error (.unhashable (step.config.field "variableName").kind)) m
  | round {depth : Int} {step : Step} {item : Value} {items : List Value} {key : Key}
      {m m₁ m' : Moment σ} {n n' : Nat} {r : Except Fault Unit}
      (hk : (step.config.field "variableName").toKey? = some key)
      (hs : Executes (.steps (depth + 1) (tree.childrenOf step.id)) (m.assign key item) n (.ok ())
        m₁)
      (hr : Executes (.rounds depth step items) m₁ n' r m') :
      Executes (.rounds depth step (item :: items)) m (n + n') r m'
  | broken {depth : Int} {step : Step} {item : Value} {items : List Value} {key : Key}
      {m m' : Moment σ} {n : Nat} {fault : Fault}
      (hk : (step.config.field "variableName").toKey? = some key)
      (hs : Executes (.steps (depth + 1) (tree.childrenOf step.id)) (m.assign key item) n
        (.error fault) m') :
      Executes (.rounds depth step (item :: items)) m n (.error fault) m'

end

variable {respond : σ → (r : Request) → r.Answer × σ} {tree : StepTree} {limit : Int}

theorem Ends.unique {α : Type} {stage : Stage α} {m m' m'' : Moment σ} {r r' : Except Fault α}
    (h : Ends respond stage m r m') (h' : Ends respond stage m r' m'') : r = r' ∧ m' = m'' := by
  have heq := h.symm.trans h'
  obtain ⟨c', s'⟩ := m'
  obtain ⟨c'', s''⟩ := m''
  simpa [and_assoc] using heq

/-- No two derivations for one work differ. -/
theorem Executes.unique {work : Work} {m m' m'' : Moment σ} {n n' : Nat}
    {r r' : Except Fault Unit} (h : Executes respond tree limit work m n r m')
    (h' : Executes respond tree limit work m n' r' m'') : n = n' ∧ r = r' ∧ m' = m'' := by
  induction h generalizing n' r' m'' with
  | nil =>
    cases h'
    exact ⟨rfl, rfl, rfl⟩
  | cons hs hr ihs ihr =>
    cases h' with
    | cons hs' hr' =>
      obtain ⟨rfl, _, rfl⟩ := ihs hs'
      obtain ⟨rfl, rfl, rfl⟩ := ihr hr'
      exact ⟨rfl, rfl, rfl⟩
    | stop hs' => cases (ihs hs').2.1
  | stop hs ihs =>
    cases h' with
    | cons hs' hr' => cases (ihs hs').2.1
    | stop hs' => exact ihs hs'
  | tooDeep hd =>
    cases h' with
    | tooDeep hd' => exact ⟨rfl, rfl, rfl⟩
    | chain hd' hl' => omega
  | chain hd hl ihl =>
    cases h' with
    | tooDeep hd' => omega
    | chain hd' hl' => exact ihl hl'
  | unlinked =>
    cases h'
    exact ⟨rfl, rfl, rfl⟩
  | cyclic hi =>
    cases h' with
    | cyclic hi' => exact ⟨rfl, rfl, rfl⟩
    | link hi' hb' hl' => exact absurd hi hi'
    | unfinished hi' hb' => exact absurd hi hi'
  | link hi hb hl ihb ihl =>
    cases h' with
    | cyclic hi' => exact absurd hi' hi
    | link hi' hb' hl' =>
      obtain ⟨rfl, _, rfl⟩ := ihb hb'
      obtain ⟨rfl, rfl, rfl⟩ := ihl hl'
      exact ⟨rfl, rfl, rfl⟩
    | unfinished hi' hb' => cases (ihb hb').2.1
  | unfinished hi hb ihb =>
    cases h' with
    | cyclic hi' => exact absurd hi' hi
    | link hi' hb' hl' => cases (ihb hb').2.1
    | unfinished hi' hb' => exact ihb hb'
  | cutOff hc =>
    cases h' with
    | cutOff hc' => exact ⟨rfl, rfl, rfl⟩
    | completed hc' hb' => cases hc.symm.trans hc'
    | failed hc' hb' => cases hc.symm.trans hc'
  | completed hc hb ihb =>
    cases h' with
    | cutOff hc' => cases hc.symm.trans hc'
    | completed hc' hb' =>
      obtain ⟨rfl, _, rfl⟩ := ihb hb'
      exact ⟨rfl, rfl, rfl⟩
    | failed hc' hb' => cases (ihb hb').2.1
  | failed hc hb ihb =>
    cases h' with
    | cutOff hc' => cases hc.symm.trans hc'
    | completed hc' hb' => cases (ihb hb').2.1
    | failed hc' hb' =>
      obtain ⟨rfl, hfault, rfl⟩ := ihb hb'
      cases hfault
      exact ⟨rfl, rfl, rfl⟩
  | leaf hk he =>
    cases h' with
    | leaf hk' he' =>
      obtain rfl := Option.some.inj (hk.symm.trans hk')
      exact ⟨rfl, he.unique he'⟩
    | _ => simp_all [leafStage?]
  | unknown hk =>
    cases h' with
    | unknown hk' => exact ⟨rfl, rfl, rfl⟩
    | _ => simp_all [leafStage?]
  | condition hk ho hs ihs =>
    cases h' with
    | condition hk' ho' hs' =>
      obtain rfl := Except.ok.inj (ho.symm.trans ho')
      exact ihs hs'
    | _ => simp_all [leafStage?]
  | undecided hk ho =>
    cases h' with
    | undecided hk' ho' =>
      obtain rfl := Except.error.inj (ho.symm.trans ho')
      exact ⟨rfl, rfl, rfl⟩
    | _ => simp_all [leafStage?]
  | loop hk hi hn hr ihr =>
    cases h' with
    | loop hk' hi' hn' hr' =>
      obtain ⟨rfl⟩ := Except.ok.inj (hi.symm.trans hi')
      exact ihr hr'
    | _ => simp_all [leafStage?]
  | unresolved hk hi =>
    cases h' with
    | unresolved hk' hi' =>
      obtain rfl := Except.error.inj (hi.symm.trans hi')
      exact ⟨rfl, rfl, rfl⟩
    | _ => simp_all [leafStage?]
  | notList hk hi hv =>
    cases h' with
    | notList hk' hi' hv' => exact ⟨rfl, rfl, rfl⟩
    | loop hk' hi' hn' hr' => exact absurd (Except.ok.inj (hi.symm.trans hi')) (hv _)
    | nameless hk' hi' hn' => exact absurd (Except.ok.inj (hi.symm.trans hi')) (hv _)
    | _ => simp_all [leafStage?]
  | nameless hk hi hn =>
    cases h' with
    | nameless hk' hi' hn' => exact ⟨rfl, rfl, rfl⟩
    | _ => simp_all [leafStage?]
  | finished =>
    cases h'
    exact ⟨rfl, rfl, rfl⟩
  | unnamed hk =>
    cases h' with
    | unnamed hk' => exact ⟨rfl, rfl, rfl⟩
    | round hk' hs' hr' => cases hk.symm.trans hk'
    | broken hk' hs' => cases hk.symm.trans hk'
  | round hk hs hr ihs ihr =>
    cases h' with
    | unnamed hk' => cases hk.symm.trans hk'
    | round hk' hs' hr' =>
      obtain rfl := Option.some.inj (hk.symm.trans hk')
      obtain ⟨rfl, _, rfl⟩ := ihs hs'
      obtain ⟨rfl, rfl, rfl⟩ := ihr hr'
      exact ⟨rfl, rfl, rfl⟩
    | broken hk' hs' =>
      obtain rfl := Option.some.inj (hk.symm.trans hk')
      cases (ihs hs').2.1
  | broken hk hs ihs =>
    cases h' with
    | unnamed hk' => cases hk.symm.trans hk'
    | round hk' hs' hr' =>
      obtain rfl := Option.some.inj (hk.symm.trans hk')
      cases (ihs hs').2.1
    | broken hk' hs' =>
      obtain rfl := Option.some.inj (hk.symm.trans hk')
      exact ihs hs'

end Stepwise.Run
