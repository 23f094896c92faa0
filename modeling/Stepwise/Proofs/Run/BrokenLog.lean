import Stepwise.Proofs.Run.Breaks
import Stepwise.Proofs.Run.LogGrammar

/-!
# The log of a run that breaks off

The entries that a run appends until it breaks off are a word that stops short: completed blocks,
and steps that are left open, one inside the other. What is told of a word that stops short is where
it does, so it has no place for a successor, a sibling or a round after the step that has failed or
was cut off. After it come the last entries of the open steps and nothing else.
-/

namespace Stepwise.Run

open Stage

variable {σ : Type}

/-- Children that do nothing. -/
def idleRunner : Runner := fun _ => Stage.result ()

section

variable (respond : σ → (r : Request) → r.Answer × σ) (tree : StepTree) (limit : Int)
  (fault : Fault)

/-- The words that stop short at a fault, each from a moment to that of the fault, with the steps
that are left open, the outermost first. -/
inductive Torn : Phrase → Moment σ → List Entry → List Step → Moment σ → Prop
  | first {step : Step} {rest opens : List Step} {m m' : Moment σ} {word : List Entry}
      (ht : Torn (.chain step) m word opens m') : Torn (.run (step :: rest)) m word opens m'
  | later {step : Step} {rest opens : List Step} {m m₁ m' : Moment σ} {word word' : List Entry}
      (hs : Word respond tree (.chain step) m word m₁)
      (ht : Torn (.run rest) m₁ word' opens m') :
      Torn (.run (step :: rest)) m (word ++ word') opens m'
  /-- A step that stands too deep, or that its chain comes back to, does not begin. -/
  | refused {step : Step} {m : Moment σ}
      (hf : fault = .tooDeep limit step.name ∨ fault = .cyclic step.name) :
      Torn (.chain step) m [] [] m
  | last {step : Step} {opens : List Step} {m m' : Moment σ} {word : List Entry}
      (ht : Torn (.block step) m word opens m') : Torn (.chain step) m word opens m'
  | link {step next : Step} {opens : List Step} {m m₁ m' : Moment σ} {word word' : List Entry}
      (hn : tree.nextOf step = some next) (hb : Word respond tree (.block step) m word m₁)
      (ht : Torn (.chain next) m₁ word' opens m') :
      Torn (.chain step) m (word ++ word') opens m'
  /-- A step that finds a cancellation does not begin. -/
  | cutOff {step : Step} {m : Moment σ} (hc : (respond m.state .cancelled).1 = true)
      (hf : fault = .cancelled) : Torn (.block step) m [] [] (looked respond m)
  /-- A step breaks off of itself: it would if its children did nothing. -/
  | own {step : Step} {m m' : Moment σ}
      (hb : Breaks respond (runBody tree idleRunner step) (begun respond step m) fault m') :
      Torn (.block step) m [firstEntry respond step m] [step] m'
  | condition {step : Step} {outcome : Bool} {opens : List Step} {m m' : Moment σ}
      {word : List Entry} (hk : StepKind.ofName? step.type = some .condition)
      (ho : conditionOutcome step (begun respond step m).context.root = .ok outcome)
      (ht : Torn (.run (branchSteps tree step outcome))
        ((begun respond step m).assign (outcomeKey step) (.bool outcome)) word opens m') :
      Torn (.block step) m (firstEntry respond step m :: word) (step :: opens) m'
  | loop {step : Step} {items : List Value} {opens : List Step} {m m' : Moment σ}
      {word : List Entry} (hk : StepKind.ofName? step.type = some .loop)
      (hi : Template.resolve (begun respond step m).context.root (step.config.field "items") =
        .ok (.list items))
      (ht : Torn (.rounds step items) (begun respond step m) word opens m') :
      Torn (.block step) m (firstEntry respond step m :: word) (step :: opens) m'
  /-- Only values that can be keys can name the loop variable. -/
  | unnamed {step : Step} {item : Value} {items : List Value} {m : Moment σ}
      (hk : (step.config.field "variableName").toKey? = none) :
      Torn (.rounds step (item :: items)) m [] [] m
  | round {step : Step} {item : Value} {items : List Value} {key : Key} {opens : List Step}
      {m m' : Moment σ} {word : List Entry}
      (hk : (step.config.field "variableName").toKey? = some key)
      (ht : Torn (.run (tree.childrenOf step.id)) (m.assign key item) word opens m') :
      Torn (.rounds step (item :: items)) m word opens m'
  | nextRound {step : Step} {item : Value} {items : List Value} {key : Key} {opens : List Step}
      {m m₁ m' : Moment σ} {word word' : List Entry}
      (hk : (step.config.field "variableName").toKey? = some key)
      (hr : Word respond tree (.run (tree.childrenOf step.id)) (m.assign key item) word m₁)
      (ht : Torn (.rounds step items) m₁ word' opens m') :
      Torn (.rounds step (item :: items)) m (word ++ word') opens m'

end

variable {respond : σ → (r : Request) → r.Answer × σ} {tree : StepTree} {limit : Int}
  {fault : Fault}

/-! ## From runs to words -/

theorem quiet_forEach {α : Type} {f : α → Stage Unit} (hf : ∀ a, Quiet (f a)) (items : List α) :
    Quiet (forEach f items) := by
  induction items with
  | nil => exact quiet_result ()
  | cons a rest ih => exact (hf a).andThen fun _ => ih

theorem quiet_runCondition (tree : StepTree) {inner : Runner} (hi : ∀ step, Quiet (inner step))
    (step : Step) : Quiet (runCondition tree inner step) :=
  (silent_filled step "left").quiet.andThen fun _ =>
    (silent_filled step "right").quiet.andThen fun _ =>
      (quiet_ofExcept _).andThen fun _ => (quiet_assign _ _).andThen fun _ => quiet_forEach hi _

theorem quiet_runLoop (tree : StepTree) {inner : Runner} (hi : ∀ step, Quiet (inner step))
    (step : Step) : Quiet (runLoop tree inner step) := by
  have hitems : Quiet (fromRoot fun root => Template.resolve root (step.config.field "items")) :=
    (silent_fromRoot fun root => Template.uncancelled_resolve root _).quiet
  refine hitems.andThen fun items => ?_
  split
  · dsimp only
    split_ifs
    · exact quiet_forEach (fun item => (quiet_assign _ item).andThen fun _ => quiet_forEach hi _) _
    · exact quiet_fail _
  · exact quiet_fail _

/-- A step whose children leave the log alone does so between its entries. -/
theorem quiet_runBody (tree : StepTree) {inner : Runner} (hi : ∀ step, Quiet (inner step))
    (step : Step) : Quiet (runBody tree inner step) := by
  unfold runBody
  split
  · exact quiet_runAction step
  · exact quiet_runCondition tree hi step
  · exact quiet_runLoop tree hi step
  · exact quiet_runDelay step
  · exact quiet_runWebhook step
  · exact quiet_runNotification step
  · exact quiet_fail _

/-- Properly nested blocks of completed steps. -/
inductive Blocks : List Entry → Prop
  | nil : Blocks []
  | block {step : Step} {time time' : Instant} {word rest : List Entry} (hw : Blocks word)
      (hr : Blocks rest) :
      Blocks (stepEntry step time .started none :: word ++
        stepEntry step time' .completed none :: rest)

/-- Completed blocks, and steps left open one inside the other, the outermost first. -/
inductive Unclosed : List Step → List Entry → Prop
  | blocks {word : List Entry} (hw : Blocks word) : Unclosed [] word
  | inside {step : Step} {opens : List Step} {time : Instant} {word rest : List Entry}
      (hw : Blocks word) (hr : Unclosed opens rest) :
      Unclosed (step :: opens) (word ++ stepEntry step time .started none :: rest)

theorem Blocks.append {word word' : List Entry} (h : Blocks word) (h' : Blocks word') :
    Blocks (word ++ word') := by
  induction h with
  | nil => exact h'
  | block hw hr _ ihr =>
    rw [List.append_assoc, List.cons_append]
    exact .block hw ihr

theorem Blocks.append_unclosed {word word' : List Entry} {opens : List Step} (h : Blocks word)
    (h' : Unclosed opens word') : Unclosed opens (word ++ word') := by
  cases h' with
  | blocks hw => exact .blocks (h.append hw)
  | inside hw hr =>
    rw [← List.append_assoc]
    exact .inside (h.append hw) hr

theorem Word.blocks {phrase : Phrase} {m m' : Moment σ} {word : List Entry}
    (h : Word respond tree phrase m word m') : Blocks word := by
  induction h with
  | nil => exact .nil
  | cons hs hr ihs ihr => exact ihs.append ihr
  | last hn hb ih => exact ih
  | link hn hb hc ihb ihc => exact ihb.append ihc
  | leaf hk hl hy => exact .block .nil .nil
  | condition hk ho hb hr ih => exact .block ih .nil
  | loop hk hi hr ih => exact .block ih .nil
  | stop => exact .nil
  | round hk hr hs ihr ihs => exact ihr.append ihs

theorem Torn.unclosed {phrase : Phrase} {m m' : Moment σ} {word : List Entry}
    {opens : List Step} (h : Torn respond tree limit fault phrase m word opens m') :
    Unclosed opens word := by
  induction h with
  | first ht ih => exact ih
  | later hs ht ih => exact hs.blocks.append_unclosed ih
  | refused hf => exact .blocks .nil
  | last ht ih => exact ih
  | link hn hb ht ih => exact hb.blocks.append_unclosed ih
  | cutOff hc hf => exact .blocks .nil
  | own hb => exact .inside .nil (.blocks .nil)
  | condition hk ho ht ih => exact .inside .nil ih
  | loop hk hi ht ih => exact .inside .nil ih
  | unnamed hk => exact .blocks .nil
  | round hk ht ih => exact ih
  | nextRound hk hr ht ih => exact hr.blocks.append_unclosed ih

theorem Stage.Quiet.breaks {α : Type} {stage : Stage α} {m m' : Moment σ} (h : Quiet stage)
    (hb : Breaks respond stage m fault m') : m'.context.log = m.context.log := by
  have hrun := (h m.context).run respond m.state
  rw [hb] at hrun
  exact hrun.1

/-- By induction on the word: until the fault the log is longer by the word. -/
theorem Torn.log_eq {phrase : Phrase} {m m' : Moment σ} {word : List Entry} {opens : List Step}
    (h : Torn respond tree limit fault phrase m word opens m') :
    m'.context.log = m.context.log ++ word := by
  induction h with
  | first ht ih => exact ih
  | later hs ht ih => rw [ih, hs.log_eq, List.append_assoc]
  | refused hf => exact (List.append_nil _).symm
  | last ht ih => exact ih
  | link hn hb ht ih => rw [ih, hb.log_eq, List.append_assoc]
  | cutOff hc hf => exact (List.append_nil _).symm
  | own hb => exact (quiet_runBody tree (fun _ => quiet_result ()) _).breaks hb
  | condition hk ho ht ih =>
    rw [ih]
    simp [begun, Moment.assign, Context.logged]
  | loop hk hi ht ih =>
    rw [ih]
    simp [begun, Context.logged]
  | unnamed hk => exact (List.append_nil _).symm
  | round hk ht ih => exact ih
  | nextRound hk hr ht ih =>
    rw [ih, hr.log_eq, List.append_assoc]
    rfl

/-- No entry of completed blocks tells of a failure. -/
theorem Blocks.isClean {word : List Entry} (h : Blocks word) : ∀ e ∈ word, e.IsClean := by
  induction h with
  | nil => simp
  | block hw hr ihw ihr =>
    rw [List.cons_append, List.forall_mem_cons, List.forall_mem_append, List.forall_mem_cons]
    exact ⟨⟨nofun, rfl⟩, ihw, ⟨nofun, rfl⟩, ihr⟩

/-- Nor does one of the steps left open. -/
theorem Unclosed.isClean {word : List Entry} {opens : List Step} (h : Unclosed opens word) :
    ∀ e ∈ word, e.IsClean := by
  induction h with
  | blocks hw => exact hw.isClean
  | inside hw hr ih =>
    rw [List.forall_mem_append, List.forall_mem_cons]
    exact ⟨hw.isClean, ⟨nofun, rfl⟩, ih⟩

end Stepwise.Run
