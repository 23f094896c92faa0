import Stepwise.Proofs.Run.Discipline
import Stepwise.Proofs.Run.Yields
import Stepwise.Proofs.Step.Order
import Stepwise.Run.Simulation

/-!
# The log of a successful run

The entries that a successful run appends are a word of a grammar: a list of steps is the chains of
its steps, a chain is a block and the chain of the successor, and a block is an entry, what the
children of the step append, and another entry. Which children run, and how often, is decided at the
moment at which the step begins, so a word is told together with the moments that it leads through.
-/

namespace Stepwise.Run

open Stage

variable {σ : Type}

/-- What a step without children does. -/
def leafStage? (step : Step) : Option (Stage Unit) :=
  match StepKind.ofName? step.type with
  | some .action => some (runAction step)
  | some .delay => some (runDelay step)
  | some .webhook => some (runWebhook step)
  | some .notification => some (runNotification step)
  | some .condition | some .loop | none => none

/-- The name by which the children of a condition step are configured for one of its outcomes. -/
def branchName : Bool → String
  | true => "true"
  | false => "false"

/-- Of some steps, in their order, exactly those that are configured for a branch. -/
inductive Branch (name : String) : List Step → List Step → Prop
  | nil : Branch name [] []
  | taken {child : Step} {rest chosen : List Step} (hb : child.config.field "branch" = .text name)
      (hr : Branch name rest chosen) : Branch name (child :: rest) (child :: chosen)
  | passed {child : Step} {rest chosen : List Step} (hb : child.config.field "branch" ≠ .text name)
      (hr : Branch name rest chosen) : Branch name (child :: rest) chosen

/-- The parts of a log. -/
inductive Phrase
  /-- Of the chains of some steps. -/
  | run (steps : List Step)
  /-- Of a step and its successors. -/
  | chain (step : Step)
  /-- Of a step alone. -/
  | block (step : Step)
  /-- Of the rounds of a loop step with some items. -/
  | rounds (step : Step) (items : List Value)

section

variable (respond : σ → (r : Request) → r.Answer × σ) (tree : StepTree)

/-- The words of the grammar, each between two moments of a run. -/
inductive Word : Phrase → Moment σ → List Entry → Moment σ → Prop
  | nil {m : Moment σ} : Word (.run []) m [] m
  | cons {step : Step} {rest : List Step} {m m₁ m' : Moment σ} {word word' : List Entry}
      (hs : Word (.chain step) m word m₁) (hr : Word (.run rest) m₁ word' m') :
      Word (.run (step :: rest)) m (word ++ word') m'
  | last {step : Step} {m m' : Moment σ} {word : List Entry} (hn : tree.nextOf step = none)
      (hb : Word (.block step) m word m') : Word (.chain step) m word m'
  | link {step next : Step} {m m₁ m' : Moment σ} {word word' : List Entry}
      (hn : tree.nextOf step = some next) (hb : Word (.block step) m word m₁)
      (hc : Word (.chain next) m₁ word' m') : Word (.chain step) m (word ++ word') m'
  | leaf {step : Step} {stage : Stage Unit} {m m₁ : Moment σ}
      (hk : step.type ∈ ["action", "delay", "webhook", "notification"])
      (hl : leafStage? step = some stage)
      (hy : Yields respond stage (begun respond step m) () m₁) :
      Word (.block step) m [firstEntry respond step m, lastEntry respond step m₁]
        (ended respond step m₁)
  | condition {step : Step} {outcome : Bool} {children : List Step} {m m₁ : Moment σ}
      {word : List Entry} (hk : step.type = "condition")
      (ho : conditionOutcome step (begun respond step m).context.root = .ok outcome)
      (hb : Branch (branchName outcome) (tree.childrenOf step.id) children)
      (hr : Word (.run children) ((begun respond step m).assign (outcomeKey step) (.bool outcome))
        word m₁) :
      Word (.block step) m (firstEntry respond step m :: word ++ [lastEntry respond step m₁])
        (ended respond step m₁)
  | loop {step : Step} {items : List Value} {m m₁ : Moment σ} {word : List Entry}
      (hk : step.type = "loop")
      (hi : Template.resolve (begun respond step m).context.root (step.config.field "items") =
        .ok (.list items))
      (hr : Word (.rounds step items) (begun respond step m) word m₁) :
      Word (.block step) m (firstEntry respond step m :: word ++ [lastEntry respond step m₁])
        (ended respond step m₁)
  | stop {step : Step} {m : Moment σ} : Word (.rounds step []) m [] m
  | round {step : Step} {item : Value} {items : List Value} {key : Key} {m m₁ m' : Moment σ}
      {word word' : List Entry} (hk : (step.config.field "variableName").toKey? = some key)
      (hr : Word (.run (tree.childrenOf step.id)) (m.assign key item) word m₁)
      (hs : Word (.rounds step items) m₁ word' m') :
      Word (.rounds step (item :: items)) m (word ++ word') m'

end

variable {respond : σ → (r : Request) → r.Answer × σ} {tree : StepTree}

/-! ## Branches -/

theorem equal_text_iff {value : Value} {s : String} :
    value.equal (.text s) = true ↔ value = .text s := by
  cases value <;> simp [Value.equal, Extent.coincide, Value.extent?]

/-- The children that an outcome leads to are those of its branch. -/
theorem branch_branchSteps (tree : StepTree) (step : Step) (outcome : Bool) :
    Branch (branchName outcome) (tree.childrenOf step.id) (branchSteps tree step outcome) := by
  have hchosen : branchSteps tree step outcome = (tree.childrenOf step.id).filter fun child =>
      (child.config.field "branch").equal (.text (branchName outcome)) := by
    cases outcome <;> rfl
  rw [hchosen]
  induction tree.childrenOf step.id with
  | nil => exact .nil
  | cons child rest ih =>
    by_cases hb : child.config.field "branch" = .text (branchName outcome)
    · rw [List.filter_cons, if_pos (equal_text_iff.mpr hb)]
      exact .taken hb ih
    · rw [List.filter_cons, if_neg (mt equal_text_iff.mp hb)]
      exact .passed hb ih

/-! ## Leaves -/

/-- What asks nothing is quiet. -/
theorem Stage.Silent.quiet {α : Type} {stage : Stage α} (h : Silent stage) : Quiet stage := by
  intro c
  obtain ⟨r, c', hr, _, hlog, hinput⟩ := h c
  rw [hr]
  exact ⟨hlog, hinput⟩

theorem quiet_runAction (step : Step) : Quiet (runAction step) := by
  unfold runAction
  dsimp only
  split
  · exact (silent_taskFields step).quiet.andThen fun _ => (quiet_ask _).andThen fun _ =>
      (quiet_ofExcept _).andThen fun _ => quiet_assign _ _
  · exact (silent_taskChanges step).quiet.andThen fun _ => (quiet_ask _).andThen fun _ =>
      (quiet_ofExcept _).andThen fun _ => quiet_assign _ _
  · exact (quiet_ask _).andThen fun _ => quiet_ofExcept _
  · split_ifs
    · exact (silent_filled step "value").quiet.andThen fun _ => quiet_assign _ _
    · exact quiet_fail _
  · exact quiet_fail _

theorem quiet_runDelay (step : Step) : Quiet (runDelay step) := by
  refine (quiet_ofExcept _).andThen fun _ => (quiet_ask _).andThen fun (broken : Bool) => ?_
  cases broken with
  | false => exact quiet_result _
  | true => exact quiet_fail _

theorem quiet_runWebhook (step : Step) : Quiet (runWebhook step) := by
  rw [runWebhook_eq]
  split_ifs
  · exact (silent_callBody step).quiet.andThen fun _ => (quiet_ofExcept _).andThen fun _ =>
      (quiet_ask _).andThen fun _ => (quiet_ofExcept _).andThen fun _ => quiet_assign _ _
  · exact quiet_fail _

theorem quiet_runNotification (step : Step) : Quiet (runNotification step) :=
  (silent_filled step "title").quiet.andThen fun _ =>
    (silent_filled step "message").quiet.andThen fun _ =>
      (quiet_ask _).andThen fun _ => quiet_ofExcept _

/-- A step without children leaves the log alone between its entries. -/
theorem quiet_leafStage? {step : Step} {stage : Stage Unit} (h : leafStage? step = some stage) :
    Quiet stage := by
  unfold leafStage? at h
  split at h
  · exact Option.some.inj h ▸ quiet_runAction step
  · exact Option.some.inj h ▸ quiet_runDelay step
  · exact Option.some.inj h ▸ quiet_runWebhook step
  · exact Option.some.inj h ▸ quiet_runNotification step
  · cases h
  · cases h
  · cases h

/-! ## From runs to words -/

/-- Where the steps one level deeper append words, a list of them does. -/
theorem word_of_forEach {inner : Runner}
    (hi : ∀ step m m', Yields respond (inner step) m () m' →
      ∃ word, Word respond tree (.chain step) m word m')
    {steps : List Step} {m m' : Moment σ} (h : Yields respond (forEach inner steps) m () m') :
    ∃ word, Word respond tree (.run steps) m word m' := by
  induction steps generalizing m with
  | nil =>
    obtain rfl := yields_forEach_nil.mp h
    exact ⟨[], .nil⟩
  | cons step rest ih =>
    obtain ⟨m₁, hstep, hrest⟩ := yields_forEach_cons.mp h
    obtain ⟨word, hword⟩ := hi step m m₁ hstep
    obtain ⟨word', hword'⟩ := ih hrest
    exact ⟨word ++ word', .cons hword hword'⟩

theorem word_of_rounds {inner : Runner}
    (hi : ∀ step m m', Yields respond (inner step) m () m' →
      ∃ word, Word respond tree (.chain step) m word m')
    {step : Step} {items : List Value} {m m' : Moment σ}
    (h : Yields respond (forEach (runRound tree inner step) items) m () m') :
    ∃ word, Word respond tree (.rounds step items) m word m' := by
  induction items generalizing m with
  | nil =>
    obtain rfl := yields_forEach_nil.mp h
    exact ⟨[], .stop⟩
  | cons item rest ih =>
    obtain ⟨m₁, hround, hrest⟩ := yields_forEach_cons.mp h
    obtain ⟨⟨⟩, m₂, hassign, hchildren⟩ := yields_andThen.mp hround
    obtain ⟨key, hkey, rfl⟩ := yields_assign.mp hassign
    obtain ⟨word, hword⟩ := word_of_forEach hi hchildren
    obtain ⟨word', hword'⟩ := ih hrest
    exact ⟨word ++ word', .round hkey hword hword'⟩

/-- A completed step appends a block. -/
theorem word_of_runStep {inner : Runner}
    (hi : ∀ step m m', Yields respond (inner step) m () m' →
      ∃ word, Word respond tree (.chain step) m word m')
    {step : Step} {m m' : Moment σ} (h : Yields respond (runStep tree inner step) m () m') :
    ∃ word, Word respond tree (.block step) m word m' := by
  obtain ⟨_, m₁, hbody, rfl⟩ := yields_runStep.mp h
  unfold runBody at hbody
  split at hbody
  · rename_i hk
    exact ⟨_, .leaf (by simp [StepKind.name_of_ofName? hk, StepKind.name])
      (by rw [leafStage?, hk]) hbody⟩
  · rename_i hk
    obtain ⟨outcome, ho, hchildren⟩ := yields_runCondition.mp hbody
    obtain ⟨word, hword⟩ := word_of_forEach hi hchildren
    exact ⟨_, .condition (StepKind.name_of_ofName? hk) ho (branch_branchSteps _ _ _) hword⟩
  · rename_i hk
    obtain ⟨items, hitems, _, hrounds⟩ := yields_runLoop.mp hbody
    obtain ⟨word, hword⟩ := word_of_rounds hi hrounds
    exact ⟨_, .loop (StepKind.name_of_ofName? hk) hitems hword⟩
  · rename_i hk
    exact ⟨_, .leaf (by simp [StepKind.name_of_ofName? hk, StepKind.name])
      (by rw [leafStage?, hk]) hbody⟩
  · rename_i hk
    exact ⟨_, .leaf (by simp [StepKind.name_of_ofName? hk, StepKind.name])
      (by rw [leafStage?, hk]) hbody⟩
  · rename_i hk
    exact ⟨_, .leaf (by simp [StepKind.name_of_ofName? hk, StepKind.name])
      (by rw [leafStage?, hk]) hbody⟩
  · exact absurd hbody not_yields_fail

/-- By induction on the fuel: a chain that does not come back to one of its steps is followed to its
end. -/
theorem word_of_follow {run : Runner}
    (hr : ∀ step m m', Yields respond (run step) m () m' →
      ∃ word, Word respond tree (.block step) m word m')
    {fuel : Nat} {seen : List String} {step : Step} {m m' : Moment σ}
    (hn : (tree.follow fuel seen (some step)).repeated = none)
    (h : Yields respond (forEach run (tree.follow fuel seen (some step)).steps) m () m') :
    ∃ word, Word respond tree (.chain step) m word m' := by
  induction fuel generalizing seen step m with
  | zero => cases hn
  | succ fuel ih =>
    unfold StepTree.follow at hn h
    split_ifs at hn h
    obtain ⟨m₁, hstep, hrest⟩ := yields_forEach_cons.mp h
    obtain ⟨word, hword⟩ := hr step m m₁ hstep
    cases hnext : tree.nextOf step with
    | none =>
      rw [hnext] at hrest
      have hnil : tree.follow fuel (step.id :: seen) none = ⟨[], none⟩ := by
        cases fuel <;> rfl
      rw [hnil] at hrest
      obtain rfl := yields_forEach_nil.mp hrest
      exact ⟨word, .last hnext hword⟩
    | some next =>
      rw [hnext] at hrest hn
      obtain ⟨word', hword'⟩ := ih hn hrest
      exact ⟨word ++ word', .link hnext hword hword'⟩

theorem word_of_runChain {inner : Runner}
    (hi : ∀ step m m', Yields respond (inner step) m () m' →
      ∃ word, Word respond tree (.chain step) m word m')
    {step : Step} {m m' : Moment σ} (h : Yields respond (runChain tree inner step) m () m') :
    ∃ word, Word respond tree (.chain step) m word m' := by
  obtain ⟨⟨⟩, m₁, hsteps, hend⟩ := yields_andThen.mp h
  cases hn : (tree.chain step).repeated with
  | some repeated =>
    rw [hn] at hend
    exact absurd hend not_yields_fail
  | none =>
    rw [hn] at hend
    obtain ⟨_, rfl⟩ := yields_result.mp hend
    exact word_of_follow (fun step m m' => word_of_runStep hi) hn hsteps

/-- By induction on the levels that are left. -/
theorem word_of_runNested (limit : Int) (levels : Nat) {step : Step} {m m' : Moment σ}
    (h : Yields respond (runNested tree limit levels step) m () m') :
    ∃ word, Word respond tree (.chain step) m word m' := by
  induction levels generalizing step m m' with
  | zero => exact absurd h not_yields_fail
  | succ levels ih => exact word_of_runChain (fun step m m' => ih) h

/-! ## What words are -/

/-- An entry that tells of no failure. -/
def Entry.IsClean (e : Entry) : Prop := e.mark ≠ .failed ∧ e.error = none

theorem isClean_firstEntry (step : Step) (m : Moment σ) : (firstEntry respond step m).IsClean :=
  ⟨nofun, rfl⟩

theorem isClean_lastEntry (step : Step) (m : Moment σ) : (lastEntry respond step m).IsClean :=
  ⟨nofun, rfl⟩

/-- By induction on the word: the log is longer by the word. -/
theorem Word.log_eq {phrase : Phrase} {m m' : Moment σ} {word : List Entry}
    (h : Word respond tree phrase m word m') : m'.context.log = m.context.log ++ word := by
  induction h with
  | nil => exact (List.append_nil _).symm
  | cons hs hr ihs ihr => rw [ihr, ihs, List.append_assoc]
  | last hn hb ih => exact ih
  | link hn hb hc ihb ihc => rw [ihc, ihb, List.append_assoc]
  | leaf hk hl hy =>
    have hlog := ((quiet_leafStage? hl).yields hy).1
    show _ ++ [_] = _
    rw [hlog]
    simp [begun, Context.logged]
  | condition hk ho hb hr ih =>
    show _ ++ [_] = _
    rw [ih]
    simp [begun, Moment.assign, Context.logged]
  | loop hk hi hr ih =>
    show _ ++ [_] = _
    rw [ih]
    simp [begun, Context.logged]
  | stop => exact (List.append_nil _).symm
  | round hk hr hs ihr ihs =>
    rw [ihs, ihr, List.append_assoc]
    rfl

/-- No entry of a word tells of a failure. -/
theorem Word.isClean {phrase : Phrase} {m m' : Moment σ} {word : List Entry}
    (h : Word respond tree phrase m word m') : ∀ e ∈ word, e.IsClean := by
  induction h with
  | nil => simp
  | cons hs hr ihs ihr => exact List.forall_mem_append.mpr ⟨ihs, ihr⟩
  | last hn hb ih => exact ih
  | link hn hb hc ihb ihc => exact List.forall_mem_append.mpr ⟨ihb, ihc⟩
  | leaf hk hl hy => simp [isClean_firstEntry, isClean_lastEntry]
  | condition hk ho hb hr ih =>
    simpa [isClean_firstEntry, isClean_lastEntry, or_imp, forall_and] using ih
  | loop hk hi hr ih =>
    simpa [isClean_firstEntry, isClean_lastEntry, or_imp, forall_and] using ih
  | stop => simp
  | round hk hr hs ihr ihs => exact List.forall_mem_append.mpr ⟨ihr, ihs⟩

/-- The entries that a successful run appends to the log are a word of the grammar for the roots of
its tree, in which no entry tells of a failure. The roots are the steps without a parent and the
children of a step are those that name it as their parent, by position. -/
theorem log_of_successful_run (respond : σ → (r : Request) → r.Answer × σ) (steps : List Step)
    (limit : Int) {c c' : Context} {s s' : σ}
    (h : Program.run (I := surroundings) respond (runTree (.ofSteps steps) limit c) s =
      ((.ok (), c'), s')) :
    (∃ word, Word respond (.ofSteps steps) (.run (StepTree.ofSteps steps).roots) ⟨c, s⟩ word
        ⟨c', s'⟩ ∧ c'.log = c.log ++ word ∧ ∀ e ∈ word, e.IsClean) ∧
      InOrder (StepTree.ofSteps steps).roots ∧
      (∀ step, step ∈ (StepTree.ofSteps steps).roots ↔ step ∈ steps ∧ step.parent = none) ∧
      ∀ id, InOrder ((StepTree.ofSteps steps).childrenOf id) ∧
        ∀ step, step ∈ (StepTree.ofSteps steps).childrenOf id ↔
          step ∈ steps ∧ step.parent = some id := by
  have hyields : Yields respond (forEach (runAt (.ofSteps steps) limit 0)
      (StepTree.ofSteps steps).roots) ⟨c, s⟩ () ⟨c', s'⟩ := h
  obtain ⟨word, hword⟩ := word_of_forEach (fun step m m' => word_of_runNested limit _) hyields
  exact ⟨⟨word, hword, hword.log_eq, hword.isClean⟩, StepTree.inOrder_roots steps,
    fun _ => StepTree.mem_roots_ofSteps,
    fun id => ⟨StepTree.inOrder_childrenOf steps id, fun _ => StepTree.mem_childrenOf_ofSteps⟩⟩

/-- A loop over two numbers, in which a condition notifies of the first one in one branch and of the
second one in the other, and whose successor stands under no step. A child of the condition that is
configured for no branch never runs. -/
def loopSteps : List Step :=
  [{ id := "l", name := "loop", type := "loop", position := 0, parent := none, next := some "n"
     config := [(.text "items", .list [.int 1, .int 2]), (.text "variableName", .text "x")] },
   { id := "c", name := "check", type := "condition", position := 1, parent := some "l"
     next := none
     config := [(.text "left", .text "\x7b\x7bx\x7d\x7d"), (.text "operator", .text "equals"),
       (.text "right", .text "1")] },
   { id := "t", name := "tell", type := "notification", position := 2, parent := some "c"
     next := none, config := [(.text "branch", .text "true")] },
   { id := "f", name := "warn", type := "notification", position := 3, parent := some "c"
     next := none, config := [(.text "branch", .text "false")] },
   { id := "o", name := "odd", type := "notification", position := 4, parent := some "c"
     next := none, config := [(.text "branch", .bool true)] },
   { id := "n", name := "last", type := "notification", position := 5, parent := some "m"
     next := none, config := [] }]

/-- Surroundings in which nothing is stored and nothing happens. -/
def idle : Simulation := ⟨0, false, false, none, [], [], 0, [], [], []⟩

/-- The log of the loop is a word of the grammar. -/
theorem log_of_loopSteps : ∃ c' s' word,
    Program.run (I := surroundings) Simulation.respond (runTree (.ofSteps loopSteps) 5
        ⟨.null, [], []⟩) idle = ((.ok (), c'), s') ∧
      Word Simulation.respond (.ofSteps loopSteps) (.run (StepTree.ofSteps loopSteps).roots)
        ⟨⟨.null, [], []⟩, idle⟩ word ⟨c', s'⟩ ∧
      word.map (fun e => (e.step, e.mark)) =
        [("loop", .started), ("check", .started), ("tell", .started), ("tell", .completed),
          ("check", .completed), ("check", .started), ("warn", .started), ("warn", .completed),
          ("check", .completed), ("loop", .completed), ("last", .started),
          ("last", .completed)] := by
  have htree : StepTree.ofSteps loopSteps = ⟨loopSteps⟩ :=
    StepTree.ofSteps_of_inOrder (by decide)
  have hok : (Program.run (I := surroundings) Simulation.respond (runTree ⟨loopSteps⟩ 5
      ⟨.null, [], []⟩) idle).1.1.isOk = true := by
    decide +kernel
  have hlog : ((Program.run (I := surroundings) Simulation.respond (runTree ⟨loopSteps⟩ 5
      ⟨.null, [], []⟩) idle).1.2.log.map fun e => (e.step, e.mark)) =
        [("loop", .started), ("check", .started), ("tell", .started), ("tell", .completed),
          ("check", .completed), ("check", .started), ("warn", .started), ("warn", .completed),
          ("check", .completed), ("loop", .completed), ("last", .started),
          ("last", .completed)] := by
    decide +kernel
  rw [← htree] at hok hlog
  cases hrun : Program.run (I := surroundings) Simulation.respond (runTree (.ofSteps loopSteps) 5
      ⟨.null, [], []⟩) idle with
  | mk out s' =>
    rw [hrun] at hok hlog
    obtain ⟨fault | ⟨⟩, c'⟩ := out
    · cases hok
    · obtain ⟨⟨word, hword, heq, _⟩, _⟩ := log_of_successful_run _ _ _ hrun
      rw [List.nil_append] at heq
      exact ⟨c', s', word, rfl, hword, heq ▸ hlog⟩

end Stepwise.Run
