import Mathlib.Data.List.DropRight
import Stepwise.Proofs.Run.Nesting

/-!
# The limit of nesting only rejects

Two runs of one tree under two limits do the same as long as they meet no step that is too deep for
the lower limit. Where they meet one, the run under the lower limit makes no further request but to
close the steps that are open, whatever the other run goes on to do. So the two are related request
by request: they ask alike until both are done, or until the first of them breaks off.
-/

namespace Stepwise.Run

open Stage

variable {α β σ : Type} {low : Int}

/-! ## What is left of a run that breaks off -/

/-- What is left of a run that has come to a fault with the given log: entries for steps that have
failed, and the end. -/
inductive Closing (fault : Fault) (log : List Entry) :
    Program surroundings (Except Fault α × Context) → Prop
  | done {c : Context} {closing : List Entry} (hlog : c.log = log ++ closing)
      (hf : ∀ e ∈ closing, e.mark = .failed) : Closing fault log (.done (.error fault, c))
  | now {next : Instant → Program surroundings (Except Fault α × Context)}
      (h : ∀ time, Closing fault log (next time)) : Closing fault log (.ask .now next)

theorem Closing.bind {fault : Fault} {log : List Entry}
    {program : Program surroundings (Except Fault α × Context)}
    {f : Except Fault α × Context → Program surroundings (Except Fault β × Context)}
    (h : Closing fault log program)
    (hf : ∀ c, Closing fault log (.done (.error fault, c) :
      Program surroundings (Except Fault α × Context)) → Closing fault log (f (.error fault, c))) :
    Closing fault log (program.bind f) := by
  induction h with
  | done hlog hfailed => exact hf _ (.done hlog hfailed)
  | now h ih => exact .now ih

/-- A run that breaks off reads the clock and asks for nothing else. -/
theorem Closing.run {fault : Fault} {log : List Entry}
    {program : Program surroundings (Except Fault α × Context)} (h : Closing fault log program)
    (respond : σ → (r : Request) → r.Answer × σ) (s : σ) :
    (Program.run (I := surroundings) respond program s).1.1 = .error fault ∧
      (∃ closing, finalLog respond program s = log ++ closing ∧
        ∀ e ∈ closing, e.mark = .failed) ∧
      (asked respond program s).filter Request.suspends = [] := by
  induction h generalizing s with
  | done hlog hf => exact ⟨rfl, ⟨_, hlog, hf⟩, rfl⟩
  | now h ih => exact ih _ _

/-- However it is answered, the program ends with a log that goes on from the given one. -/
def Extends (log : List Entry) (program : Program surroundings (Except Fault α × Context)) : Prop :=
  program.Ends fun out => log <+: out.2.log

theorem Course.extends {post : Place → Except Fault α → Prop} {p : Place}
    {program : Program surroundings (Except Fault α × Context)} (h : Course post program p) :
    Extends p.log program := by
  induction program generalizing p with
  | done out => exact h.1 ▸ List.prefix_rfl
  | ask r next ih =>
    refine (Program.ends_ask r next).mpr fun answer => ?_
    obtain ⟨p', hmove, hrest⟩ := h answer
    exact (ih answer hrest).mono fun _ hout => hmove.log_prefix.trans hout

theorem Stage.Orderly.extends {stage : Stage α} (h : Orderly Stand.IsCalm stage) (c : Context) :
    Extends c.log (stage c) :=
  (h c ⟨.between, [], c.log⟩ (.inl rfl) rfl).extends

theorem extends_finish (step : Step) (out : Except Fault Unit × Context) :
    Extends out.2.log (finish step out) := by
  obtain ⟨fault | ⟨⟩, c⟩ := out
  · by_cases hf : fault = .cancelled
    · subst hf
      exact List.prefix_rfl
    · rw [finish_fault step hf]
      exact (Program.ends_ask _ _).mpr fun time => List.prefix_append _ _
  · exact (Program.ends_ask _ _).mpr fun time => List.prefix_append _ _

/-! ## One run cut short by its limit -/

/-- The first program does what the second one does, unless it breaks off at a step that is too
deep for the lower limit. -/
inductive Cut (low : Int) : Program surroundings (Except Fault α × Context) →
    Program surroundings (Except Fault α × Context) → Prop
  | done (out : Except Fault α × Context) : Cut low (.done out) (.done out)
  | ask (r : Request) {next next' : r.Answer → Program surroundings (Except Fault α × Context)}
      (h : ∀ answer, Cut low (next answer) (next' answer)) : Cut low (.ask r next) (.ask r next')
  | short {step : String} {log : List Entry}
      {program program' : Program surroundings (Except Fault α × Context)}
      (hc : Closing (.tooDeep low step) log program) (he : Extends log program') :
      Cut low program program'

theorem Cut.refl (program : Program surroundings (Except Fault α × Context)) :
    Cut low program program := by
  induction program with
  | done out => exact .done out
  | ask r next ih => exact .ask r ih

/-- What comes after the two programs may only close steps where the first has broken off, and only
append to the log of the second. -/
theorem Cut.bind {program program' : Program surroundings (Except Fault α × Context)}
    {f f' : Except Fault α × Context → Program surroundings (Except Fault β × Context)}
    (h : Cut low program program') (hf : ∀ out, Cut low (f out) (f' out))
    (hc : ∀ step log c, Closing (.tooDeep low step) log (.done (.error (.tooDeep low step), c) :
      Program surroundings (Except Fault α × Context)) →
        Closing (.tooDeep low step) log (f (.error (.tooDeep low step), c)))
    (he : ∀ out, Extends out.2.log (f' out)) : Cut low (program.bind f) (program'.bind f') := by
  induction h with
  | done out => exact hf out
  | ask r h ih => exact .ask r ih
  | short hclosing hextends =>
    refine .short (hclosing.bind (hc _ _)) ((Program.ends_bind _ _).mpr ?_)
    exact hextends.mono fun out hlog => (he out).mono fun _ hout => hlog.trans hout

/-- The run that breaks off has made no request before that the other has not made, and its log up
to there is the beginning of that of the other. -/
def BreaksOff (respond : σ → (r : Request) → r.Answer × σ) (low : Int)
    (program program' : Program surroundings (Except Fault α × Context)) (s : σ) : Prop :=
  ∃ step log closing,
    (Program.run (I := surroundings) respond program s).1.1 = .error (.tooDeep low step) ∧
      finalLog respond program s = log ++ closing ∧ (∀ e ∈ closing, e.mark = .failed) ∧
      log <+: finalLog respond program' s ∧
      (asked respond program s).filter Request.suspends <+:
        (asked respond program' s).filter Request.suspends

/-- By induction on the requests that the two make alike. -/
theorem Cut.run {program program' : Program surroundings (Except Fault α × Context)}
    (h : Cut low program program') (respond : σ → (r : Request) → r.Answer × σ) (s : σ) :
    (Program.run (I := surroundings) respond program s =
        Program.run (I := surroundings) respond program' s ∧
      asked respond program s = asked respond program' s) ∨
      BreaksOff respond low program program' s := by
  induction h generalizing s with
  | done out => exact .inl ⟨rfl, rfl⟩
  | ask r h ih =>
    obtain ⟨hrun, hasked⟩ | ⟨step, log, closing, hend, hlog, hfailed, hprefix, hrequests⟩ :=
      ih (respond s r).1 (respond s r).2
    · exact .inl ⟨hrun, congrArg (r :: ·) hasked⟩
    · refine .inr ⟨step, log, closing, hend, hlog, hfailed, hprefix, ?_⟩
      show List.filter _ (r :: _) <+: List.filter _ (r :: _)
      rw [List.filter_cons, List.filter_cons]
      split_ifs
      · exact (List.prefix_cons_inj _).mpr hrequests
      · exact hrequests
  | @short step log program program' hc he =>
    obtain ⟨hend, ⟨closing, hlog, hfailed⟩, hrequests⟩ := hc.run respond s
    refine .inr ⟨step, log, closing, hend, hlog, hfailed, he.run respond s, ?_⟩
    rw [hrequests]
    exact List.nil_prefix

namespace Stage

/-- From every context the first stage does what the second one does, unless it breaks off at a step
that is too deep. -/
def Shorter (low : Int) (stage stage' : Stage α) : Prop := ∀ c, Cut low (stage c) (stage' c)

theorem Shorter.refl (stage : Stage α) : Shorter low stage stage := fun c => .refl (stage c)

theorem Shorter.andThen {stage stage' : Stage α} {f f' : α → Stage β}
    (h : Shorter low stage stage') (hf : ∀ a, Shorter low (f a) (f' a))
    (ho : ∀ a, Orderly Stand.IsCalm (f' a)) :
    Shorter low (stage.andThen f) (stage'.andThen f') := by
  intro c
  refine (h c).bind ?_ (fun _ _ _ hdone => ?_) ?_
  · rintro ⟨fault | a, c₁⟩
    · exact .done _
    · exact hf a c₁
  · cases hdone with
    | done hlog hfailed => exact .done hlog hfailed
  · rintro ⟨fault | a, c₁⟩
    · exact List.prefix_rfl
    · exact (ho a).extends c₁

theorem Shorter.forEach {f f' : α → Stage Unit} (hf : ∀ a, Shorter low (f a) (f' a))
    (ho : ∀ a, Orderly Stand.IsCalm (f' a)) (items : List α) :
    Shorter low (forEach f items) (Stage.forEach f' items) := by
  induction items with
  | nil => exact .refl _
  | cons a rest ih => exact (hf a).andThen (fun _ => ih) fun _ => orderly_forEach ho rest

end Stage

/-! ## The two runs -/

section

variable {tree : StepTree} {inner inner' : Runner}

theorem shorter_runCondition (hi : ∀ step, Shorter low (inner step) (inner' step))
    (ho : ∀ step, Orderly Stand.IsCalm (inner' step)) (step : Step) :
    Shorter low (runCondition tree inner step) (runCondition tree inner' step) := by
  intro c
  rw [runCondition_eq, runCondition_eq]
  cases conditionOutcome step c.root with
  | error fault => exact .done _
  | ok outcome => exact Shorter.forEach hi ho _ _

theorem shorter_runLoop (hi : ∀ step, Shorter low (inner step) (inner' step))
    (ho : ∀ step, Orderly Stand.IsCalm (inner' step)) (step : Step) :
    Shorter low (runLoop tree inner step) (runLoop tree inner' step) := by
  intro c
  have hround (item : Value) :
      Shorter low (runRound tree inner step item) (runRound tree inner' step item) :=
    (Shorter.refl _).andThen (fun _ => Shorter.forEach hi ho _) fun _ => orderly_forEach ho _
  have horder (item : Value) : Orderly Stand.IsCalm (runRound tree inner' step item) :=
    (silent_assign _ item).orderly.andThen fun _ => orderly_forEach ho _
  rw [runLoop_eq, runLoop_eq]
  split
  · split_ifs
    · exact Shorter.forEach hround horder _ c
    · exact .done _
  · exact .done _
  · exact .done _

theorem shorter_runBody (hi : ∀ step, Shorter low (inner step) (inner' step))
    (ho : ∀ step, Orderly Stand.IsCalm (inner' step)) (step : Step) :
    Shorter low (runBody tree inner step) (runBody tree inner' step) := by
  unfold runBody
  split
  · exact .refl _
  · exact shorter_runCondition hi ho step
  · exact shorter_runLoop hi ho step
  · exact .refl _
  · exact .refl _
  · exact .refl _
  · exact .refl _

/-- Where the steps inside break off, the step is closed as one that has failed. -/
theorem shorter_runStep (hi : ∀ step, Shorter low (inner step) (inner' step))
    (ho : ∀ step, Orderly Stand.IsCalm (inner' step)) (step : Step) :
    Shorter low (runStep tree inner step) (runStep tree inner' step) := by
  intro c
  rw [runStep_eq, runStep_eq]
  refine .ask Request.cancelled fun (told : Bool) => ?_
  split_ifs
  · exact .done _
  · refine .ask Request.now fun time => ?_
    refine (shorter_runBody hi ho step _).bind (fun out => .refl _) (fun name log c₁ hdone => ?_)
      (extends_finish step)
    have hfault : Fault.tooDeep low name ≠ .cancelled := nofun
    rw [finish_fault step hfault]
    refine .now fun time' => ?_
    cases hdone with
    | @done _ closing hlog hfailed =>
      let last := stepEntry step time' .failed (some (Fault.tooDeep low name).recorded)
      have hmarks : ∀ e ∈ closing ++ [last], e.mark = .failed :=
        List.forall_mem_append.mpr ⟨hfailed, List.forall_mem_singleton.mpr rfl⟩
      refine .done ?_ hmarks
      rw [Context.logged, hlog, List.append_assoc]

theorem shorter_runChain (hi : ∀ step, Shorter low (inner step) (inner' step))
    (ho : ∀ step, Orderly Stand.IsCalm (inner' step)) (step : Step) :
    Shorter low (runChain tree inner step) (runChain tree inner' step) := by
  refine (Shorter.forEach (fun link => shorter_runStep hi ho link)
    (fun link => orderly_runStep tree ho link) _).andThen (fun _ => .refl _) fun _ => ?_
  split
  · exact orderly_fail _
  · exact orderly_result ()

end

/-- By induction on the levels that are left under the lower limit. -/
theorem shorter_runNested (tree : StepTree) (low high : Int) {levels levels' : Nat}
    (hl : levels ≤ levels') (step : Step) :
    Shorter low (runNested tree low levels step) (runNested tree high levels' step) := by
  induction levels generalizing levels' step with
  | zero =>
    intro c
    have hclosing : c.log = c.log ++ [] := (List.append_nil _).symm
    exact .short (.done hclosing (List.forall_mem_nil _))
      ((orderly_runNested tree high levels' step).extends c)
  | succ levels ih =>
    cases levels' with
    | zero => omega
    | succ levels' =>
      exact shorter_runChain (fun child => ih (by omega) child)
        (fun child => orderly_runNested tree high levels' child) step

theorem shorter_runTree (tree : StepTree) {low high : Int} (hle : low ≤ high) :
    Shorter low (runTree tree low) (runTree tree high) := by
  have hlevels : levelsLeft low 0 ≤ levelsLeft high 0 := by
    unfold levelsLeft
    omega
  exact Shorter.forEach (fun step => shorter_runNested tree low high hlevels step)
    (fun step => orderly_runNested tree high _ step) tree.roots

/-- The log without the entries at its end that tell of failed steps. -/
def withoutFailures (log : List Entry) : List Entry :=
  log.rdropWhile fun e => decide (e.mark = .failed)

theorem withoutFailures_append {log closing : List Entry}
    (hf : ∀ e ∈ closing, e.mark = .failed) : withoutFailures (log ++ closing) <+: log := by
  unfold withoutFailures
  induction closing using List.reverseRecOn with
  | nil => simpa using List.rdropWhile_prefix _ log
  | append_singleton closing e ih =>
    obtain ⟨hclosing, he⟩ := List.forall_mem_append.mp hf
    rw [← List.append_assoc, List.rdropWhile_concat_pos]
    · exact ih hclosing
    · simpa using he

/-- The limit of nesting only rejects, it never changes a run. Of two runs of one tree, from one
context and in surroundings that answer alike, take the one under the lower limit. If it does not
end because a step is too deep, the other run ends alike, with the same variables and the same log,
and makes the same requests. If it does, then its log, without the failures at its end, its
operations of the store and its calls are the beginnings of those of the other run. And in every
run a step begins inside at most as many open steps as the limit says, which are conditions and
loops. -/
theorem limit_only_rejects (respond : σ → (r : Request) → r.Answer × σ) (tree : StepTree)
    (c : Context) (s : σ) :
    (∀ low high, low ≤ high →
      let lower := runTree tree low c
      let higher := runTree tree high c
      let outcome := (Program.run (I := surroundings) respond lower s).1.1
      ((∀ step, outcome ≠ .error (.tooDeep low step)) →
        Program.run (I := surroundings) respond lower s =
            Program.run (I := surroundings) respond higher s ∧
          asked respond lower s = asked respond higher s) ∧
      ((∃ step, outcome = .error (.tooDeep low step)) →
        withoutFailures (finalLog respond lower s) <+: finalLog respond higher s ∧
          operations (asked respond lower s) <+: operations (asked respond higher s) ∧
          calls (asked respond lower s) <+: calls (asked respond higher s))) ∧
    ∀ limit, ∃ word, finalLog respond (runTree tree limit c) s = c.log ++ word ∧
      ∀ before e after, word = before ++ e :: after → e.mark = .started →
        Roomy limit (opensAfter [] (before.map .entry)) := by
  refine ⟨fun low high hle => ?_, fun limit => ?_⟩
  · obtain ⟨hrun, hasked⟩ | ⟨step, log, closing, hend, hlog, hfailed, hprefix, hrequests⟩ :=
      (shorter_runTree tree hle c).run respond s
    · refine ⟨fun _ => ⟨hrun, hasked⟩, fun _ => ?_⟩
      have hlogs : finalLog respond (runTree tree low c) s =
          finalLog respond (runTree tree high c) s := congrArg (·.1.2.log) hrun
      rw [hlogs, hasked]
      exact ⟨List.rdropWhile_prefix _ _, List.prefix_rfl, List.prefix_rfl⟩
    · refine ⟨fun hnone => absurd hend (hnone step), fun _ => ⟨?_, ?_, ?_⟩⟩
      · rw [hlog]
        exact (withoutFailures_append hfailed).trans hprefix
      · rw [← operations_filter_suspends,
          ← operations_filter_suspends (asked respond (runTree tree high c) s)]
        exact hrequests.filter _
      · rw [← calls_filter_suspends,
          ← calls_filter_suspends (asked respond (runTree tree high c) s)]
        exact hrequests.filterMap _
  · obtain ⟨word, opens, hlog, hnests, _⟩ := (nested_runTree tree limit c).run respond s
    refine ⟨word, hlog, ?_⟩
    rintro before e after rfl he
    exact hnests.roomy he

/-- The notification inside the condition inside the loop is too deep for a limit of one. -/
theorem limit_of_loopSteps :
    let lower := runTree (.ofSteps loopSteps) 1 ⟨.null, [], []⟩
    let higher := runTree (.ofSteps loopSteps) 5 ⟨.null, [], []⟩
    (∃ step, (Program.run (I := surroundings) Simulation.respond lower idle).1.1 =
      .error (.tooDeep 1 step)) ∧
    ((withoutFailures (finalLog Simulation.respond lower idle)).map fun e => (e.step, e.mark)) =
      [("loop", .started), ("check", .started)] ∧
    withoutFailures (finalLog Simulation.respond lower idle) <+:
      finalLog Simulation.respond higher idle := by
  have htree : StepTree.ofSteps loopSteps = ⟨loopSteps⟩ :=
    StepTree.ofSteps_of_inOrder (by decide)
  intro lower higher
  have hend : (Program.run (I := surroundings) Simulation.respond lower idle).1.1 =
      .error (.tooDeep 1 "tell") := by
    have hfault : (match (Program.run (I := surroundings) Simulation.respond
        (runTree ⟨loopSteps⟩ 1 ⟨.null, [], []⟩) idle).1.1 with
          | .error (.tooDeep 1 "tell") => true
          | _ => false) = true := by
      decide +kernel
    unfold lower
    rw [htree]
    split at hfault
    · assumption
    · cases hfault
  have hlog : ((withoutFailures (finalLog Simulation.respond lower idle)).map
      fun e => (e.step, e.mark)) = [("loop", .started), ("check", .started)] := by
    unfold lower
    rw [htree]
    decide +kernel
  have hlimit := (limit_only_rejects Simulation.respond (.ofSteps loopSteps) ⟨.null, [], []⟩
    idle).1 1 5 (by decide)
  exact ⟨⟨"tell", hend⟩, hlog, (hlimit.2 ⟨"tell", hend⟩).1⟩

end Stepwise.Run
