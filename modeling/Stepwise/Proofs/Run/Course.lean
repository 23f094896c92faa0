import Stepwise.Proofs.Run.Discipline

/-!
# The course of a run

A run is a course of moves. It looks for a cancellation; if there is none it begins a step, which
may have one effect or one wait; then it closes the step, or looks again for the steps inside it or
after it. Each reading of the clock is for one entry of the log: the first entry of a step after a
look, and the last entry of the innermost open step otherwise. A run that has found a cancellation
makes no move any more. Unlike the discipline of a run, the course tells of the log too.
-/

namespace Stepwise.Run

/-- How a run stands between two requests. -/
inductive Stand
  /-- Between its steps. -/
  | between
  /-- Before a step, after a look that has found no cancellation. -/
  | looked
  /-- In a step that has begun and had no effect yet. -/
  | begun
  /-- Past its end, since it has found a cancellation. -/
  | told
  deriving DecidableEq

/-- Where the run may look for a cancellation, close a step, or end. -/
def Stand.IsCalm (s : Stand) : Prop := s = .between ∨ s = .begun

/-- What an entry tells of its step. -/
abbrev Frame := String × String

/-- The name and the kind that an entry gives. -/
def Entry.frame (e : Entry) : Frame := (e.step, e.type)

/-- A place in the course of a run: how it stands, which steps are open, the innermost first, and
its log. -/
structure Place where
  stand : Stand
  opens : List Frame
  log : List Entry

/-- The place after the first entry of a step. -/
def Place.opened (p : Place) (e : Entry) : Place := ⟨.begun, e.frame :: p.opens, p.log ++ [e]⟩

/-- A move of a run: from a place, by a request and its answer, to a place. -/
inductive Move (p : Place) : (r : Request) → r.Answer → Place → Prop
  | look {told : Bool} (hs : p.stand.IsCalm) :
      Move p .cancelled told { p with stand := if told then .told else .looked }
  | first {time : Instant} {e : Entry} (hs : p.stand = .looked) (he : e.mark = .started) :
      Move p .now time (p.opened e)
  | last {time : Instant} {e : Entry} {opens : List Frame} (hs : p.stand.IsCalm)
      (ho : p.opens = e.frame :: opens) (he : e.mark ≠ .started) :
      Move p .now time ⟨.between, opens, p.log ++ [e]⟩
  | wait {micros : Option Nat} {broken : Bool} (hs : p.stand = .begun) :
      Move p (.wait micros) broken { p with stand := if broken then .told else .between }
  | effect {r : Request} {answer : r.Answer} (hs : p.stand = .begun) (hr : r.isEffect = true) :
      Move p r answer { p with stand := .between }

namespace Move

variable {p p' : Place}

theorem of_look {told : Bool} (h : Move p .cancelled told p') :
    p.stand.IsCalm ∧ p' = { p with stand := if told then .told else .looked } := by
  cases h with
  | look hs => exact ⟨hs, rfl⟩
  | effect hs hr => cases hr

theorem of_wait {micros : Option Nat} {broken : Bool} (h : Move p (.wait micros) broken p') :
    p.stand = .begun ∧ p' = { p with stand := if broken then .told else .between } := by
  cases h with
  | wait hs => exact ⟨hs, rfl⟩
  | effect hs hr => cases hr

theorem of_effect {r : Request} (hr : r.isEffect = true) {answer : r.Answer}
    (h : Move p r answer p') : p.stand = .begun ∧ p' = { p with stand := .between } := by
  cases h with
  | look hs => cases hr
  | first hs he => cases hr
  | last hs ho he => cases hr
  | wait hs => cases hr
  | effect hs hr => exact ⟨hs, rfl⟩

/-- The entry for which the clock is read begins a step or closes the innermost one. -/
theorem of_now {time : Instant} (h : Move p .now time p') :
    ∃ e, p'.log = p.log ++ [e] ∧
      (p.stand = .looked ∧ e.mark = .started ∧ p'.opens = e.frame :: p.opens ∨
        p.stand.IsCalm ∧ e.mark ≠ .started ∧ p.opens = e.frame :: p'.opens ∧
          p'.stand = .between) := by
  cases h with
  | first hs he => exact ⟨_, rfl, .inl ⟨hs, he, rfl⟩⟩
  | last hs ho he => exact ⟨_, rfl, .inr ⟨hs, he, ho, rfl⟩⟩
  | effect hs hr => cases hr

theorem log_prefix {r : Request} {answer : r.Answer} (h : Move p r answer p') :
    p.log <+: p'.log := by
  cases h with
  | look hs => exact List.prefix_rfl
  | first hs he => exact List.prefix_append _ _
  | last hs ho he => exact List.prefix_append _ _
  | wait hs => exact List.prefix_rfl
  | effect hs hr => exact List.prefix_rfl

/-- No move leads on from where a cancellation was found. -/
theorem stand_ne_told {r : Request} {answer : r.Answer} (h : Move p r answer p') :
    p.stand ≠ .told := by
  intro ht
  have hcalm : ¬ p.stand.IsCalm := by simp [Stand.IsCalm, ht]
  cases h with
  | look hs => exact hcalm hs
  | first hs he => simp [ht] at hs
  | last hs ho he => exact hcalm hs
  | wait hs => simp [ht] at hs
  | effect hs hr => simp [ht] at hs

end Move

section

variable {α β : Type}

/-- From a place on, however it is answered, a program goes by moves and ends as `post` says, with
the log of its last place. -/
def Course (post : Place → Except Fault α → Prop) :
    Program surroundings (Except Fault α × Context) → Place → Prop
  | .done (r, c), p => c.log = p.log ∧ post p r
  | .ask r next, p => ∀ answer, ∃ p', Move p r answer p' ∧ (Course post) (next answer) p'

theorem Course.bind {post : Place → Except Fault α → Prop} {post' : Place → Except Fault β → Prop}
    {program : Program surroundings (Except Fault α × Context)}
    {f : Except Fault α × Context → Program surroundings (Except Fault β × Context)} {p : Place}
    (h : Course post program p)
    (hf : ∀ p r c, c.log = p.log → post p r → Course post' (f (r, c)) p) :
    Course post' (program.bind f) p := by
  induction program generalizing p with
  | done out => exact hf p out.1 out.2 h.1 h.2
  | ask r next ih =>
    intro answer
    obtain ⟨p', hmove, hrest⟩ := h answer
    exact ⟨p', hmove, ih answer hrest⟩

end

namespace Stage

variable {α β : Type}

/-- How a stage ends that began with the given steps open: it leaves the same steps open, unless it
is cut off. -/
def Returns (opens : List Frame) (p : Place) (r : Except Fault α) : Prop :=
  r ≠ .error .cancelled → p.stand.IsCalm ∧ p.opens = opens

/-- From every place that stands as `may` says, the stage goes by moves and returns. -/
def Orderly (may : Stand → Prop) (stage : Stage α) : Prop :=
  ∀ c p, may p.stand → c.log = p.log → Course (Returns p.opens) (stage c) p

/-- In a step that has begun. -/
abbrev InStep (s : Stand) : Prop := s = .begun

theorem Orderly.inStep {stage : Stage α} (h : Orderly Stand.IsCalm stage) :
    Orderly InStep stage := fun c p hs hlog => h c p (.inr hs) hlog

theorem orderly_result (a : α) : Orderly Stand.IsCalm (result a) :=
  fun _ _ hs hlog => ⟨hlog, fun _ => ⟨hs, rfl⟩⟩

theorem orderly_fail (fault : Fault) : Orderly Stand.IsCalm (fail fault : Stage α) :=
  fun _ _ hs hlog => ⟨hlog, fun _ => ⟨hs, rfl⟩⟩

theorem orderly_ofExcept (r : Except Fault α) : Orderly Stand.IsCalm (ofExcept r) :=
  fun _ _ hs hlog => ⟨hlog, fun _ => ⟨hs, rfl⟩⟩

theorem Silent.orderly {stage : Stage α} (h : Silent stage) : Orderly Stand.IsCalm stage := by
  intro c p hs hlog
  obtain ⟨r, c', hr, _, hlog', _⟩ := h c
  rw [hr]
  exact ⟨hlog'.trans hlog, fun _ => ⟨hs, rfl⟩⟩

/-- What asks nothing leaves it to the stage after it where to begin. -/
theorem Silent.andThen_orderly {may : Stand → Prop} {stage : Stage α} {f : α → Stage β}
    (hm : ∀ s, may s → s.IsCalm) (hs : Silent stage) (hf : ∀ a, Orderly may (f a)) :
    Orderly may (stage.andThen f) := by
  intro c p hp hlog
  obtain ⟨r, c', hr, hu, hlog', _⟩ := hs c
  unfold Stage.andThen
  rw [hr]
  cases r with
  | ok a => exact hf a c' p hp (hlog'.trans hlog)
  | error fault => exact ⟨hlog'.trans hlog, fun _ => ⟨hm _ hp, rfl⟩⟩

theorem Orderly.andThen {may : Stand → Prop} {stage : Stage α} {f : α → Stage β}
    (hs : Orderly may stage) (hf : ∀ a, Orderly Stand.IsCalm (f a)) :
    Orderly may (stage.andThen f) := by
  intro c p hp hlog
  refine (hs c p hp hlog).bind ?_
  rintro p' (fault | a) c' hlog' hreturns
  · refine ⟨hlog', fun hc => hreturns fun he => hc ?_⟩
    rw [Except.error.inj he]
  · obtain ⟨hcalm, hopens⟩ := hreturns nofun
    rw [← hopens]
    exact hf a c' p' hcalm hlog'

/-- An effect of a step, and what is done with the answer. -/
theorem orderly_ask_andThen {r : Request} (hr : r.isEffect = true) {f : r.Answer → Stage β}
    (hf : ∀ answer, Orderly Stand.IsCalm (f answer)) : Orderly InStep ((ask r).andThen f) := by
  intro c p hs hlog answer
  exact ⟨_, .effect hs hr, hf answer c { p with stand := .between } (.inl rfl) hlog⟩

theorem orderly_forEach {f : α → Stage Unit} (hf : ∀ a, Orderly Stand.IsCalm (f a))
    (items : List α) : Orderly Stand.IsCalm (forEach f items) := by
  induction items with
  | nil => exact orderly_result ()
  | cons a rest ih => exact (hf a).andThen fun _ => ih

end Stage

/-! ## The kinds of steps -/

open Stage

theorem orderly_runAction (step : Step) : Orderly InStep (runAction step) := by
  have hm (s : Stand) (hs : InStep s) : s.IsCalm := .inr hs
  unfold runAction
  dsimp only
  split
  · refine (silent_taskFields step).andThen_orderly hm fun fields =>
      orderly_ask_andThen rfl fun r => ?_
    exact (orderly_ofExcept r).andThen fun _ => (silent_assign _ _).orderly
  · refine (silent_taskChanges step).andThen_orderly hm fun changes =>
      orderly_ask_andThen rfl fun r => ?_
    exact (orderly_ofExcept r).andThen fun _ => (silent_assign _ _).orderly
  · exact orderly_ask_andThen rfl orderly_ofExcept
  · split_ifs
    · exact ((silent_filled step "value").andThen fun _ => silent_assign _ _).orderly.inStep
    · exact (orderly_fail _).inStep
  · exact (orderly_fail _).inStep

/-- A wait is a move of its own, since a cancellation may break it off. -/
theorem orderly_runDelay (step : Step) : Orderly InStep (runDelay step) := by
  refine (silent_ofExcept (uncancelled_durationOf _)).andThen_orderly (fun _ => .inr)
    fun duration c p hs hlog (broken : Bool) => ?_
  refine ⟨_, .wait hs, ?_⟩
  cases broken with
  | false => exact ⟨hlog, fun _ => ⟨.inl rfl, rfl⟩⟩
  | true => exact ⟨hlog, fun hc => absurd rfl hc⟩

theorem orderly_runWebhook (step : Step) : Orderly InStep (runWebhook step) := by
  have hm (s : Stand) (hs : InStep s) : s.IsCalm := .inr hs
  rw [runWebhook_eq]
  split_ifs
  · refine (silent_callBody step).andThen_orderly hm fun body => ?_
    refine (silent_ofExcept (Outbound.uncancelled_build _ _ _ _)).andThen_orderly hm fun call => ?_
    refine orderly_ask_andThen rfl fun outcome => ?_
    exact (orderly_ofExcept _).andThen fun _ => (silent_assign _ _).orderly
  · exact (orderly_fail _).inStep

theorem orderly_runNotification (step : Step) : Orderly InStep (runNotification step) :=
  (silent_filled step "title").andThen_orderly (fun _ => .inr) fun _ =>
    (silent_filled step "message").andThen_orderly (fun _ => .inr) fun _ =>
      orderly_ask_andThen rfl orderly_ofExcept

theorem orderly_runCondition (tree : StepTree) {inner : Runner}
    (hi : ∀ step, Orderly Stand.IsCalm (inner step)) (step : Step) :
    Orderly Stand.IsCalm (runCondition tree inner step) :=
  (silent_filled step "left").orderly.andThen fun _ =>
    (silent_filled step "right").orderly.andThen fun _ =>
      (orderly_ofExcept _).andThen fun _ =>
        (silent_assign _ _).orderly.andThen fun _ => orderly_forEach hi _

theorem orderly_runLoop (tree : StepTree) {inner : Runner}
    (hi : ∀ step, Orderly Stand.IsCalm (inner step)) (step : Step) :
    Orderly Stand.IsCalm (runLoop tree inner step) := by
  have hitems : Orderly Stand.IsCalm
      (fromRoot fun root => Template.resolve root (step.config.field "items")) :=
    (silent_fromRoot fun root => Template.uncancelled_resolve root _).orderly
  refine hitems.andThen fun items => ?_
  split
  · dsimp only
    split_ifs
    · refine orderly_forEach (fun item => ?_) _
      exact (silent_assign _ item).orderly.andThen fun _ => orderly_forEach hi _
    · exact orderly_fail _
  · exact orderly_fail _

theorem orderly_runBody (tree : StepTree) {inner : Runner}
    (hi : ∀ step, Orderly Stand.IsCalm (inner step)) (step : Step) :
    Orderly InStep (runBody tree inner step) := by
  unfold runBody
  split
  · exact orderly_runAction step
  · exact (orderly_runCondition tree hi step).inStep
  · exact (orderly_runLoop tree hi step).inStep
  · exact orderly_runDelay step
  · exact orderly_runWebhook step
  · exact orderly_runNotification step
  · exact (orderly_fail _).inStep

/-! ## Steps, chains and trees -/

/-- The end of a step closes the step, unless it was cut off. -/
theorem course_finish (step : Step) {opens : List Frame} {p : Place} {r : Except Fault Unit}
    {c : Context} (hlog : c.log = p.log)
    (hr : Returns ((step.name, step.type) :: opens) p r) :
    Course (Returns opens) (finish step (r, c)) p := by
  obtain fault | ⟨⟩ := r
  · by_cases hf : fault = .cancelled
    · subst hf
      exact ⟨hlog, fun hc => absurd rfl hc⟩
    · obtain ⟨hcalm, hopens⟩ := hr fun he => hf (Except.error.inj he)
      rw [finish_fault step hf]
      intro time
      refine ⟨_, .last (e := stepEntry step time .failed (some fault.recorded)) hcalm hopens nofun,
        ?_, fun _ => ⟨.inl rfl, rfl⟩⟩
      exact congrArg (· ++ _) hlog
  · obtain ⟨hcalm, hopens⟩ := hr nofun
    intro time
    refine ⟨_, .last (e := stepEntry step time .completed none) hcalm hopens nofun, ?_,
      fun _ => ⟨.inl rfl, rfl⟩⟩
    exact congrArg (· ++ _) hlog

theorem orderly_runStep (tree : StepTree) {inner : Runner}
    (hi : ∀ step, Orderly Stand.IsCalm (inner step)) (step : Step) :
    Orderly Stand.IsCalm (runStep tree inner step) := by
  intro c p hs hlog
  rw [runStep_eq]
  intro told
  refine ⟨_, .look hs, ?_⟩
  cases told with
  | true => exact ⟨hlog, fun hc => absurd rfl hc⟩
  | false =>
    intro time
    refine ⟨_, .first (e := stepEntry step time .started none) rfl rfl, ?_⟩
    refine (orderly_runBody tree hi step _ _ rfl (congrArg (· ++ _) hlog)).bind ?_
    exact fun p' r c' hlog' hr => course_finish step hlog' hr

theorem orderly_runChain (tree : StepTree) {inner : Runner}
    (hi : ∀ step, Orderly Stand.IsCalm (inner step)) (step : Step) :
    Orderly Stand.IsCalm (runChain tree inner step) := by
  refine (orderly_forEach (fun step => orderly_runStep tree hi step) _).andThen fun _ => ?_
  split
  · exact orderly_fail _
  · exact orderly_result ()

/-- By induction on the levels that are left. -/
theorem orderly_runNested (tree : StepTree) (limit : Int) (levels : Nat) (step : Step) :
    Orderly Stand.IsCalm (runNested tree limit levels step) := by
  induction levels generalizing step with
  | zero => exact orderly_fail _
  | succ levels ih => exact orderly_runChain tree ih step

/-- A run goes by moves, whatever its tree is and however it is answered. -/
theorem course_runTree (tree : StepTree) (limit : Int) (c : Context) :
    Course (Returns []) (runTree tree limit c) ⟨.between, [], c.log⟩ :=
  orderly_forEach (f := runAt tree limit 0) (fun step => orderly_runNested tree limit _ step)
    tree.roots c ⟨.between, [], c.log⟩ (.inl rfl) rfl

end Stepwise.Run
