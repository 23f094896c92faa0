import Stepwise.Proofs.Run.Breaks
import Stepwise.Proofs.Run.CutShort
import Stepwise.Proofs.Run.Leaves

/-!
# What a step leaves behind

A step that fails of itself leaves the context as it was, apart from its entries in the log, and its
surroundings have done nothing for it. A condition or a loop may also fail over one of its children,
when what was done before stays done. A step without children that is completed has set one variable
at most, and made one request.
-/

namespace Stepwise.Run

open Stage

variable {α σ : Type}

section

variable (respond : σ → (r : Request) → r.Answer × σ)

/-- A step that begins what it is for at a moment fails with a fault of one of its children, which
may be nested too deep: a condition in the children that belong to its outcome, a loop in a round of
all its children. -/
inductive FailsOverChild (tree : StepTree) (inner : Runner) (step : Step) (m : Moment σ)
    (fault : Fault) : Prop
  | branch {outcome : Bool} {m' : Moment σ}
      (hk : StepKind.ofName? step.type = some .condition)
      (ho : conditionOutcome step m.context.root = .ok outcome)
      (hc : Breaks respond (forEach inner (branchSteps tree step outcome))
        (m.assign (outcomeKey step) (.bool outcome)) fault m')
  | round {before after : List Value} {item : Value} {key : Key} {m₁ m' : Moment σ}
      (hk : StepKind.ofName? step.type = some .loop)
      (hi : Template.resolve m.context.root (step.config.field "items") =
        .ok (.list (before ++ item :: after)))
      (hn : (step.config.field "variableName").toKey? = some key)
      (hb : Yields respond (forEach (runRound tree inner step) before) m () m₁)
      (hc : Breaks respond (forEach inner (tree.childrenOf step.id)) (m₁.assign key item) fault m')

/-- From one state of the surroundings to another nothing is done: nothing is requested, or what is
requested is not done. -/
def Undone (s s' : σ) : Prop :=
  s' = s ∨ ∃ r : Request, ¬ r.Done (respond s r).1 ∧ s' = (respond s r).2

end

variable {respond : σ → (r : Request) → r.Answer × σ} {tree : StepTree} {inner : Runner}
  {step : Step} {m m' : Moment σ} {fault : Fault}

/-! ## Steps without children -/

section

variable {key? : Option Key} {stage : Stage Unit}

/-- A single request that fails was not done, and the context is as before. -/
theorem Stage.IsSingle.breaks (h : IsSingle key? stage) (hb : Breaks respond stage m fault m') :
    m'.context = m.context ∧ Undone respond m.state m'.state := by
  have hfailed {out : Except Fault Unit × Context} (hs : Settled key? m.context out)
      (hout : out.1 = .error fault) : out.2 = m.context := by
    cases hs with
    | failed f => rfl
    | kept => cases hout
    | assigned hkey value => cases hout
  unfold Breaks at hb
  generalize hp : stage m.context = program at hb
  have hsingle := h m.context
  rw [hp] at hsingle
  cases hsingle with
  | done hs =>
    obtain ⟨hout, hstate⟩ := Prod.mk.inj hb
    refine ⟨?_, .inl hstate.symm⟩
    rw [← hfailed hs (congrArg Prod.fst hout)]
    exact (congrArg Prod.snd hout).symm
  | @asked r settle hs hd =>
    obtain ⟨hout, hstate⟩ := Prod.mk.inj hb
    have herror : (settle (respond m.state r).1).1 = .error fault := congrArg Prod.fst hout
    refine ⟨?_, .inr ⟨r, fun hdone => ?_, hstate.symm⟩⟩
    · rw [← hfailed (hs _) herror]
      exact (congrArg Prod.snd hout).symm
    · rw [hd _ hdone] at herror
      cases herror

/-- A single request that succeeds leaves the context with one variable set at most. -/
theorem Stage.IsSingle.yields (h : IsSingle key? stage) (hy : Yields respond stage m () m') :
    m'.context = m.context ∨ ∃ key value, key? = some key ∧
      m'.context = m.context.assign key value := by
  have hsettled {out : Except Fault Unit × Context} (hs : Settled key? m.context out)
      (hout : out.1 = .ok ()) : out.2 = m.context ∨
        ∃ key value, key? = some key ∧ out.2 = m.context.assign key value := by
    cases hs with
    | failed f => cases hout
    | kept => exact .inl rfl
    | assigned hkey value => exact .inr ⟨_, value, hkey, rfl⟩
  unfold Yields at hy
  generalize hp : stage m.context = program at hy
  have hsingle := h m.context
  rw [hp] at hsingle
  have hcontext : m'.context =
      (Program.run (I := surroundings) respond program m.state).1.2 := by rw [hy]
  have hok : (Program.run (I := surroundings) respond program m.state).1.1 = .ok () := by rw [hy]
  rw [hcontext]
  cases hsingle with
  | done hs => exact hsettled hs hok
  | asked hs _ => exact hsettled (hs _) hok

end

/-! ## Conditions and loops -/

/-- The rounds of a loop break off before the first one, for a name that cannot be one, or in the
children of a round. -/
theorem cases_of_breaks_rounds {items : List Value}
    (h : Breaks respond (forEach (runRound tree inner step) items) m fault m') :
    ((step.config.field "variableName").toKey? = none ∧ m' = m) ∨
    ∃ before item after key m₁, items = before ++ item :: after ∧
      (step.config.field "variableName").toKey? = some key ∧
      Yields respond (forEach (runRound tree inner step) before) m () m₁ ∧
      Breaks respond (forEach inner (tree.childrenOf step.id)) (m₁.assign key item) fault m' := by
  obtain ⟨before, item, after, m₁, rfl, hbefore, hround⟩ := breaks_forEach.mp h
  obtain hassign | ⟨⟨⟩, m₂, hassign, hchildren⟩ := breaks_andThen.mp hround
  · obtain ⟨hnone, -, rfl⟩ := breaks_assign.mp hassign
    refine .inl ⟨hnone, ?_⟩
    -- The rounds before would have failed over the same name.
    cases before with
    | nil => exact (yields_forEach_nil.mp hbefore).symm
    | cons earlier before =>
      obtain ⟨_, hearlier, -⟩ := yields_forEach_cons.mp hbefore
      obtain ⟨⟨⟩, _, hnamed, -⟩ := yields_andThen.mp hearlier
      obtain ⟨key, hkey, -⟩ := yields_assign.mp hnamed
      cases hkey.symm.trans hnone
  · obtain ⟨key, hkey, rfl⟩ := yields_assign.mp hassign
    exact .inr ⟨before, item, after, key, m₁, rfl, hkey, hbefore, hchildren⟩

/-- What only computes leaves the moment as it is. -/
theorem eq_of_done {stage : Stage α} {r r' : Except Fault α}
    (h : stage m.context = .done (r, m.context))
    (hrun : Program.run (I := surroundings) respond (stage m.context) m.state =
      ((r', m'.context), m'.state)) : m' = m := by
  rw [h] at hrun
  obtain ⟨hout, hstate⟩ := Prod.mk.inj hrun
  have hcontext : m.context = m'.context := congrArg Prod.snd hout
  cases m
  cases m'
  rw [Moment.mk.injEq]
  exact ⟨hcontext.symm, hstate.symm⟩

theorem cases_of_breaks_condition (hk : StepKind.ofName? step.type = some .condition)
    (h : Breaks respond (runCondition tree inner step) m fault m') :
    FailsOverChild respond tree inner step m fault ∨ m' = m := by
  have heq := runCondition_eq tree inner step m.context
  cases ho : conditionOutcome step m.context.root with
  | ok outcome =>
    rw [ho] at heq
    unfold Breaks at h
    rw [heq] at h
    exact .inl (.branch hk ho (show Breaks respond _ _ fault m' from h))
  | error f =>
    rw [ho] at heq
    exact .inr (eq_of_done heq h)

theorem cases_of_breaks_loop (hk : StepKind.ofName? step.type = some .loop)
    (h : Breaks respond (runLoop tree inner step) m fault m') :
    FailsOverChild respond tree inner step m fault ∨ m' = m := by
  have heq := runLoop_eq tree inner step m.context
  split at heq
  · rename_i items hitems
    split_ifs at heq
    · have hrounds : Breaks respond (forEach (runRound tree inner step) items) m fault m' := by
        unfold Breaks at h ⊢
        rwa [heq] at h
      obtain ⟨-, hsame⟩ | ⟨before, item, after, key, m₁, rfl, hkey, hbefore, hchildren⟩ :=
        cases_of_breaks_rounds hrounds
      · exact .inr hsame
      · exact .inl (.round hk hitems hkey hbefore hchildren)
    · exact .inr (eq_of_done heq h)
  · exact .inr (eq_of_done heq h)
  · exact .inr (eq_of_done heq h)

/-- What a step is for fails over a child, or leaves everything as it was. -/
theorem cases_of_breaks_body (h : Breaks respond (runBody tree inner step) m fault m') :
    FailsOverChild respond tree inner step m fault ∨
      m'.context = m.context ∧ Undone respond m.state m'.state := by
  have hsame (heq : m' = m) : m'.context = m.context ∧ Undone respond m.state m'.state :=
    ⟨congrArg Moment.context heq, .inl (congrArg Moment.state heq)⟩
  obtain ⟨stage, hl, heq⟩ | ⟨hk, heq⟩ | ⟨hk, heq⟩ | ⟨-, heq⟩ := runBody_cases tree inner step
  · rw [heq] at h
    exact .inr ((single_leafStage? hl).breaks h)
  · rw [heq] at h
    exact (cases_of_breaks_condition hk h).imp_right hsame
  · rw [heq] at h
    exact (cases_of_breaks_loop hk h).imp_right hsame
  · rw [heq] at h
    exact .inr (hsame (breaks_fail.mp h).2.symm)

/-- A step that fails of itself leaves two entries in the log, and everything else as it was. -/
theorem cases_of_failed (hf : fault ≠ .cancelled)
    (h : Breaks respond (runStep tree inner step) m fault m') :
    FailsOverChild respond tree inner step (begun respond step m) fault ∨
      ∃ m₁ : Moment σ, m₁.context = (begun respond step m).context ∧
        Undone respond (begun respond step m).state m₁.state ∧
        m' = ⟨m₁.context.logged (failedEntry respond fault step m₁),
          (respond m₁.state .now).2⟩ := by
  obtain ⟨-, hcancelled, -⟩ | ⟨-, m₁, hbody, rfl⟩ := breaks_runStep.mp h
  · exact absurd hcancelled hf
  · refine (cases_of_breaks_body hbody).imp_right fun ⟨hcontext, hundone⟩ => ?_
    exact ⟨m₁, hcontext, hundone, abandoned_fault hf step m₁⟩

/-! ## Completed steps -/

end Stepwise.Run
