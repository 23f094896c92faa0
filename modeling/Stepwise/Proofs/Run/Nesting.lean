import Stepwise.Proofs.Run.CutShort
import Stepwise.Proofs.Run.LogGrammar

/-!
# How deep steps stand

A step begins inside the steps that are open then. These are conditions and loops, since no other
step runs steps of its own, and there are no more of them than the limit of nesting allows. The
successors of a step begin where it began, so a chain, however long, leads no deeper.
-/

namespace Stepwise.Run

open Stage

/-- The frame of a condition or a loop. -/
def Frame.IsContainer (frame : Frame) : Prop :=
  ∃ kind, StepKind.ofName? frame.2 = some kind ∧ kind.isContainer = true

/-- The steps that may be open where another one begins. -/
structure Roomy (limit : Int) (opens : List Frame) : Prop where
  length_le : (opens.length : Int) ≤ limit
  containers : ∀ frame ∈ opens, frame.IsContainer

section

variable (limit : Int)

/-- The entries begin steps only where there is room for them and close the innermost open step;
they lead from some open steps to others. -/
inductive Nests : List Frame → List Entry → List Frame → Prop
  | nil {opens : List Frame} : Nests opens [] opens
  | start {e : Entry} {opens opens' : List Frame} {rest : List Entry} (he : e.mark = .started)
      (hr : Roomy limit opens) (h : Nests (e.frame :: opens) rest opens') :
      Nests opens (e :: rest) opens'
  | close {e : Entry} {opens opens' : List Frame} {rest : List Entry} (he : e.mark ≠ .started)
      (h : Nests opens rest opens') : Nests (e.frame :: opens) (e :: rest) opens'

end

variable {limit : Int} {α β : Type} {opens : List Frame}

theorem Nests.append {opens' opens'' : List Frame} {word word' : List Entry}
    (h : Nests limit opens word opens') (h' : Nests limit opens' word' opens'') :
    Nests limit opens (word ++ word') opens'' := by
  induction h with
  | nil => exact h'
  | start he hr h ih => exact .start he hr (ih h')
  | close he h ih => exact .close he (ih h')

/-- Wherever a step begins, there is room for it. -/
theorem Nests.roomy {opens' : List Frame} {before after : List Entry} {e : Entry}
    (h : Nests limit opens (before ++ e :: after) opens') (he : e.mark = .started) :
    Roomy limit (opensAfter opens (before.map .entry)) := by
  induction before generalizing opens with
  | nil =>
    cases h with
    | start _ hr _ => exact hr
    | close hne _ => exact absurd he hne
  | cons first before ih =>
    rw [List.map_cons, opensAfter]
    cases h with
    | start hfirst _ h =>
      rw [if_pos hfirst]
      exact ih h
    | close hfirst h =>
      rw [if_neg hfirst]
      exact ih h

namespace Stage

/-- However it is answered, a stage that begins inside the given open steps makes entries that nest,
and leaves the same steps open, unless it is cut off. -/
def Nested (limit : Int) (opens : List Frame) (stage : Stage α) : Prop :=
  ∀ c, (stage c).Ends fun out => ∃ word opens', out.2.log = c.log ++ word ∧
    Nests limit opens word opens' ∧ (Uncancelled out.1 → opens' = opens)

theorem Quiet.nested {stage : Stage α} (h : Quiet stage) : Nested limit opens stage := fun c =>
  (h c).mono fun _ hout => ⟨[], opens, hout.1.trans (List.append_nil _).symm, .nil, fun _ => rfl⟩

theorem Nested.andThen {stage : Stage α} {f : α → Stage β} (hs : Nested limit opens stage)
    (hf : ∀ a, Nested limit opens (f a)) : Nested limit opens (stage.andThen f) := by
  intro c
  refine (Program.ends_bind _ _).mpr ((hs c).mono ?_)
  rintro ⟨fault | a, c₁⟩ ⟨word, opens₁, hlog, hnests, hopens⟩
  · exact ⟨word, opens₁, hlog, hnests, fun hu => hopens (by simpa using hu)⟩
  · obtain rfl := hopens (uncancelled_ok a)
    refine (hf a c₁).mono ?_
    rintro out ⟨word', opens', hlog', hnests', hopens'⟩
    refine ⟨word ++ word', opens', ?_, hnests.append hnests', hopens'⟩
    rw [hlog', hlog, List.append_assoc]

theorem nested_forEach {f : α → Stage Unit} (hf : ∀ a, Nested limit opens (f a))
    (items : List α) : Nested limit opens (forEach f items) := by
  induction items with
  | nil => exact (quiet_result ()).nested
  | cons a rest ih => exact (hf a).andThen fun _ => ih

end Stage

variable {tree : StepTree} {inner : Runner} {step : Step}

theorem nested_runCondition (hi : ∀ child, Nested limit opens (inner child)) (step : Step) :
    Nested limit opens (runCondition tree inner step) := by
  intro c
  rw [runCondition_eq]
  cases conditionOutcome step c.root with
  | error fault => exact (quiet_fail fault).nested c
  | ok outcome => exact nested_forEach hi _ { c with vars := _ }

theorem nested_runLoop (hi : ∀ child, Nested limit opens (inner child)) (step : Step) :
    Nested limit opens (runLoop tree inner step) := by
  intro c
  have hround (item : Value) : Nested limit opens (runRound tree inner step item) :=
    (quiet_assign _ item).nested.andThen fun _ => nested_forEach hi _
  rw [runLoop_eq]
  split
  · split_ifs
    · exact nested_forEach hround _ c
    · exact (quiet_fail _).nested c
  · exact (quiet_fail _).nested c
  · exact (quiet_fail _).nested c

/-- Only a condition or a loop runs steps of its own. -/
theorem nested_runBody
    (hi : Frame.IsContainer (step.name, step.type) → ∀ child, Nested limit opens (inner child)) :
    Nested limit opens (runBody tree inner step) := by
  unfold runBody
  split
  · exact (quiet_runAction step).nested
  · rename_i hk
    exact nested_runCondition (hi ⟨_, hk, rfl⟩) step
  · rename_i hk
    exact nested_runLoop (hi ⟨_, hk, rfl⟩) step
  · exact (quiet_runDelay step).nested
  · exact (quiet_runWebhook step).nested
  · exact (quiet_runNotification step).nested
  · exact (quiet_fail _).nested

/-- A step begins inside the open steps, and is itself open for the steps inside it. -/
theorem nested_runStep (hr : Roomy limit opens)
    (hi : Frame.IsContainer (step.name, step.type) →
      ∀ child, Nested limit ((step.name, step.type) :: opens) (inner child)) :
    Nested limit opens (runStep tree inner step) := by
  intro c
  rw [runStep_eq, Program.ends_ask]
  rintro (_ | _)
  · rw [if_neg Bool.false_ne_true, Program.ends_ask]
    intro time
    have hbody : (runBody tree inner step (c.logged (stepEntry step time .started none))).Ends _ :=
      nested_runBody hi _
    refine (Program.ends_bind _ _).mpr (hbody.mono ?_)
    rintro ⟨r, c₁⟩ ⟨word, opens₁, hlog, hnests, hopens⟩
    have hword : c₁.log = c.log ++ stepEntry step time .started none :: word := by
      rw [hlog]
      simp [Context.logged]
    by_cases hu : Uncancelled r
    · have hend (mark : Mark) (hm : mark ≠ .started) (error : Option String) (time' : Instant) :
          Nests limit opens (stepEntry step time .started none :: word ++
            [stepEntry step time' mark error]) opens := by
        refine .start rfl hr (hnests.append ?_)
        rw [hopens hu]
        exact .close (e := stepEntry step time' mark error) hm .nil
      obtain fault | ⟨⟩ := r
      · rw [finish_fault step (by simpa using hu), Program.ends_ask]
        intro time'
        refine ⟨_, opens, ?_, hend .failed (by decide) (some fault.recorded) time', fun _ => rfl⟩
        simp [Context.logged, hword]
      · rw [finish, Program.ends_ask]
        intro time'
        refine ⟨_, opens, ?_, hend .completed (by decide) none time', fun _ => rfl⟩
        simp [Context.logged, hword]
    · obtain rfl : r = .error .cancelled := not_not.mp hu
      exact ⟨_, opens₁, hword, .start rfl hr hnests, fun hu' => absurd hu' hu⟩
  · exact ⟨[], opens, (List.append_nil _).symm, .nil, fun _ => rfl⟩

theorem nested_runChain (hr : Roomy limit opens)
    (hi : ∀ frame, Frame.IsContainer frame →
      ∀ child, Nested limit (frame :: opens) (inner child)) (step : Step) :
    Nested limit opens (runChain tree inner step) := by
  refine (nested_forEach (fun link => nested_runStep hr (hi _)) _).andThen fun _ => ?_
  split
  · exact (quiet_fail _).nested
  · exact (quiet_result ()).nested

/-- By induction on the levels that are left: with the steps that are open they do not exceed the
limit, so there is room as long as one is left. -/
theorem nested_runNested {levels : Nat} (hc : ∀ frame ∈ opens, frame.IsContainer)
    (hl : 0 < levels → (opens.length : Int) + levels ≤ limit + 1) (step : Step) :
    Nested limit opens (runNested tree limit levels step) := by
  induction levels generalizing opens step with
  | zero => exact (quiet_fail _).nested
  | succ levels ih =>
    have hle := hl (Nat.succ_pos levels)
    refine nested_runChain ⟨by omega, hc⟩ (fun frame hframe child => ?_) step
    refine ih (List.forall_mem_cons.mpr ⟨hframe, hc⟩) (fun _ => ?_) child
    rw [List.length_cons]
    omega

theorem nested_runTree (tree : StepTree) (limit : Int) : Nested limit [] (runTree tree limit) := by
  refine nested_forEach (fun step => nested_runNested (List.forall_mem_nil _) ?_ step) tree.roots
  unfold levelsLeft
  simp only [List.length_nil]
  omega

end Stepwise.Run
