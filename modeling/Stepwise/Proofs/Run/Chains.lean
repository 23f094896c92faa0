import Stepwise.Proofs.Run.Termination

/-!
# What becomes of a chain

A step is followed by its successors. Where they lead is settled by the tree alone: to an end, or
back to a step met before. A run of the chain runs its steps one after another, each of them once,
as far as they are completed, and only then does it matter whether the chain comes back.
-/

namespace Stepwise

/-! ## The chain of a step -/

/-- A chain that is entered at `current` after steps of the ids in `seen`: each of its steps is
followed by its successor, no step is met twice, and if it does not end there, it comes back to a
step that was met. -/
structure Chain.GoesFrom (tree : StepTree) (seen : List String) (current : Option Step)
    (chain : Chain) : Prop where
  begins : chain.steps.head?.or chain.repeated = current
  links : ∀ before step after, chain.steps = before ++ step :: after →
    tree.nextOf step = after.head?.or chain.repeated
  apart : (chain.steps.map (·.id)).Nodup
  fresh : ∀ step ∈ chain.steps, step.id ∉ seen
  back : ∀ step ∈ chain.repeated, step.id ∈ seen ∨ step.id ∈ chain.steps.map (·.id)

namespace Chain

variable {tree : StepTree} {seen : List String} {current : Option Step} {step : Step}
  {steps : List Step} {repeated : Option Step}

theorem goesFrom_nil : GoesFrom tree seen current ⟨[], repeated⟩ ↔
    repeated = current ∧ ∀ step ∈ repeated, step.id ∈ seen := by
  constructor
  · exact fun h => ⟨h.begins, fun step hstep => (h.back step hstep).resolve_right List.not_mem_nil⟩
  · rintro ⟨rfl, hseen⟩
    exact ⟨rfl, by simp, List.nodup_nil, nofun, fun step hstep => .inl (hseen step hstep)⟩

theorem goesFrom_cons : GoesFrom tree seen current ⟨step :: steps, repeated⟩ ↔
    current = some step ∧ step.id ∉ seen ∧
      GoesFrom tree (step.id :: seen) (tree.nextOf step) ⟨steps, repeated⟩ := by
  constructor
  · intro h
    obtain ⟨hnew, hfresh⟩ := List.forall_mem_cons.mp h.fresh
    obtain ⟨hapart, hrest⟩ := List.nodup_cons.mp h.apart
    refine ⟨h.begins.symm, hnew, (h.links [] step steps rfl).symm, ?_, hrest, ?_, ?_⟩
    · exact fun before other after hsteps =>
        h.links (step :: before) other after (congrArg (step :: ·) hsteps)
    · intro other hother hmem
      obtain hid | hseen := List.mem_cons.mp hmem
      · exact hapart (List.mem_map.mpr ⟨other, hother, hid⟩)
      · exact hfresh other hother hseen
    · intro other hother
      simpa [or_assoc, or_comm, or_left_comm] using h.back other hother
  · rintro ⟨rfl, hnew, h⟩
    have hfresh (other : Step) (hother : other ∈ steps) : other.id ≠ step.id ∧ other.id ∉ seen := by
      simpa using h.fresh other hother
    refine ⟨rfl, fun before other after hsteps => ?_, List.nodup_cons.mpr ⟨?_, h.apart⟩,
      List.forall_mem_cons.mpr ⟨hnew, fun other hother => (hfresh other hother).2⟩, ?_⟩
    · cases before with
      | nil =>
        obtain ⟨rfl, rfl⟩ := List.cons.inj hsteps
        exact h.begins.symm
      | cons _ before => exact h.links before other after (List.cons.inj hsteps).2
    · intro hmem
      obtain ⟨other, hother, hid⟩ := List.mem_map.mp hmem
      exact (hfresh other hother).1 hid
    · intro other hother
      simpa [or_assoc, or_comm, or_left_comm] using h.back other hother

/-- Where a chain leads is settled: by induction on its steps. -/
theorem GoesFrom.unique {chain other : Chain} (h : GoesFrom tree seen current chain)
    (h' : GoesFrom tree seen current other) : chain = other := by
  obtain ⟨steps, repeated⟩ := chain
  obtain ⟨steps', repeated'⟩ := other
  induction steps generalizing seen current steps' with
  | nil =>
    obtain ⟨rfl, hseen⟩ := goesFrom_nil.mp h
    cases steps' with
    | nil => rw [(goesFrom_nil.mp h').1]
    | cons step rest =>
      obtain ⟨hstep, hnew, -⟩ := goesFrom_cons.mp h'
      exact absurd (hseen step hstep) hnew
  | cons step rest ih =>
    obtain ⟨rfl, hnew, hrest⟩ := goesFrom_cons.mp h
    cases steps' with
    | nil =>
      obtain ⟨rfl, hseen⟩ := goesFrom_nil.mp h'
      exact absurd (hseen step rfl) hnew
    | cons step' rest' =>
      obtain ⟨hstep, -, hrest'⟩ := goesFrom_cons.mp h'
      obtain rfl := Option.some.inj hstep
      obtain ⟨rfl, rfl⟩ := Chain.mk.inj (ih hrest rest' hrest')
      rfl

end Chain

namespace StepTree

open Run

variable {tree : StepTree}

/-- Following goes from step to step, if there is more fuel than steps that were not met yet: by
induction on the fuel. -/
theorem goesFrom_follow {fuel : Nat} {seen : List String} {current : Option Step}
    (hc : ∀ step ∈ current, step ∈ tree.steps) (hf : (unmet tree seen).length < fuel) :
    (tree.follow fuel seen current).GoesFrom tree seen current := by
  induction fuel generalizing seen current with
  | zero => omega
  | succ fuel ih =>
    cases current with
    | none => exact Chain.goesFrom_nil.mpr ⟨rfl, nofun⟩
    | some step =>
      unfold follow
      split_ifs with hseen
      · exact Chain.goesFrom_nil.mpr ⟨rfl, by simpa using hseen⟩
      · have hnew : step.id ∉ seen := by simpa using hseen
        have hless := length_unmet_cons (hc step rfl) hnew
        exact Chain.goesFrom_cons.mpr ⟨rfl, hnew, ih (fun next hnext => mem_of_nextOf hnext)
          (by omega)⟩

/-- The first step need not be of the tree. -/
theorem goesFrom_chain (tree : StepTree) (first : Step) :
    (tree.chain first).GoesFrom tree [] (some first) := by
  have hle : (unmet tree [first.id]).length ≤ tree.steps.length := List.length_filter_le _ _
  exact Chain.goesFrom_cons.mpr ⟨rfl, List.not_mem_nil, goesFrom_follow
    (fun next hnext => mem_of_nextOf hnext) (by omega)⟩

end StepTree

namespace Run

open Stage

variable {σ : Type} {respond : σ → (r : Request) → r.Answer × σ} {m m' : Moment σ}

/-! ## Running a chain -/

/-- How a chain ends whose steps are all completed. -/
def chainEnd : Option Step → Except Fault Unit
  | some step => .error (.cyclic step.name)
  | none => .ok ()

theorem ends_andThen {α β : Type} {stage : Stage α} {f : α → Stage β} {r : Except Fault β} :
    Ends respond (stage.andThen f) m r m' ↔
      (∃ fault, Breaks respond stage m fault m' ∧ r = .error fault) ∨
        ∃ a m₁, Yields respond stage m a m₁ ∧ Ends respond (f a) m₁ r m' := by
  cases r with
  | error fault =>
    refine breaks_andThen.trans (or_congr ?_ Iff.rfl)
    simp
  | ok b =>
    refine yields_andThen.trans ⟨.inr, ?_⟩
    rintro (⟨_, _, ⟨⟩⟩ | h)
    exact h

/-- What is left when all steps of a chain are completed. -/
theorem ends_runLinks {tree : StepTree} {inner : Runner} {chain : Chain} {r : Except Fault Unit} :
    Ends respond (runLinks tree inner chain) m r m' ↔
      (Yields respond (forEach (runStep tree inner) chain.steps) m () m' ∧
        r = chainEnd chain.repeated) ∨
      ∃ fault, Breaks respond (forEach (runStep tree inner) chain.steps) m fault m' ∧
        r = .error fault := by
  have hend (m₁ : Moment σ) : Ends respond (match chain.repeated with
      | some step => fail (.cyclic step.name)
      | none => result ()) m₁ (chainEnd chain.repeated) m₁ := by
    cases chain.repeated with
    | none => rfl
    | some step => rfl
  rw [runLinks, ends_andThen, or_comm]
  refine or_congr ⟨?_, ?_⟩ Iff.rfl
  · rintro ⟨⟨⟩, m₁, hsteps, hrest⟩
    obtain ⟨rfl, rfl⟩ := hrest.unique (hend m₁)
    exact ⟨hsteps, rfl⟩
  · rintro ⟨hsteps, rfl⟩
    exact ⟨(), m', hsteps, hend m'⟩

theorem runAt_of_le {tree : StepTree} {limit depth : Int} (hd : depth ≤ limit) (first : Step) :
    runAt tree limit depth first =
      runLinks tree (runAt tree limit (depth + 1)) (tree.chain first) := by
  have hlevels : levelsLeft limit depth = levelsLeft limit (depth + 1) + 1 := by
    unfold levelsLeft
    omega
  unfold runAt
  rw [hlevels]
  rfl

/-- A chain runs each of its steps once or is rejected: within the limit of nesting, a step has one
chain, and a run of it ends in one of two ways. Either all steps of the chain have been run one
after another, on the level of the first, and were completed; then it succeeds if the chain ends,
and is rejected if the chain comes back. Or the steps before some step have been run and were
completed, that step fails, and the fault is its own. -/
theorem chain_runs_each_step_once (respond : σ → (r : Request) → r.Answer × σ) (tree : StepTree)
    {limit depth : Int} (hd : depth ≤ limit) (first : Step) :
    ∃ chain : Chain, chain.GoesFrom tree [] (some first) ∧
      (∀ other : Chain, other.GoesFrom tree [] (some first) → other = chain) ∧
      ∀ m r m', Ends respond (runAt tree limit depth first) m r m' ↔
        (Yields respond (forEach (runStep tree (runAt tree limit (depth + 1))) chain.steps) m ()
            m' ∧ r = chainEnd chain.repeated) ∨
        ∃ before bad after m₁ fault, chain.steps = before ++ bad :: after ∧
          Yields respond (forEach (runStep tree (runAt tree limit (depth + 1))) before) m () m₁ ∧
          Breaks respond (runStep tree (runAt tree limit (depth + 1)) bad) m₁ fault m' ∧
          r = .error fault := by
  have hchain := StepTree.goesFrom_chain tree first
  refine ⟨tree.chain first, hchain, fun other hother => hother.unique hchain, fun m r m' => ?_⟩
  rw [runAt_of_le hd, ends_runLinks]
  refine or_congr Iff.rfl ⟨?_, ?_⟩
  · rintro ⟨fault, hbreaks, hr⟩
    obtain ⟨before, bad, after, m₁, hsteps, hbefore, hbad⟩ := breaks_forEach.mp hbreaks
    exact ⟨before, bad, after, m₁, fault, hsteps, hbefore, hbad, hr⟩
  · rintro ⟨before, bad, after, m₁, fault, hsteps, hbefore, hbad, hr⟩
    exact ⟨fault, breaks_forEach.mpr ⟨before, bad, after, m₁, hsteps, hbefore, hbad⟩, hr⟩

/-- A step that waits for no time, with a successor. -/
def pause (id name next : String) : Step :=
  { id, name, type := "delay", position := 0, parent := none, next := some next, config := [] }

/-- Two steps that follow each other, and one that leads to them. -/
def circlingSteps : List Step :=
  [pause "t" "tail" "a", pause "a" "first" "b", pause "b" "second" "a"]

/-- The two steps are run once each, before their chain is rejected. -/
theorem run_of_circlingSteps : ∃ m',
    Ends Simulation.respond (runAt ⟨circlingSteps⟩ 5 0 (pause "t" "tail" "a"))
      ⟨⟨.null, [], []⟩, idle⟩ (.error (.cyclic "first")) m' ∧
      m'.context.log.map (fun e => (e.step, e.mark)) =
        [("tail", .started), ("tail", .completed), ("first", .started), ("first", .completed),
          ("second", .started), ("second", .completed)] := by
  obtain ⟨chain, -, hunique, hends⟩ := chain_runs_each_step_once Simulation.respond
    ⟨circlingSteps⟩ (show (0 : Int) ≤ 5 by decide) (pause "t" "tail" "a")
  have hgoes : Chain.GoesFrom ⟨circlingSteps⟩ [] (some (pause "t" "tail" "a"))
      ⟨circlingSteps, some (pause "a" "first" "b")⟩ := by
    refine Chain.goesFrom_cons.mpr ⟨rfl, by decide, Chain.goesFrom_cons.mpr ⟨rfl, by decide,
      Chain.goesFrom_cons.mpr ⟨rfl, by decide, Chain.goesFrom_nil.mpr ⟨rfl, ?_⟩⟩⟩⟩
    rintro _ ⟨⟩
    decide
  obtain rfl := hunique _ hgoes
  have hok : (Program.run (I := surroundings) Simulation.respond
      (forEach (runStep ⟨circlingSteps⟩ (runAt ⟨circlingSteps⟩ 5 1)) circlingSteps
        ⟨.null, [], []⟩) idle).1.1.isOk = true := by
    decide +kernel
  have hlog : (Program.run (I := surroundings) Simulation.respond
      (forEach (runStep ⟨circlingSteps⟩ (runAt ⟨circlingSteps⟩ 5 1)) circlingSteps
        ⟨.null, [], []⟩) idle).1.2.log.map (fun e => (e.step, e.mark)) =
        [("tail", .started), ("tail", .completed), ("first", .started), ("first", .completed),
          ("second", .started), ("second", .completed)] := by
    decide +kernel
  cases hrun : Program.run (I := surroundings) Simulation.respond
      (forEach (runStep ⟨circlingSteps⟩ (runAt ⟨circlingSteps⟩ 5 1)) circlingSteps
        ⟨.null, [], []⟩) idle with
  | mk out s' =>
    rw [hrun] at hok hlog
    obtain ⟨fault | ⟨⟩, c'⟩ := out
    · cases hok
    · exact ⟨⟨c', s'⟩, (hends _ _ _).mpr (.inl ⟨hrun, rfl⟩), hlog⟩

end Run

end Stepwise
