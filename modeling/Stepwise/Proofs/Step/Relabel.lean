import Mathlib.Data.List.Find
import Mathlib.Data.List.Nodup
import Stepwise.Proofs.Step.Order
import Stepwise.Step.Chain

/-!
# Steps under other names

The ids of steps link them to one another, and their positions put them in order. New ids that keep
the steps apart, and new positions that keep their order, give the same tree under other names:
whatever is looked up in it is found under its new name.
-/

namespace Stepwise

/-- New ids and new positions. -/
structure Relabeling where
  id : String → String
  position : Int → Int

namespace Step

/-- The step under its new id and at its new position. It names its parent and its successor by
their new ids. -/
def relabel (l : Relabeling) (step : Step) : Step :=
  { step with
    id := l.id step.id
    position := l.position step.position
    parent := step.parent.map l.id
    next := step.next.map l.id }

/-- The ids that a step names: its own, and those of its parent and its successor. -/
def ids (step : Step) : List String := step.id :: (step.parent.toList ++ step.next.toList)

end Step

/-- The ids that the steps name, whether or not a step has them. -/
def idsOf (steps : List Step) : List String := steps.flatMap Step.ids

theorem id_mem_idsOf {steps : List Step} {step : Step} (hs : step ∈ steps) :
    step.id ∈ idsOf steps :=
  List.mem_flatMap.mpr ⟨step, hs, List.mem_cons_self⟩

theorem parent_mem_idsOf {steps : List Step} {step : Step} {id : String} (hs : step ∈ steps)
    (hp : step.parent = some id) : id ∈ idsOf steps :=
  List.mem_flatMap.mpr ⟨step, hs, by simp [Step.ids, hp]⟩

theorem next_mem_idsOf {steps : List Step} {step : Step} {id : String} (hs : step ∈ steps)
    (hn : step.next = some id) : id ∈ idsOf steps :=
  List.mem_flatMap.mpr ⟨step, hs, by simp [Step.ids, hn]⟩

/-- The new names say of the steps what the old ones do: they keep different ids apart and lower
positions lower, and a condition, which keeps its outcome under its id, has its id still. -/
structure Relabeling.Keeps (l : Relabeling) (steps : List Step) : Prop where
  apart : ∀ a ∈ idsOf steps, ∀ b ∈ idsOf steps, l.id a = l.id b → a = b
  ascending : ∀ a ∈ steps, ∀ b ∈ steps, a.position < b.position →
    l.position a.position < l.position b.position
  conditions : ∀ step ∈ steps, StepKind.ofName? step.type = some .condition →
    l.id step.id = step.id

namespace Relabeling.Keeps

variable {l : Relabeling} {steps : List Step}

theorem subset {steps' : List Step} (h : l.Keeps steps) (hs : steps' ⊆ steps) :
    l.Keeps steps' := by
  have hids : idsOf steps' ⊆ idsOf steps := fun id hid => by
    obtain ⟨step, hstep, hmem⟩ := List.mem_flatMap.mp hid
    exact List.mem_flatMap.mpr ⟨step, hs hstep, hmem⟩
  exact ⟨fun a ha b hb => h.apart a (hids ha) b (hids hb),
    fun a ha b hb => h.ascending a (hs ha) b (hs hb),
    fun step hstep => h.conditions step (hs hstep)⟩

theorem id_eq_iff (h : l.Keeps steps) {a b : String} (ha : a ∈ idsOf steps)
    (hb : b ∈ idsOf steps) : l.id a = l.id b ↔ a = b :=
  ⟨h.apart a ha b hb, congrArg l.id⟩

theorem id_beq (h : l.Keeps steps) {a b : String} (ha : a ∈ idsOf steps)
    (hb : b ∈ idsOf steps) : (l.id a == l.id b) = (a == b) := by
  rw [Bool.eq_iff_iff, beq_iff_eq, beq_iff_eq]
  exact h.id_eq_iff ha hb

theorem position_le (h : l.Keeps steps) {a b : Step} (ha : a ∈ steps) (hb : b ∈ steps)
    (hle : a.position ≤ b.position) : l.position a.position ≤ l.position b.position := by
  by_cases heq : a.position = b.position
  · exact Int.le_of_eq (congrArg l.position heq)
  · have hlt := h.ascending a ha b hb (by omega)
    omega

theorem position_inj (h : l.Keeps steps) {a b : Step} (ha : a ∈ steps) (hb : b ∈ steps)
    (heq : l.position a.position = l.position b.position) : a.position = b.position := by
  by_contra hne
  rcases Int.lt_or_gt_of_ne hne with hlt | hlt
  · have := h.ascending a ha b hb hlt
    omega
  · have := h.ascending b hb a ha hlt
    omega

end Relabeling.Keeps

/-- Steps of different positions stand by position in one way only. -/
theorem InOrder.eq_of_perm {steps steps' : List Step} (h : InOrder steps) (h' : InOrder steps')
    (hp : (steps.map (·.position)).Nodup) (hperm : steps.Perm steps') : steps = steps' := by
  refine List.Perm.eq_of_pairwise (fun a b ha hb hab hba => ?_) h h' hperm
  exact List.inj_on_of_nodup_map hp ha (hperm.mem_iff.mpr hb) (Int.le_antisymm hab hba)

namespace StepTree

/-- The tree of the steps under their new names. -/
def relabel (l : Relabeling) (tree : StepTree) : StepTree := ⟨tree.steps.map (Step.relabel l)⟩

/-- In whatever order the steps are given under their new names, their tree is the old one under
new names. -/
theorem ofSteps_relabel {l : Relabeling} {steps steps' : List Step} (h : l.Keeps steps)
    (hp : (steps.map (·.position)).Nodup) (hperm : steps'.Perm (steps.map (Step.relabel l))) :
    ofSteps steps' = (ofSteps steps).relabel l := by
  have hsteps : (ofSteps steps').steps.Perm ((ofSteps steps).steps.map (Step.relabel l)) :=
    (ofSteps_perm steps').trans (hperm.trans ((ofSteps_perm steps).map _).symm)
  have horder : InOrder ((ofSteps steps).steps.map (Step.relabel l)) := by
    refine List.pairwise_map.mpr ((inOrder_ofSteps steps).imp_of_mem fun ha hb hab => ?_)
    exact h.position_le ((ofSteps_perm steps).mem_iff.mp ha) ((ofSteps_perm steps).mem_iff.mp hb)
      hab
  have hnodup : ((ofSteps steps').steps.map (·.position)).Nodup := by
    have hmap : ((ofSteps steps').steps.map (·.position)).Perm
        (steps.map fun step => l.position step.position) := by
      have := ((ofSteps_perm steps').trans hperm).map (·.position)
      rwa [List.map_map] at this
    refine hmap.nodup_iff.mpr (List.Nodup.map_on ?_ (List.Nodup.of_map _ hp))
    exact fun a ha b hb heq => List.inj_on_of_nodup_map hp ha hb (h.position_inj ha hb heq)
  have heq := (inOrder_ofSteps steps').eq_of_perm horder hnodup hsteps
  exact congrArg StepTree.mk heq

section

variable {l : Relabeling} {tree : StepTree}

theorem roots_relabel : (tree.relabel l).roots = tree.roots.map (Step.relabel l) := by
  unfold roots relabel
  rw [List.filter_map]
  congr 1
  refine List.filter_congr fun step _ => ?_
  simp [Step.relabel]

theorem childrenOf_relabel (h : l.Keeps tree.steps) {id : String} (hid : id ∈ idsOf tree.steps) :
    (tree.relabel l).childrenOf (l.id id) = (tree.childrenOf id).map (Step.relabel l) := by
  unfold childrenOf relabel
  rw [List.filter_map]
  congr 1
  refine List.filter_congr fun step hs => ?_
  cases hp : step.parent with
  | none => simp [Step.relabel, hp]
  | some parent =>
    have hbeq := h.id_beq (parent_mem_idsOf hs hp) hid
    simpa [Step.relabel, hp] using hbeq

theorem get?_relabel (h : l.Keeps tree.steps) {id : String} (hid : id ∈ idsOf tree.steps) :
    (tree.relabel l).get? (l.id id) = (tree.get? id).map (Step.relabel l) := by
  unfold get? relabel
  rw [← List.map_reverse, List.find?_map]
  congr 1
  refine List.find?_congr fun step hs => ?_
  exact h.id_beq (id_mem_idsOf (List.mem_reverse.mp hs)) hid

theorem nextOf_relabel (h : l.Keeps tree.steps) {step : Step} (hs : step ∈ tree.steps) :
    (tree.relabel l).nextOf (step.relabel l) = (tree.nextOf step).map (Step.relabel l) := by
  cases hn : step.next with
  | none => simp [nextOf, Step.relabel, hn]
  | some id =>
    have hget := get?_relabel h (next_mem_idsOf hs hn)
    simpa [nextOf, Step.relabel, hn] using hget

end

end StepTree

/-- The chain under new names. -/
def Chain.relabel (l : Relabeling) (chain : Chain) : Chain :=
  ⟨chain.steps.map (Step.relabel l), chain.repeated.map (Step.relabel l)⟩

namespace StepTree

variable {l : Relabeling} {tree : StepTree}

/-- By induction on the fuel: the same steps are met, and the same one again. -/
theorem follow_relabel (h : l.Keeps tree.steps) {fuel : Nat} {seen : List String}
    {current : Option Step} (hseen : ∀ id ∈ seen, id ∈ idsOf tree.steps)
    (hcurrent : ∀ step ∈ current, step ∈ tree.steps) :
    (tree.relabel l).follow fuel (seen.map l.id) (current.map (Step.relabel l)) =
      (tree.follow fuel seen current).relabel l := by
  induction fuel generalizing seen current with
  | zero =>
    cases current with
    | none => rfl
    | some step => rfl
  | succ fuel ih =>
    cases current with
    | none => rfl
    | some step =>
      have hstep : step ∈ tree.steps := hcurrent step rfl
      have hid : step.id ∈ idsOf tree.steps := id_mem_idsOf hstep
      have hmet : (seen.map l.id).contains (step.relabel l).id = seen.contains step.id := by
        rw [Bool.eq_iff_iff, List.contains_iff_mem, List.contains_iff_mem, List.mem_map]
        constructor
        · rintro ⟨id, hmem, heq⟩
          exact (h.id_eq_iff (hseen id hmem) hid).mp heq ▸ hmem
        · exact fun hmem => ⟨step.id, hmem, rfl⟩
      have hseen' : ∀ id ∈ step.id :: seen, id ∈ idsOf tree.steps :=
        List.forall_mem_cons.mpr ⟨hid, hseen⟩
      have hrest := ih hseen' fun next (hnext : tree.nextOf step = some next) => mem_of_nextOf hnext
      rw [Option.map_some]
      unfold follow
      rw [hmet, nextOf_relabel h hstep]
      split_ifs
      · rfl
      · rw [List.map_cons] at hrest
        simp only [Step.relabel] at hrest ⊢
        rw [hrest]
        rfl

theorem chain_relabel (h : l.Keeps tree.steps) {step : Step} (hs : step ∈ tree.steps) :
    (tree.relabel l).chain (step.relabel l) = (tree.chain step).relabel l := by
  have hlength : (tree.relabel l).steps.length = tree.steps.length := List.length_map _
  unfold chain
  rw [hlength]
  have hcurrent : ∀ other ∈ some step, other ∈ tree.steps :=
    fun _ hother => Option.some.inj hother ▸ hs
  exact follow_relabel h (List.forall_mem_nil _) hcurrent

/-- By induction on the fuel: a chain that begins in the tree stays in it. -/
theorem mem_of_mem_follow {fuel : Nat} {seen : List String} {current : Option Step}
    (hcurrent : ∀ step ∈ current, step ∈ tree.steps) :
    ∀ step ∈ (tree.follow fuel seen current).steps, step ∈ tree.steps := by
  induction fuel generalizing seen current with
  | zero =>
    cases current with
    | none => simp [follow]
    | some step => simp [follow]
  | succ fuel ih =>
    cases current with
    | none => simp [follow]
    | some step =>
      unfold follow
      split_ifs
      · simp
      · exact List.forall_mem_cons.mpr
          ⟨hcurrent step rfl, ih fun next hnext => mem_of_nextOf hnext⟩

theorem mem_of_mem_chain {step : Step} (hs : step ∈ tree.steps) :
    ∀ link ∈ (tree.chain step).steps, link ∈ tree.steps :=
  mem_of_mem_follow fun _ hstep => Option.some.inj hstep ▸ hs

end StepTree

end Stepwise
