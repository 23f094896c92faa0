import Mathlib.Data.List.Nodup
import Mathlib.Tactic.Common
import Stepwise.Proofs.Step.Relabel

/-!
# The index of steps

Steps can be entered in order, one after another, into an index that keeps each step under its id
and each list of children under the id of the parent. Whatever steps are entered, the index and
their tree give the same answers. If no two steps have one id, then the answers tell of each step
once, and if no two have one position, the order in which the steps are given does not matter.
-/

namespace Stepwise

/-- All that can be looked up of steps. -/
@[ext]
structure StepTree.Answers where
  roots : List Step
  childrenOf : String → List Step
  get? : String → Option Step
  contains : String → Bool
  size : Nat
  nextOf : Step → Option Step

/-- What a tree answers. -/
def StepTree.answers (tree : StepTree) : Answers where
  roots := tree.roots
  childrenOf := tree.childrenOf
  get? := tree.get?
  contains := tree.contains
  size := tree.size
  nextOf := tree.nextOf

/-- Steps under their ids, the steps without a parent, and the others under the ids of their
parents. -/
structure StepIndex where
  byId : Std.HashMap String Step
  roots : List Step
  children : Std.HashMap String (List Step)

namespace StepIndex

/-- The index of no steps. -/
def empty : StepIndex := ⟨∅, [], ∅⟩

/-- Enters a step: it takes the place of an earlier step of its id, and comes last among the roots
or the children of its parent. -/
def push (index : StepIndex) (step : Step) : StepIndex :=
  let byId := index.byId.insert step.id step
  match step.parent with
  | none => { index with byId, roots := index.roots ++ [step] }
  | some parent =>
    { index with
      byId
      children := index.children.alter parent fun earlier? => some (earlier?.getD [] ++ [step]) }

/-- The steps are entered by position. -/
def ofSteps (steps : List Step) : StepIndex := (StepTree.ofSteps steps).steps.foldl push empty

/-- What an index answers. -/
def answers (index : StepIndex) : StepTree.Answers where
  roots := index.roots
  childrenOf id := index.children.getD id []
  get? id := index.byId[id]?
  contains id := index.byId.contains id
  size := index.byId.size
  nextOf step := step.next.bind (index.byId[·]?)

variable {index : StepIndex} {step : Step}

theorem byId_push : (index.push step).byId = index.byId.insert step.id step := by
  unfold push
  cases step.parent <;> rfl

theorem roots_push :
    (index.push step).roots = index.roots ++ [step].filter (·.parent.isNone) := by
  unfold push
  cases h : step.parent <;> simp [h]

theorem getD_children_push (id : String) :
    (index.push step).children.getD id [] =
      index.children.getD id [] ++ [step].filter (·.parent == some id) := by
  unfold push
  cases h : step.parent with
  | none => simp [h]
  | some parent =>
    by_cases hid : parent = id
    · subst hid
      simp [h, Std.HashMap.getD_eq_getD_getElem?]
    · simp [h, hid, Std.HashMap.getD_alter]

end StepIndex

/-! ## The index answers as the tree -/

namespace StepTree

variable {steps : List Step} {step : Step}

theorem get?_append (id : String) :
    get? ⟨steps ++ [step]⟩ id = if step.id == id then some step else get? ⟨steps⟩ id := by
  unfold get?
  rw [List.reverse_concat, List.find?_cons]
  cases step.id == id with
  | true => rfl
  | false => rfl

theorem contains_iff {tree : StepTree} {id : String} :
    tree.contains id = true ↔ id ∈ tree.steps.map (·.id) := by
  simp [contains, get?, List.find?_isSome]

theorem size_append :
    size ⟨steps ++ [step]⟩ =
      if contains ⟨steps⟩ step.id then size ⟨steps⟩ else size ⟨steps⟩ + 1 := by
  unfold size
  rw [List.map_append, List.eraseDups_append, List.length_append]
  by_cases h : step.id ∈ steps.map (·.id)
  · have hnone : [step.id].removeAll (steps.map (·.id)) = [] :=
      List.filter_eq_nil_iff.mpr (by simpa using h)
    rw [List.map_singleton, hnone, if_pos (contains_iff.mpr h)]
    rfl
  · have hone : [step.id].removeAll (steps.map (·.id)) = [step.id] :=
      List.filter_eq_self.mpr (by simpa using h)
    rw [List.map_singleton, hone, if_neg (mt contains_iff.mp h)]
    rfl

end StepTree

namespace StepIndex

open StepTree

/-- Entering a step does to the answers of the index what one more step does to those of a tree. -/
theorem answers_push {index : StepIndex} {steps : List Step} (step : Step)
    (h : index.answers = (StepTree.mk steps).answers) :
    (index.push step).answers = (StepTree.mk (steps ++ [step])).answers := by
  have hroots : index.roots = StepTree.roots ⟨steps⟩ := congrArg Answers.roots h
  have hchildren (id : String) : index.children.getD id [] = childrenOf ⟨steps⟩ id :=
    congrFun (congrArg Answers.childrenOf h) id
  have hget (id : String) : index.byId[id]? = get? ⟨steps⟩ id :=
    congrFun (congrArg Answers.get? h) id
  have hsize : index.byId.size = size ⟨steps⟩ := congrArg Answers.size h
  have hget' (id : String) : (index.push step).byId[id]? = get? ⟨steps ++ [step]⟩ id := by
    rw [byId_push, Std.HashMap.getElem?_insert, get?_append, hget]
  refine Answers.ext ?_ (funext fun id => ?_) (funext hget') (funext fun id => ?_) ?_
    (funext fun other => ?_)
  · calc
      _ = StepTree.roots ⟨steps⟩ ++ [step].filter (·.parent.isNone) := hroots ▸ roots_push
      _ = StepTree.roots ⟨steps ++ [step]⟩ := (List.filter_append ..).symm
  · calc
      _ = childrenOf ⟨steps⟩ id ++ [step].filter (·.parent == some id) :=
        hchildren id ▸ getD_children_push id
      _ = childrenOf ⟨steps ++ [step]⟩ id := (List.filter_append ..).symm
  · calc
      _ = (index.push step).byId[id]?.isSome := Std.HashMap.contains_eq_isSome_getElem?
      _ = contains ⟨steps ++ [step]⟩ id := congrArg Option.isSome (hget' id)
  · calc
      _ = (index.byId.insert step.id step).size := congrArg Std.HashMap.size byId_push
      _ = if contains ⟨steps⟩ step.id then size ⟨steps⟩ else size ⟨steps⟩ + 1 := by
        rw [Std.HashMap.size_insert, hsize]
        simp only [Std.HashMap.mem_iff_isSome_getElem?, hget]
        rfl
      _ = size ⟨steps ++ [step]⟩ := size_append.symm
  · exact congrArg other.next.bind (funext hget')

theorem answers_empty : empty.answers = (StepTree.mk []).answers := by
  have hget (id : String) : empty.byId[id]? = none := Std.HashMap.getElem?_empty
  have hsize : empty.byId.size = 0 := Std.HashMap.size_empty
  exact Answers.ext rfl (funext fun _ => Std.HashMap.getD_empty) (funext hget)
    (funext fun _ => Std.HashMap.contains_empty) hsize
    (funext fun step => congrArg step.next.bind (funext hget))

/-- By induction on the steps that are still to be entered. -/
theorem answers_foldl_push {index : StepIndex} {entered : List Step}
    (h : index.answers = (StepTree.mk entered).answers) (steps : List Step) :
    (steps.foldl push index).answers = (StepTree.mk (entered ++ steps)).answers := by
  induction steps generalizing index entered with
  | nil => simpa using h
  | cons step steps ih => simpa using ih (answers_push step h)

theorem answers_ofSteps (steps : List Step) :
    (ofSteps steps).answers = (StepTree.ofSteps steps).answers :=
  answers_foldl_push answers_empty (StepTree.ofSteps steps).steps

end StepIndex

/-! ## Every step once -/

theorem eraseDups_of_nodup {ids : List String} (h : ids.Nodup) : ids.eraseDups = ids := by
  induction ids with
  | nil => rfl
  | cons id ids ih =>
    obtain ⟨hnew, hrest⟩ := List.nodup_cons.mp h
    have hothers : ids.filter (fun other => !other == id) = ids :=
      List.filter_eq_self.mpr fun other hother => by
        simpa using fun heq : other = id => hnew (heq ▸ hother)
    rw [List.eraseDups_cons, hothers, ih hrest]

namespace StepTree

variable {tree : StepTree} {steps : List Step}

/-- The children of some ids are the steps that name one of them as their parent: by induction on
the ids. -/
theorem flatMap_childrenOf_perm {ids : List String} (hids : ids.Nodup) :
    (ids.flatMap tree.childrenOf).Perm
      (tree.steps.filter fun step => step.parent.any ids.contains) := by
  induction ids with
  | nil =>
    have hnone : (tree.steps.filter fun step => step.parent.any [].contains) = [] :=
      List.filter_eq_nil_iff.mpr fun step _ => by cases step.parent <;> simp
    rw [hnone]
    rfl
  | cons id ids ih =>
    obtain ⟨hnew, hrest⟩ := List.nodup_cons.mp hids
    -- The steps in question are those that name the first id, and those that name a later one.
    let named := tree.steps.filter fun step => step.parent.any (id :: ids).contains
    have hfirst : named.filter (·.parent == some id) = tree.childrenOf id := by
      refine (List.filter_filter ..).trans (List.filter_congr fun step _ => ?_)
      cases step.parent with
      | none => rfl
      | some parent => by_cases h : parent = id <;> simp [h]
    have hothers : named.filter (fun step => !(step.parent == some id)) =
        tree.steps.filter fun step => step.parent.any ids.contains := by
      refine (List.filter_filter ..).trans (List.filter_congr fun step _ => ?_)
      cases step.parent with
      | none => rfl
      | some parent => by_cases h : parent = id <;> simp [h, hnew]
    have hsplit := List.filter_append_perm (·.parent == some id) named
    rw [hfirst, hothers] at hsplit
    rw [List.flatMap_cons]
    exact ((ih hrest).append_left _).trans hsplit

theorem roots_append_children_perm {ids : List String} (hids : ids.Nodup)
    (hnamed : ∀ step ∈ tree.steps, ∀ id ∈ step.parent, id ∈ ids) :
    (tree.roots ++ ids.flatMap tree.childrenOf).Perm tree.steps := by
  have hothers : (tree.steps.filter fun step => step.parent.any ids.contains) =
      tree.steps.filter fun step => !step.parent.isNone := by
    refine List.filter_congr fun step hs => ?_
    cases hp : step.parent with
    | none => rfl
    | some id => simpa using hnamed step hs id hp
  have hchildren : (ids.flatMap tree.childrenOf).Perm
      (tree.steps.filter fun step => !step.parent.isNone) :=
    hothers ▸ flatMap_childrenOf_perm hids
  have hsplit : (tree.roots ++ tree.steps.filter fun step => !step.parent.isNone).Perm tree.steps :=
    List.filter_append_perm _ tree.steps
  exact (hchildren.append_left _).trans hsplit

theorem mem_of_get? {id : String} {step : Step} (h : tree.get? id = some step) :
    step ∈ tree.steps ∧ step.id = id :=
  ⟨List.mem_reverse.mp (List.mem_of_find?_eq_some h), by simpa using List.find?_some h⟩

theorem get?_eq_some_iff (hid : (tree.steps.map (·.id)).Nodup) {id : String} {step : Step} :
    tree.get? id = some step ↔ step ∈ tree.steps ∧ step.id = id := by
  constructor
  · exact mem_of_get?
  · rintro ⟨hs, rfl⟩
    cases h : tree.get? step.id with
    | none => simpa using List.find?_eq_none.mp h step (List.mem_reverse.mpr hs)
    | some found =>
      obtain ⟨hmem, hfound⟩ := mem_of_get? h
      rw [List.inj_on_of_nodup_map hid hmem hs hfound]

theorem nextOf_eq_some_iff (hid : (tree.steps.map (·.id)).Nodup) {step next : Step} :
    tree.nextOf step = some next ↔ next ∈ tree.steps ∧ step.next = some next.id := by
  simp only [nextOf, Option.bind_eq_some_iff, get?_eq_some_iff hid]
  constructor
  · rintro ⟨id, hn, hmem, rfl⟩
    exact ⟨hmem, hn⟩
  · rintro ⟨hmem, hn⟩
    exact ⟨next.id, hn, hmem, rfl⟩

theorem size_of_nodup (hid : (tree.steps.map (·.id)).Nodup) : tree.size = tree.steps.length := by
  unfold size
  rw [eraseDups_of_nodup hid, List.length_map]

/-- The answers tell of the steps given and of no others. The roots and the children of all parents
that are named make up the steps, so that no step is among them twice. -/
structure Answers.TellsOf (answers : Answers) (steps : List Step) : Prop where
  mem_roots : ∀ step, step ∈ answers.roots ↔ step ∈ steps ∧ step.parent = none
  mem_childrenOf : ∀ id step, step ∈ answers.childrenOf id ↔ step ∈ steps ∧ step.parent = some id
  once : ∀ ids : List String, ids.Nodup → (∀ step ∈ steps, ∀ id ∈ step.parent, id ∈ ids) →
    (answers.roots ++ ids.flatMap answers.childrenOf).Perm steps
  roots_ordered : answers.roots.Pairwise (Precedes steps)
  childrenOf_ordered : ∀ id, (answers.childrenOf id).Pairwise (Precedes steps)
  get?_eq_some : ∀ id step, answers.get? id = some step ↔ step ∈ steps ∧ step.id = id
  contains_eq_true : ∀ id, answers.contains id = true ↔ id ∈ steps.map (·.id)
  size_eq : answers.size = steps.length
  nextOf_eq_some : ∀ step next,
    answers.nextOf step = some next ↔ next ∈ steps ∧ step.next = some next.id

theorem tellsOf_ofSteps (hid : (steps.map (·.id)).Nodup) :
    (ofSteps steps).answers.TellsOf steps := by
  have hperm := ofSteps_perm steps
  have hid' : ((ofSteps steps).steps.map (·.id)).Nodup := (hperm.map _).nodup_iff.mpr hid
  constructor
  case mem_roots =>
    intro step
    show step ∈ (ofSteps steps).roots ↔ _
    simp [roots, hperm.mem_iff]
  case mem_childrenOf =>
    intro id step
    show step ∈ (ofSteps steps).childrenOf id ↔ _
    simp [childrenOf, hperm.mem_iff]
  case once =>
    intro ids hids hnamed
    have hnamed' : ∀ step ∈ (ofSteps steps).steps, ∀ id ∈ step.parent, id ∈ ids :=
      fun step hs => hnamed step (hperm.mem_iff.mp hs)
    exact (roots_append_children_perm hids hnamed').trans hperm
  case roots_ordered => exact (precedes_ofSteps steps).filter _
  case childrenOf_ordered => exact fun id => (precedes_ofSteps steps).filter _
  case get?_eq_some =>
    intro id step
    exact (get?_eq_some_iff hid').trans (and_congr_left' hperm.mem_iff)
  case contains_eq_true =>
    intro id
    exact contains_iff.trans (hperm.map _).mem_iff
  case size_eq => exact (size_of_nodup hid').trans hperm.length_eq
  case nextOf_eq_some =>
    intro step next
    exact (nextOf_eq_some_iff hid').trans (and_congr_left' hperm.mem_iff)

/-- Steps of different positions make one tree, in whatever order they are given. -/
theorem ofSteps_of_perm {steps' : List Step} (hp : (steps.map (·.position)).Nodup)
    (hperm : steps'.Perm steps) : ofSteps steps' = ofSteps steps := by
  have hsteps : (ofSteps steps).steps.Perm (ofSteps steps').steps :=
    (ofSteps_perm steps).trans (hperm.symm.trans (ofSteps_perm steps').symm)
  have hp' : ((ofSteps steps).steps.map (·.position)).Nodup :=
    ((ofSteps_perm steps).map _).nodup_iff.mpr hp
  have heq := (inOrder_ofSteps steps).eq_of_perm (inOrder_ofSteps steps') hp' hsteps
  exact congrArg StepTree.mk heq.symm

/-- Steps of different ids are indexed once each, whatever parents they name, and the index that is
built of them answers as their tree does. If their positions are different too, the order in which
they are given does not matter. -/
theorem each_step_indexed_once (hid : (steps.map (·.id)).Nodup) :
    (ofSteps steps).answers.TellsOf steps ∧
      (StepIndex.ofSteps steps).answers = (ofSteps steps).answers ∧
      ((steps.map (·.position)).Nodup → ∀ steps' : List Step, steps'.Perm steps →
        (ofSteps steps').answers = (ofSteps steps).answers) :=
  ⟨tellsOf_ofSteps hid, StepIndex.answers_ofSteps steps,
    fun hp _ hperm => congrArg answers (ofSteps_of_perm hp hperm)⟩

/-- A root whose successor is not there, a step that names itself, two that name each other as their
parents, and two whose parent is not there. -/
def tangledSteps (last : Int) : List Step :=
  let step (id : String) (position : Int) (parent next : Option String) : Step :=
    { id, name := id, type := "loop", config := [], position, parent, next }
  [step "r" 0 none (some "gone"), step "s" 1 (some "s") (some "s"), step "c" 2 (some "d") none,
    step "d" 3 (some "c") none, step "y" 4 (some "gone") (some "c"),
    step "x" last (some "gone") none]

theorem tangledSteps_indexed :
    (((tangledSteps 4).map (·.id)).Nodup ∧ ((tangledSteps 5).map (·.id)).Nodup ∧
        ((tangledSteps 5).map (·.position)).Nodup) ∧
      (ofSteps (tangledSteps 4)).answers.TellsOf (tangledSteps 4) ∧
      (StepIndex.ofSteps (tangledSteps 4)).answers = (ofSteps (tangledSteps 4)).answers ∧
      (ofSteps (tangledSteps 5).reverse).answers = (ofSteps (tangledSteps 5)).answers ∧
      ((StepIndex.ofSteps (tangledSteps 4)).answers.childrenOf "gone").map (·.id) = ["y", "x"] := by
  have hlevel : ((tangledSteps 4).map (·.id)).Nodup := by decide
  have hid : ((tangledSteps 5).map (·.id)).Nodup := by decide
  have hposition : ((tangledSteps 5).map (·.position)).Nodup := by decide
  obtain ⟨htells, hindex, -⟩ := each_step_indexed_once hlevel
  obtain ⟨-, -, horder⟩ := each_step_indexed_once hid
  refine ⟨⟨hlevel, hid, hposition⟩, htells, hindex, horder hposition _ (List.reverse_perm _), ?_⟩
  rw [hindex, ofSteps_of_inOrder (by decide)]
  decide

end StepTree

end Stepwise
