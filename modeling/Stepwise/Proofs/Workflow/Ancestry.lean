import Mathlib.Data.Fintype.EquivFin
import Mathlib.Logic.Relation
import Mathlib.Tactic.Common
import Stepwise.Proofs.Workflow.References
import Stepwise.Proofs.Workflow.Rows
import Stepwise.Step.Tree

/-!
# Which steps lie under a root

Every reference to a parent is checked on its own when a step set is accepted, so the parents of an
accepted set may lead in a circle. A step of such a set comes to a root by following parents if and
only if no step on the way is above itself, and it is then that it lies under a root of the tree
that is made of the stored steps.
-/

namespace Stepwise

/-- Following parents from an item comes to one that has no parent. -/
inductive Rooted {α : Type} (id : α → String) (parent : α → Option String) (items : List α) :
    α → Prop
  | root {a : α} (ha : a ∈ items) (hnone : parent a = none) : Rooted id parent items a
  | child {a b : α} (ha : a ∈ items) (hb : Rooted id parent items b)
      (hparent : parent a = some (id b)) : Rooted id parent items a

/-- A step is a root of the tree, or a child of a step that lies under a root. -/
inductive StepTree.UnderRoot (tree : StepTree) : Step → Prop
  | root {step : Step} (h : step ∈ tree.roots) : UnderRoot tree step
  | child {step parent : Step} (hparent : UnderRoot tree parent)
      (h : step ∈ tree.childrenOf parent.id) : UnderRoot tree step

namespace StepSet

/-- A step names another one as its parent, both given by their indices. -/
def Under (steps : List Fields) (i j : Nat) : Prop :=
  ∃ step other, steps[i]? = some step ∧ steps[j]? = some other ∧ Names step "parent_id" other

/-- The step of an index, or one above it, is above itself. -/
def Circular (steps : List Fields) (i : Nat) : Prop :=
  ∃ j, Relation.ReflTransGen (Under steps) i j ∧ Relation.TransGen (Under steps) j j

end StepSet

theorem Rooted.mem {α : Type} {id : α → String} {parent : α → Option String} {items : List α}
    {a : α} (h : Rooted id parent items a) : a ∈ items := by
  cases h <;> assumption

/-- Where every item has a parent, following parents never ends. -/
theorem not_rooted_of_parents {α : Type} {id : α → String} {parent : α → Option String}
    {items : List α} (h : ∀ a ∈ items, parent a ≠ none) {a : α} : ¬ Rooted id parent items a := by
  intro hrooted
  induction hrooted with
  | root ha hnone => exact h _ ha hnone
  | child _ _ _ ih => exact ih

/-! ## Circles in a relation -/

open Relation

variable {r : Nat → Nat → Prop} {i : Nat}

theorem not_transGen_of_acc (h : Acc (flip r) i) :
    ∀ j, ReflTransGen r i j → ¬ TransGen r j j := by
  induction h with
  | intro i _ ih =>
    intro j hij hjj
    obtain rfl | ⟨k, hik, hkj⟩ := ReflTransGen.cases_head hij
    · obtain ⟨k, hik, hki⟩ := TransGen.head'_iff.mp hjj
      exact ih k hik i hki hjj
    · exact ih k hik j hkj hjj

/-- Where only finitely many indices are come to, going on ends unless it comes to a circle. -/
theorem acc_of_not_transGen {n : Nat} (hr : ∀ i j, r i j → j < n)
    (h : ∀ j, ReflTransGen r i j → ¬ TransGen r j j) : Acc (flip r) i := by
  let Met := {j : Fin (max n (i + 1)) // ReflTransGen r i j}
  let Above (a b : Met) : Prop := TransGen r b.1 a.1
  have hfinite : Finite Met := Subtype.finite
  have htrans : IsTrans Met Above := ⟨fun _ _ _ hab hbc => hbc.trans hab⟩
  have hirrefl : Std.Irrefl Above := ⟨fun a haa => h a.1 a.2 haa⟩
  have hacc : ∀ a : Met, Acc (flip r) a.1 := by
    intro a
    induction (Finite.wellFounded_of_trans_of_irrefl Above).apply a with
    | intro a _ ih =>
      constructor
      intro k hak
      have hk : k < max n (i + 1) := lt_of_lt_of_le (hr _ _ hak) (le_max_left _ _)
      exact ih ⟨⟨k, hk⟩, a.2.tail hak⟩ (.single hak)
  exact hacc ⟨⟨i, by omega⟩, .refl⟩

/-! ## Parents by index -/

/-- The parents of the items are those that a relation of their indices gives. -/
structure Linked {α : Type} (id : α → String) (parent : α → Option String) (items : List α)
    (r : Nat → Nat → Prop) : Prop where
  nodup : (items.map id).Nodup
  lt : ∀ i j, r i j → j < items.length
  none_iff : ∀ (i : Nat) (a : α), items[i]? = some a → (parent a = none ↔ ∀ j, ¬ r i j)
  some_iff : ∀ (i j : Nat) (a b : α), items[i]? = some a → items[j]? = some b →
    (parent a = some (id b) ↔ r i j)

namespace Linked

variable {α : Type} {id : α → String} {parent : α → Option String} {items : List α}

theorem rooted_of_acc (h : Linked id parent items r) (hacc : Acc (flip r) i) {a : α}
    (ha : items[i]? = some a) : Rooted id parent items a := by
  induction hacc generalizing a with
  | intro i _ ih =>
    have hmem := List.mem_of_getElem? ha
    by_cases hnone : ∀ j, ¬ r i j
    · exact .root hmem ((h.none_iff i a ha).mpr hnone)
    · obtain ⟨j, hij⟩ := not_forall_not.mp hnone
      have hb := List.getElem?_eq_getElem (h.lt i j hij)
      exact .child hmem (ih j hij hb) ((h.some_iff i j a _ ha hb).mpr hij)

theorem acc_of_rooted (h : Linked id parent items r) {a : α} (hrooted : Rooted id parent items a)
    (ha : items[i]? = some a) : Acc (flip r) i := by
  induction hrooted generalizing i with
  | root _ hnone =>
    constructor
    intro j hij
    exact absurd hij ((h.none_iff i _ ha).mp hnone j)
  | child _ hb hparent ih =>
    constructor
    intro j hij
    have hj := List.getElem?_eq_getElem (h.lt i j hij)
    have heq := (h.some_iff i j _ _ ha hj).mpr hij
    have hid := Option.some.inj (heq.symm.trans hparent)
    obtain rfl := List.inj_on_of_nodup_map h.nodup (List.getElem_mem _) hb.mem hid
    exact ih hj

theorem rooted_iff (h : Linked id parent items r) {a : α} (ha : items[i]? = some a) :
    Rooted id parent items a ↔ ¬ ∃ j, ReflTransGen r i j ∧ TransGen r j j := by
  constructor
  · rintro hrooted ⟨j, hij, hjj⟩
    exact not_transGen_of_acc (h.acc_of_rooted hrooted ha) j hij hjj
  · intro hfree
    have hno : ∀ j, ReflTransGen r i j → ¬ TransGen r j j :=
      fun j hij hjj => hfree ⟨j, hij, hjj⟩
    exact h.rooted_of_acc (acc_of_not_transGen h.lt hno) ha

/-- Only the ids and the parents of the items matter. -/
theorem congr (h : Linked id parent items r) {β : Type} {id' : β → String}
    {parent' : β → Option String} {items' : List β} (hids : items'.map id' = items.map id)
    (hparents : items'.map parent' = items.map parent) : Linked id' parent' items' r := by
  have hlength : items'.length = items.length := by simpa using congrArg List.length hids
  have hitem : ∀ (i : Nat) (b : β), items'[i]? = some b →
      ∃ a, items[i]? = some a ∧ id a = id' b ∧ parent a = parent' b := by
    intro i b hb
    have hid := congrArg (·[i]?) hids
    have hparent := congrArg (·[i]?) hparents
    simp only [List.getElem?_map, hb, Option.map_some] at hid hparent
    obtain ⟨a, ha, hid⟩ := Option.map_eq_some_iff.mp hid.symm
    simp only [ha, Option.map_some, Option.some.injEq] at hparent
    exact ⟨a, ha, hid, hparent.symm⟩
  constructor
  · rw [hids]
    exact h.nodup
  · intro i j hij
    rw [hlength]
    exact h.lt i j hij
  · intro i b hb
    obtain ⟨a, ha, _, hparent⟩ := hitem i b hb
    rw [← hparent]
    exact h.none_iff i a ha
  · intro i j b c hb hc
    obtain ⟨a, ha, _, hparent⟩ := hitem i b hb
    obtain ⟨d, hd, hid, _⟩ := hitem j c hc
    rw [← hparent, ← hid]
    exact h.some_iff i j a d ha hd

end Linked

/-! ## Trees -/

theorem Rooted.of_subset {α : Type} {id : α → String} {parent : α → Option String}
    {items items' : List α} {a : α} (h : Rooted id parent items a) (hs : items ⊆ items') :
    Rooted id parent items' a := by
  induction h with
  | root ha hnone => exact .root (hs ha) hnone
  | child ha _ hparent ih => exact .child (hs ha) ih hparent

namespace StepTree

variable {tree : StepTree} {step : Step}

theorem mem_roots_iff : step ∈ tree.roots ↔ step ∈ tree.steps ∧ step.parent = none := by
  simp [roots]

theorem mem_childrenOf_iff {id : String} :
    step ∈ tree.childrenOf id ↔ step ∈ tree.steps ∧ step.parent = some id := by
  simp [childrenOf]

theorem underRoot_iff :
    tree.UnderRoot step ↔ Rooted Step.id Step.parent tree.steps step := by
  constructor
  · intro h
    induction h with
    | root h =>
      obtain ⟨hmem, hnone⟩ := mem_roots_iff.mp h
      exact .root hmem hnone
    | child _ h ih =>
      obtain ⟨hmem, hparent⟩ := mem_childrenOf_iff.mp h
      exact .child hmem ih hparent
  · intro h
    induction h with
    | root ha hnone => exact .root (mem_roots_iff.mpr ⟨ha, hnone⟩)
    | child ha _ hparent ih => exact .child ih (mem_childrenOf_iff.mpr ⟨ha, hparent⟩)

theorem underRoot_ofSteps_iff {steps : List Step} :
    (ofSteps steps).UnderRoot step ↔ Rooted Step.id Step.parent steps step := by
  rw [underRoot_iff]
  exact ⟨fun h => h.of_subset (ofSteps_perm steps).subset,
    fun h => h.of_subset (ofSteps_perm steps).symm.subset⟩

end StepTree

/-! ## Accepted sets -/

namespace StepSet

open Store Workflow

variable {workflow : String} {first : Nat} {steps : List Fields} {built : List NewStep}

theorem Represents.linked (h : Represents workflow steps built) (hsound : ¬ Flawed steps) :
    Linked NewStep.id NewStep.parent built (Under steps) := by
  have hstep : ∀ (i : Nat) (s : NewStep), built[i]? = some s → ∃ step, steps[i]? = some step := by
    intro i s hs
    obtain ⟨hlt, _⟩ := List.getElem?_eq_some_iff.mp hs
    exact ⟨_, List.getElem?_eq_getElem (h.length_eq ▸ hlt)⟩
  constructor
  · exact h.nodup_ids
  · rintro i j ⟨_, _, _, hother, _⟩
    obtain ⟨hlt, _⟩ := List.getElem?_eq_some_iff.mp hother
    rw [h.length_eq]
    exact hlt
  · intro i s hs
    obtain ⟨step, hi⟩ := hstep i s hs
    rw [h.parent.none_iff i step s hi hs]
    constructor
    · rintro hnull j ⟨_, other, hi', _, hnames⟩
      obtain rfl := Option.some.inj (hi.symm.trans hi')
      exact hnames.ne_null hnull
    · intro hnone
      by_contra hgiven
      refine hsound (.dangling (List.mem_of_getElem? hi) parent_mem_references hgiven ?_)
      intro other hother hnames
      obtain ⟨j, hj⟩ := List.mem_iff_getElem?.mp hother
      exact hnone j ⟨step, other, hi, hj, hnames⟩
  · intro i j s target hs htarget
    obtain ⟨step, hi⟩ := hstep i s hs
    obtain ⟨other, hj⟩ := hstep j target htarget
    rw [h.parent.some_iff i j step other s target hi hs hj htarget]
    constructor
    · intro hnames
      exact ⟨step, other, hi, hj, hnames⟩
    · rintro ⟨_, _, hi', hj', hnames⟩
      obtain rfl := Option.some.inj (hi.symm.trans hi')
      obtain rfl := Option.some.inj (hj.symm.trans hj')
      exact hnames

theorem links_of_mapM {now : Instant} {rows : List StepRow}
    (h : built.mapM (stepRow now) = .ok rows) :
    rows.map (·.id) = built.map (·.id) ∧ rows.map (·.parent) = built.map (·.parent) := by
  have hall := Except.mapM_eq_ok_iff.mp h
  clear h
  induction hall with
  | nil => simp
  | cons hrow _ ih =>
    obtain ⟨name, type, _, _, rfl⟩ := stepRow_eq_ok_iff.mp hrow
    simp [rowOf, ih]

/-- A step of an accepted set comes to a root by following parents if and only if neither it nor a
step above it is above itself; and if and only if this is so, it lies under a root of the tree of
the stored steps, whatever their configurations are read as. -/
theorem rooted_iff_not_circular (h : (build workflow first steps).1 = .ok built) :
    (∀ (i : Nat) (s : NewStep), built[i]? = some s →
      (Rooted NewStep.id NewStep.parent built s ↔ ¬ Circular steps i)) ∧
    ∀ (now : Instant) (rows : List StepRow), built.mapM (stepRow now) = .ok rows →
      ∀ (config : StepRow → Fields) (i : Nat) (row : StepRow), rows[i]? = some row →
        ((StepTree.ofSteps (rows.map fun row => row.toStep (config row))).UnderRoot
            (row.toStep (config row)) ↔
          ¬ Circular steps i) := by
  obtain ⟨hsound, hrepresents⟩ := not_flawed_of_build h
  have hlinked := hrepresents.linked hsound
  constructor
  · intro i s hs
    exact hlinked.rooted_iff hs
  · intro now rows hrows config i row hrow
    obtain ⟨hids, hparents⟩ := links_of_mapM hrows
    have hlinked' : Linked Step.id Step.parent (rows.map fun row => row.toStep (config row))
        (Under steps) :=
      hlinked.congr (by rw [List.map_map]; exact hids) (by rw [List.map_map]; exact hparents)
    rw [StepTree.underRoot_ofSteps_iff]
    exact hlinked'.rooted_iff (by rw [List.getElem?_map, hrow]; rfl)

/-- Two containers that are each other's parents, beside a loop with a step under it. -/
theorem mutual_parents_not_rooted :
    let check : Fields := [(.text "id", .text "c"), (.text "name", .text "Check"),
      (.text "type", .text "condition"), (.text "parent_id", .text "e")]
    let each : Fields := [(.text "id", .text "e"), (.text "name", .text "Each"),
      (.text "type", .text "loop"), (.text "parent_id", .text "c")]
    let rows : Fields := [(.text "id", .text "r"), (.text "name", .text "Rows"),
      (.text "type", .text "loop")]
    let call : Fields := [(.text "name", .text "Call"), (.text "type", .text "webhook"),
      (.text "parent_id", .text "r")]
    ∃ built, (build "w" 1 [check, each, rows, call]).1 = .ok built ∧
      (∃ s, built[0]? = some s ∧ ¬ Rooted NewStep.id NewStep.parent built s) ∧
      ¬ Circular [check, each, rows, call] 3 := by
  intro check each rows call
  have hbuild : (build "w" 1 [check, each, rows, call]).1 = .ok _ := rfl
  obtain ⟨hrooted, _⟩ := rooted_iff_not_circular hbuild
  have hup : Under [check, each, rows, call] 0 1 :=
    ⟨check, each, rfl, rfl, .text "e", .text "e", rfl, rfl, by decide⟩
  have hback : Under [check, each, rows, call] 1 0 :=
    ⟨each, check, rfl, rfl, .text "c", .text "c", rfl, rfl, by decide⟩
  refine ⟨_, hbuild, ⟨_, rfl, fun h => ?_⟩, (hrooted 3 _ rfl).mp ?_⟩
  · exact (hrooted 0 _ rfl).mp h ⟨0, .refl, .tail (.single hup) hback⟩
  · exact .child (List.mem_of_getElem? (i := 3) rfl) (.root (List.mem_of_getElem? (i := 2) rfl) rfl)
      rfl

/-- A loop that names itself as its parent is accepted, and following its parents never ends. -/
theorem own_parent_accepted :
    let each : Fields := [(.text "id", .text "e"), (.text "name", .text "Each"),
      (.text "type", .text "loop"), (.text "parent_id", .text "e")]
    ∃ s, (build "w" 1 [each]).1 = .ok [s] ∧ ¬ Rooted NewStep.id NewStep.parent [s] s := by
  intro each
  exact ⟨_, rfl, not_rooted_of_parents (by simp)⟩

end StepSet

end Stepwise
