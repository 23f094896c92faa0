import Mathlib.Tactic.Common
import Stepwise.Proofs.Workflow.Rows

/-!
# When a step set is accepted

A set is accepted if no two of its steps have one name of their own, and every reference is to a
step of the set, to a container where it is a parent. The accepted steps can then be stored.
-/

namespace Stepwise

theorem Except.bind_ok {ε α β : Type} (a : α) (f : α → Except ε β) : Except.ok a >>= f = f a := rfl

theorem Except.exists_mapM_eq_ok {ε α β : Type} {f : α → Except ε β} {items : List α}
    (h : ∀ a ∈ items, ∃ b, f a = .ok b) : ∃ out, items.mapM f = .ok out := by
  induction items with
  | nil => exact ⟨[], rfl⟩
  | cons a rest ih =>
    obtain ⟨⟨b, hb⟩, hrest⟩ := List.forall_mem_cons.mp h
    obtain ⟨out, hout⟩ := ih hrest
    refine ⟨b :: out, ?_⟩
    rw [List.mapM_cons, hb, hout]
    rfl

namespace StepSet

open Store Workflow

variable {known : List Known} {first : Nat} {steps : List Fields} {step : Fields}

/-- The fields that a step cannot do without are there, and the name of its own can be looked up. -/
structure Complete (step : Fields) : Prop where
  name : ∃ name, step.get? (.text "name") = some name
  type : ∃ type, step.get? (.text "type") = some type
  id : (step.field "id").isTruthy = true → ∃ key, (step.field "id").toKey? = some key

/-- A complete step whose name and type are texts. -/
structure Formed (step : Fields) : Prop where
  name : ∃ s, step.get? (.text "name") = some (.text s)
  type : ∃ s, step.get? (.text "type") = some (.text s)
  id : (step.field "id").isTruthy = true → ∃ key, (step.field "id").toKey? = some key

theorem Formed.complete (h : Formed step) : Complete step where
  name := h.name.imp' Value.text fun _ hs => hs
  type := h.type.imp' Value.text fun _ hs => hs
  id := h.id

/-! ## The first pass -/

theorem register_of_apart {id : String} (hs : Complete step)
    (h : Apart (known ++ (noted? id step).toList)) :
    register known id step = .ok (known ++ (noted? id step).toList) := by
  obtain ⟨type, htype⟩ := hs.type
  have hrequired : required step "type" = .ok type := required_eq_ok.mpr htype
  unfold register
  rw [hrequired]
  show (if (step.field "id").isTruthy = true then _ else _ : Except Fault (List Known)) = _
  split_ifs with hname
  · obtain ⟨key, hkey⟩ := hs.id hname
    have hnoted : noted? id step = some ⟨key, id, type⟩ := by
      simp [noted?, ownName?, hname, hkey, htype]
    rw [hnoted] at h ⊢
    have hnew : find? known key = none := by
      rw [find?, List.find?_eq_none]
      intro old hold
      have hapart := (List.pairwise_append.mp h).2.2 old hold _ (List.mem_singleton_self _)
      simpa using hapart
    simp only [hkey, hnew]
    rfl
  · have hnoted : noted? id step = none := by simp [noted?, ownName?, hname]
    rw [hnoted]
    exact congrArg Except.ok (List.append_nil known).symm

theorem registerAll_of_apart {next : Nat} (hs : ∀ step ∈ steps, Complete step)
    (h : Apart (known ++ entries next steps)) : registerAll next known steps =
      (.ok (known ++ entries next steps), next + steps.length) := by
  induction steps generalizing next known with
  | nil =>
    show (Except.ok known, next) = _
    rw [entries, List.append_nil]
    rfl
  | cons step rest ih =>
    obtain ⟨hstep, hrest⟩ := List.forall_mem_cons.mp hs
    rw [entries, ← List.append_assoc] at h
    have hone := register_of_apart hstep (List.pairwise_append.mp h).1
    rw [registerAll, hone]
    show registerAll (next + 1) _ rest = _
    rw [ih hrest h, entries, List.append_assoc, List.length_cons]
    congr 1
    omega

/-- Steps are noted under different names if no two of them have the same one. -/
theorem apart_entries (h : steps.Pairwise fun a b => ∀ x y, ownName? a = some x →
    ownName? b = some y → x.same y = false) : Apart (entries first steps) := by
  induction steps generalizing first with
  | nil => exact .nil
  | cons step rest ih =>
    obtain ⟨hstep, hrest⟩ := List.pairwise_cons.mp h
    refine List.pairwise_append.mpr ⟨?_, ih hrest, fun a ha b hb => ?_⟩
    · cases noted? (freshId first) step with
      | none => exact .nil
      | some known => exact List.pairwise_singleton _ _
    · obtain ⟨haname, _⟩ := noted?_eq_some.mp (Option.mem_toList.mp ha)
      obtain ⟨i, other, hother, hentry⟩ := mem_entries.mp hb
      exact hstep other (List.mem_of_getElem? hother) _ _ haname (noted?_eq_some.mp hentry).1

/-! ## The second pass -/

theorem resolve_of_refers {field : String} {target : Option Known}
    (h : Refers known (step.field field) target) (name : Value) :
    resolve known step field name = .ok target := by
  unfold resolve
  cases h with
  | nothing hnull => simp only [hnull]
  | named hne hkey hfound =>
    split
    · contradiction
    · simp only [hkey, hfound]

/-- A reference to the name of its own that a step of the set has leads to that step. -/
theorem exists_refers (h : Apart (entries first steps)) {reference : Value} {key : Key}
    (hkey : reference.toKey? = some key) (hne : reference ≠ .null) {j : Nat} {other : Fields}
    (hother : steps[j]? = some other) (hs : Complete other) {own : Key}
    (hown : ownName? other = some own) (hsame : own.same key = true) :
    ∃ target, Refers (entries first steps) reference (some target) ∧
      other.get? (.text "type") = some target.type := by
  obtain ⟨type, htype⟩ := hs.type
  have hmem : (⟨own, freshId (first + j), type⟩ : Known) ∈ entries first steps :=
    mem_entries.mpr ⟨j, other, hother, noted?_eq_some.mpr ⟨hown, rfl, htype⟩⟩
  have hsome : (find? (entries first steps) key).isSome = true :=
    List.find?_isSome.mpr ⟨_, hmem, hsame⟩
  obtain ⟨found, hfound⟩ := Option.isSome_iff_exists.mp hsome
  have heq := h.eq_of_same hmem (List.mem_of_find?_eq_some hfound)
    (Key.same_trans hsame (Key.same_comm _ _ ▸ same_of_find? hfound))
  refine ⟨found, .named hne hkey hfound, ?_⟩
  rw [← heq]
  exact htype

/-- The references of a step lead to steps of the set, and its parent is a container. -/
structure Resolves (known : List Known) (step : Fields) : Prop where
  parent : ∃ target, Refers known (step.field "parent_id") target ∧
    ∀ parent, target = some parent → isContainerType parent.type = .ok true
  next : ∃ target, Refers known (step.field "next_step_id") target

theorem exists_place (hs : Complete step) (h : Resolves known step) (workflow id : String)
    (position : Nat) : ∃ s, place known workflow id position step = .ok s := by
  obtain ⟨name, hname⟩ := hs.name
  obtain ⟨type, htype⟩ := hs.type
  obtain ⟨parent, hparent, hcontainer⟩ := h.parent
  obtain ⟨next, hnext⟩ := h.next
  have hname' : required step "name" = .ok name := required_eq_ok.mpr hname
  have htype' : required step "type" = .ok type := required_eq_ok.mpr htype
  have hparent' := resolve_of_refers hparent name
  have hnext' := resolve_of_refers hnext name
  unfold place
  simp only [hname', htype', hparent', hnext', Except.bind_ok]
  cases parent with
  | none => exact ⟨_, rfl⟩
  | some parent =>
    simp only [hcontainer parent rfl, Except.bind_ok]
    exact ⟨_, rfl⟩

/-- A set with different names and with references that lead to steps of it is accepted. -/
theorem exists_build (hs : ∀ step ∈ steps, Complete step) (hapart : Apart (entries first steps))
    (h : ∀ step ∈ steps, Resolves (entries first steps) step) (workflow : String) :
    ∃ built, build workflow first steps = (.ok built, first + steps.length) := by
  obtain ⟨built, hbuilt⟩ : ∃ built, placeAll (entries first steps) workflow first steps =
      .ok built := by
    refine Except.exists_mapM_eq_ok fun (step, i) hmem => ?_
    have hstep := List.fst_mem_of_mem_zipIdx hmem
    exact exists_place (hs step hstep) (h step hstep) _ _ _
  refine ⟨built, ?_⟩
  unfold build
  rw [registerAll_of_apart hs (List.nil_append _ ▸ hapart), List.nil_append]
  show (placeAll (entries first steps) workflow first steps, _) = _
  rw [hbuilt]

/-- Accepted steps whose names and types are texts can be stored. -/
theorem Built.exists_rows {workflow : String} {built : List NewStep}
    (h : Built workflow first steps built) (hs : ∀ step ∈ steps, Formed step) (now : Instant) :
    ∃ rows, built.mapM (stepRow now) = .ok rows := by
  refine Except.exists_mapM_eq_ok fun s hmem => ?_
  obtain ⟨i, hi⟩ := List.mem_iff_getElem?.mp hmem
  obtain ⟨hlt, _⟩ := List.getElem?_eq_some_iff.mp hi
  obtain ⟨step, hstep⟩ : ∃ step, steps[i]? = some step :=
    ⟨_, List.getElem?_eq_getElem (h.length_eq ▸ hlt)⟩
  have hplaced := h.placed i _ s hstep hi
  obtain ⟨name, hname⟩ := (hs _ (List.mem_of_getElem? hstep)).name
  obtain ⟨type, htype⟩ := (hs _ (List.mem_of_getElem? hstep)).type
  have hname' : s.name = .text name := Option.some.inj (hplaced.name_eq.symm.trans hname)
  have htype' : s.type = .text type := Option.some.inj (hplaced.type_eq.symm.trans htype)
  exact ⟨_, stepRow_eq_ok_iff.mpr ⟨name, type, by rw [hname']; rfl, by rw [htype']; rfl, rfl⟩⟩

end StepSet

end Stepwise
