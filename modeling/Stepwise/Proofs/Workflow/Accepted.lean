import Mathlib.Data.List.Forall2
import Mathlib.Data.List.Pairwise
import Mathlib.Tactic.Common
import Stepwise.Proofs.Number.Digits
import Stepwise.Workflow.StepSet

/-!
# What an accepted step set is made into

A step set is accepted in two passes: the first notes the steps that have a name of their own, the
second resolves the references to them. Of an accepted set, every step is made into one with a fresh
id and with its index for a position, and every reference into the id that the step of that name is
given.
-/

namespace Stepwise

theorem Extent.coincide_iff {x y : Option Extent} :
    Extent.coincide x y = true ↔ ∃ e, x = some e ∧ y = some e := by
  cases x with
  | none => simp [Extent.coincide]
  | some a =>
    cases y with
    | none => simp [Extent.coincide]
    | some b =>
      rw [Extent.coincide, beq_iff_eq]
      constructor
      · rintro rfl
        exact ⟨a, rfl, rfl⟩
      · rintro ⟨e, ha, hb⟩
        exact (Option.some.inj ha).trans (Option.some.inj hb).symm

/-- Keys are one if both are null, both NaN, both the same text, or both at one place of the number
line. -/
theorem Key.same_iff {a b : Key} : a.same b = true ↔
    a = .null ∧ b = .null ∨ a = .double .nan ∧ b = .double .nan ∨
      (∃ s, a = .text s ∧ .text s = b) ∨ ∃ e, a.extent? = some e ∧ b.extent? = some e := by
  rw [← Extent.coincide_iff]
  cases a <;> cases b <;> simp [Key.same, Key.extent?, Extent.coincide]

theorem Key.same_trans {a b c : Key} (hab : a.same b = true) (hbc : b.same c = true) :
    a.same c = true := by
  rw [Key.same_iff] at *
  obtain ⟨rfl, rfl⟩ | ⟨rfl, rfl⟩ | ⟨s, rfl, rfl⟩ | ⟨e, ha, hb⟩ := hab
  · simpa [Key.extent?] using hbc
  · simpa [Key.extent?] using hbc
  · simpa [Key.extent?] using hbc
  · obtain ⟨rfl, _⟩ | ⟨rfl, _⟩ | ⟨s, rfl, _⟩ | ⟨e', hb', hc⟩ := hbc
    · cases hb
    · cases hb
    · cases hb
    · have he : e = e' := Option.some.inj (hb.symm.trans hb')
      exact .inr (.inr (.inr ⟨e, ha, he ▸ hc⟩))

theorem exists_mem_of_forall₂ {α β : Type} {r : α → β → Prop} {as : List α} {bs : List β}
    (h : List.Forall₂ r as bs) {b : β} (hb : b ∈ bs) : ∃ a ∈ as, r a b := by
  induction h with
  | nil => cases hb
  | cons hr _ ih =>
    obtain rfl | hb := List.mem_cons.mp hb
    · exact ⟨_, List.mem_cons_self, hr⟩
    · obtain ⟨a, ha, hr⟩ := ih hb
      exact ⟨a, List.mem_cons_of_mem _ ha, hr⟩

/-- A sequence that has a result has one of each of its parts. -/
theorem Except.ok_of_bind {ε α β : Type} {x : Except ε α} {f : α → Except ε β} {b : β}
    (h : x >>= f = .ok b) : ∃ a, x = .ok a ∧ f a = .ok b := by
  cases x with
  | error fault => cases h
  | ok a => exact ⟨a, rfl, h⟩

theorem Except.ok_of_map {ε α β : Type} {x : Except ε α} {f : α → β} {b : β}
    (h : f <$> x = .ok b) : ∃ a, x = .ok a ∧ f a = b := by
  cases x with
  | error fault => cases h
  | ok a => exact ⟨a, rfl, Except.ok.inj h⟩

theorem Except.mapM_eq_ok_iff {ε α β : Type} {f : α → Except ε β} {items : List α}
    {out : List β} : items.mapM f = .ok out ↔ List.Forall₂ (fun a b => f a = .ok b) items out := by
  induction items generalizing out with
  | nil =>
    rw [List.forall₂_nil_left_iff]
    exact ⟨fun h => by cases h; rfl, fun h => by rw [h]; rfl⟩
  | cons a rest ih =>
    rw [List.mapM_cons, List.forall₂_cons_left_iff]
    constructor
    · intro h
      obtain ⟨b, hb, h⟩ := Except.ok_of_bind h
      obtain ⟨out', hout, h⟩ := Except.ok_of_bind h
      cases h
      exact ⟨b, out', hb, ih.mp hout, rfl⟩
    · rintro ⟨b, out', hb, hout, rfl⟩
      rw [hb, ih.mpr hout]
      rfl

namespace StepSet

theorem freshId_inj {j k : Nat} (h : freshId j = freshId k) : j = k :=
  Decimal.append_toString_inj "u-" h

/-- The name of its own that a submitted step has; an empty one does not count. -/
def ownName? (step : Fields) : Option Key :=
  if (step.field "id").isTruthy then (step.field "id").toKey? else none

/-- What is noted of a submitted step that is given an id: nothing, if it has no name. -/
def noted? (id : String) (step : Fields) : Option Known := do
  let key ← ownName? step
  let type ← step.get? (.text "type")
  return ⟨key, id, type⟩

/-- What is noted of all steps of a set; `first` is the number of the first id. -/
def entries (first : Nat) : List Fields → List Known
  | [] => []
  | step :: rest => (noted? (freshId first) step).toList ++ entries (first + 1) rest

theorem mem_entries {first : Nat} {steps : List Fields} {known : Known} :
    known ∈ entries first steps ↔
      ∃ i step, steps[i]? = some step ∧ noted? (freshId (first + i)) step = some known := by
  induction steps generalizing first with
  | nil => simp [entries]
  | cons step rest ih =>
    rw [entries, List.mem_append, ih, Option.mem_toList]
    constructor
    · rintro (hhead | ⟨i, later, hlater, hentry⟩)
      · exact ⟨0, step, rfl, hhead⟩
      · refine ⟨i + 1, later, hlater, ?_⟩
        rwa [Nat.add_assoc, Nat.add_comm 1 i] at hentry
    · rintro ⟨i, later, hlater, hentry⟩
      cases i with
      | zero =>
        cases hlater
        exact .inl hentry
      | succ i =>
        refine .inr ⟨i, later, hlater, ?_⟩
        rwa [Nat.add_assoc, Nat.add_comm 1 i]

theorem same_of_find? {known : List Known} {key : Key} {found : Known}
    (h : find? known key = some found) : found.key.same key = true :=
  List.find?_some (p := fun k : Known => k.key.same key) h

/-- No two steps are noted under one name. -/
def Apart (known : List Known) : Prop := known.Pairwise fun a b => a.key.same b.key = false

theorem required_eq_ok {step : Fields} {name : String} {value : Value} :
    required step name = .ok value ↔ step.get? (.text name) = some value := by
  unfold required
  cases step.get? (.text name) <;> simp

/-! ## The first pass -/

theorem register_eq_ok {known known' : List Known} {id : String} {step : Fields}
    (h : register known id step = .ok known') :
    known' = known ++ (noted? id step).toList ∧ (Apart known → Apart known') := by
  obtain ⟨type, htype, h⟩ := Except.ok_of_bind h
  rw [required_eq_ok] at htype
  by_cases hname : (step.field "id").isTruthy = true
  · rw [if_pos hname] at h
    cases hkey : (step.field "id").toKey? with
    | none =>
      rw [hkey] at h
      cases h
    | some key =>
      rw [hkey] at h
      dsimp only at h
      by_cases hfound : (find? known key).isSome = true
      · rw [if_pos hfound] at h
        cases h
      · rw [if_neg hfound] at h
        cases h
        have hentry : noted? id step = some ⟨key, id, type⟩ := by
          simp [noted?, ownName?, hname, hkey, htype]
        refine ⟨by rw [hentry]; rfl, fun hapart => ?_⟩
        have hnew : ∀ old ∈ known, old.key.same key = false := by
          simpa [find?] using hfound
        rw [Apart, List.pairwise_append]
        exact ⟨hapart, List.pairwise_singleton _ _, fun old hold new hnewMem =>
          List.mem_singleton.mp hnewMem ▸ hnew old hold⟩
  · rw [if_neg hname] at h
    cases h
    have hentry : noted? id step = none := by simp [noted?, ownName?, hname]
    rw [hentry]
    exact ⟨(List.append_nil known).symm, fun hapart => hapart⟩

theorem registerAll_eq_ok {next next' : Nat} {known known' : List Known} {steps : List Fields}
    (h : registerAll next known steps = (.ok known', next')) :
    known' = known ++ entries next steps ∧ next' = next + steps.length ∧
      (Apart known → Apart known') := by
  induction steps generalizing next known with
  | nil =>
    cases h
    exact ⟨(List.append_nil _).symm, rfl, fun hapart => hapart⟩
  | cons step rest ih =>
    rw [registerAll] at h
    cases hone : register known (freshId next) step with
    | error fault =>
      rw [hone] at h
      cases h
    | ok noted =>
      rw [hone] at h
      obtain ⟨hnoted, hapart⟩ := register_eq_ok hone
      obtain ⟨hrest, hnext, hapart'⟩ := ih h
      refine ⟨?_, ?_, fun hknown => hapart' (hapart hknown)⟩
      · rw [hrest, hnoted, List.append_assoc, entries]
      · rw [hnext, List.length_cons]
        omega

/-! ## The second pass -/

/-- A reference to one of the noted steps, or none. -/
inductive Refers (known : List Known) (reference : Value) : Option Known → Prop
  | nothing (h : reference = .null) : Refers known reference none
  | named {key : Key} {target : Known} (h : reference ≠ .null)
      (hkey : reference.toKey? = some key) (hfound : find? known key = some target) :
      Refers known reference (some target)

theorem refers_of_resolve {known : List Known} {step : Fields} {field : String} {name : Value}
    {target : Option Known} (h : resolve known step field name = .ok target) :
    Refers known (step.field field) target := by
  unfold resolve at h
  split at h
  · cases h
    exact .nothing (by assumption)
  · rename_i hnull
    split at h
    · cases h
    · rename_i key hkey
      split at h
      · rename_i found hfound
        cases h
        exact .named hnull hkey hfound
      · cases h

/-- What the second pass makes of a submitted step. -/
structure Placed (known : List Known) (workflow id : String) (position : Nat) (step : Fields)
    (s : NewStep) : Prop where
  id_eq : s.id = id
  workflow_eq : s.workflow = workflow
  position_eq : s.position = position
  name_eq : step.get? (.text "name") = some s.name
  type_eq : step.get? (.text "type") = some s.type
  config_eq : s.config = (step.field "config").orElse (.object [])
  parent_eq : ∃ target, Refers known (step.field "parent_id") target ∧
    s.parent = target.map (·.id) ∧
    ∀ parent, target = some parent → isContainerType parent.type = .ok true
  next_eq : ∃ target, Refers known (step.field "next_step_id") target ∧
    s.next = target.map (·.id)

theorem placed_of_place {known : List Known} {workflow id : String} {position : Nat}
    {step : Fields} {s : NewStep} (h : place known workflow id position step = .ok s) :
    Placed known workflow id position step s := by
  unfold place at h
  obtain ⟨name, hname, h⟩ := Except.ok_of_bind h
  obtain ⟨parent, hparent, h⟩ := Except.ok_of_bind h
  -- Whether there is a parent or not, what follows the check of its type is the same.
  have hchecked : (∀ target, parent = some target → isContainerType target.type = .ok true) ∧
      (do
        let type ← required step "type"
        let next ← resolve known step "next_step_id" name
        let config := (step.field "config").orElse (.object [])
        return ⟨id, workflow, name, type, config, position, parent.map (·.id),
          next.map (·.id)⟩ : Except Fault NewStep) = .ok s := by
    cases parent with
    | none => exact ⟨nofun, h⟩
    | some target =>
      obtain ⟨isContainer, hcontainer, h⟩ := Except.ok_of_bind h
      cases isContainer with
      | false => cases h
      | true => exact ⟨fun found hfound => Option.some.inj hfound ▸ hcontainer, h⟩
  obtain ⟨hcontainer, hrest⟩ := hchecked
  obtain ⟨type, htype, hrest⟩ := Except.ok_of_bind hrest
  obtain ⟨next, hnext, hrest⟩ := Except.ok_of_bind hrest
  cases hrest
  exact {
    id_eq := rfl
    workflow_eq := rfl
    position_eq := rfl
    name_eq := required_eq_ok.mp hname
    type_eq := required_eq_ok.mp htype
    config_eq := rfl
    parent_eq := ⟨parent, refers_of_resolve hparent, rfl, hcontainer⟩
    next_eq := ⟨next, refers_of_resolve hnext, rfl⟩ }

/-! ## Accepted sets -/

/-- The steps that an accepted set is made into; `first` is the number of the first id. -/
structure Built (workflow : String) (first : Nat) (steps : List Fields) (built : List NewStep) :
    Prop where
  length_eq : built.length = steps.length
  apart : Apart (entries first steps)
  placed : ∀ i step s, steps[i]? = some step → built[i]? = some s →
    Placed (entries first steps) workflow (freshId (first + i)) i step s

theorem built_of_build {workflow : String} {first next : Nat} {steps : List Fields}
    {built : List NewStep} (h : build workflow first steps = (.ok built, next)) :
    Built workflow first steps built ∧ next = first + steps.length := by
  unfold build at h
  cases hnoted : registerAll first [] steps with
  | mk noted next' =>
    rw [hnoted] at h
    cases noted with
    | error fault => cases h
    | ok known =>
      obtain ⟨hknown, hnext, hapart⟩ := registerAll_eq_ok hnoted
      rw [List.nil_append] at hknown
      subst hknown
      obtain ⟨hplaced, rfl⟩ := Prod.mk.inj h
      have hall := Except.mapM_eq_ok_iff.mp hplaced
      have hlength := hall.length_eq
      rw [List.length_zipIdx] at hlength
      refine ⟨⟨hlength.symm, hapart .nil, fun i step s hstep hs => ?_⟩, hnext⟩
      obtain ⟨hi, rfl⟩ := List.getElem?_eq_some_iff.mp hs
      have hplace := hall.get (i := i) (by simpa [hlength] using hi) hi
      obtain ⟨hlt, hstep'⟩ := List.getElem?_eq_some_iff.mp hstep
      simp only [List.get_eq_getElem, List.getElem_zipIdx, Nat.zero_add, hstep'] at hplace
      exact placed_of_place hplace

/-- A submitted step refers to another by the name of its own that this one has. -/
def Names (step : Fields) (field : String) (other : Fields) : Prop :=
  ∃ key own, (step.field field).toKey? = some key ∧ ownName? other = some own ∧
    own.same key = true

theorem ownName?_ne_null {step : Fields} {own : Key} (h : ownName? step = some own) :
    own ≠ .null := by
  rintro rfl
  unfold ownName? at h
  split_ifs at h with htruthy
  cases hname : step.field "id" <;> rw [hname] at h htruthy <;> cases h
  cases htruthy

theorem noted?_eq_some {id : String} {step : Fields} {known : Known} :
    noted? id step = some known ↔ ownName? step = some known.key ∧ known.id = id ∧
      step.get? (.text "type") = some known.type := by
  obtain ⟨key, id', type⟩ := known
  simp only [noted?, Option.bind_eq_bind, Option.bind_eq_some_iff, Option.pure_def,
    Option.some.injEq, Known.mk.injEq]
  constructor
  · rintro ⟨key', hkey, type', htype, rfl, rfl, rfl⟩
    exact ⟨hkey, rfl, htype⟩
  · rintro ⟨hkey, rfl, htype⟩
    exact ⟨key, hkey, type, htype, rfl, rfl, rfl⟩

theorem Apart.eq_of_same {known : List Known} (h : Apart known) {a b : Known} (ha : a ∈ known)
    (hb : b ∈ known) (hab : a.key.same b.key = true) : a = b := by
  by_contra hne
  have hsymm : Std.Symm fun a b : Known => a.key.same b.key = false :=
    ⟨fun a b h => by rwa [Key.same_comm]⟩
  have hfalse := h.forall ha hb hne
  rw [hab] at hfalse
  cases hfalse

namespace Built

variable {workflow : String} {first : Nat} {steps : List Fields} {built : List NewStep}
variable {step : Fields} {field : String} {target : Option Known}

/-- A reference comes to the id of the step that it names. -/
theorem exists_of_refers (hr : Refers (entries first steps) (step.field field) target)
    {found : Known} (hfound : target = some found) : ∃ j other, steps[j]? = some other ∧
      found.id = freshId (first + j) ∧ Names step field other ∧
      other.get? (.text "type") = some found.type := by
  cases hr with
  | nothing _ => cases hfound
  | named _ hkey hfind =>
    cases hfound
    obtain ⟨j, other, hother, hentry⟩ := mem_entries.mp (List.mem_of_find?_eq_some hfind)
    obtain ⟨hname, hid, htype⟩ := noted?_eq_some.mp hentry
    exact ⟨j, other, hother, hid, ⟨_, _, hkey, hname, same_of_find? hfind⟩, htype⟩

theorem eq_none_iff (hr : Refers (entries first steps) (step.field field) target) :
    target.map (·.id) = none ↔ step.field field = .null := by
  cases hr with
  | nothing h => simp [h]
  | named h _ _ => simp [h]

/-- It comes to the id of no other step. -/
theorem eq_some_iff (h : Built workflow first steps built)
    (hr : Refers (entries first steps) (step.field field) target) {j : Nat} {other : Fields}
    (hother : steps[j]? = some other) :
    target.map (·.id) = some (freshId (first + j)) ↔ Names step field other := by
  constructor
  · intro heq
    obtain ⟨found, hfound, hid⟩ := Option.map_eq_some_iff.mp heq
    obtain ⟨k, named, hnamed, hid', hnames, _⟩ := exists_of_refers hr hfound
    have hjk : j = k := by
      have := freshId_inj (hid.symm.trans hid')
      omega
    rw [← hjk, hother] at hnamed
    exact Option.some.inj hnamed ▸ hnames
  · rintro ⟨key, own, hkey, hown, hsame⟩
    obtain ⟨hj, _⟩ := List.getElem?_eq_some_iff.mp hother
    have hlt : j < built.length := h.length_eq ▸ hj
    have htype := (h.placed j other built[j] hother (List.getElem?_eq_getElem hlt)).type_eq
    have hmem : (⟨own, freshId (first + j), _⟩ : Known) ∈ entries first steps :=
      mem_entries.mpr ⟨j, other, hother, noted?_eq_some.mpr ⟨hown, rfl, htype⟩⟩
    cases hr with
    | nothing hnull =>
      rw [hnull] at hkey
      cases hkey
      obtain ⟨rfl, _⟩ | ⟨_, hnan⟩ | ⟨s, _, hs⟩ | ⟨e, _, he⟩ := Key.same_iff.mp hsame
      · exact absurd rfl (ownName?_ne_null hown)
      · cases hnan
      · cases hs
      · cases he
    | named _ hkey' hfind =>
      rw [hkey'] at hkey
      cases hkey
      have hfound := same_of_find? hfind
      rw [Key.same_comm] at hfound
      have heq := h.apart.eq_of_same hmem (List.mem_of_find?_eq_some hfind)
        (Key.same_trans hsame hfound)
      simp [← heq]

end Built

/-- A type that may be a parent is the name of a kind that owns children. -/
theorem exists_of_isContainerType {type : Value} (h : isContainerType type = .ok true) :
    ∃ s kind, type = .text s ∧ StepKind.ofName? s = some kind ∧ kind.isContainer = true := by
  unfold isContainerType at h
  split at h
  · rename_i s
    cases hkind : StepKind.ofName? s with
    | none =>
      rw [hkind] at h
      cases h
    | some kind =>
      rw [hkind] at h
      exact ⟨s, kind, rfl, hkind, Except.ok.inj h⟩
  · split at h
    · cases h
    · cases h

end StepSet

end Stepwise
