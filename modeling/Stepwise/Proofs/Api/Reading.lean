import Mathlib.Data.List.Forall2
import Mathlib.Tactic.Common
import Stepwise.Api.Submission
import Stepwise.Proofs.Json.Received

/-!
# What is read from a submitted record

A reading goes on after an issue, but never loses one, so a reading of several parts has a result if
and only if each of its parts has. What is read from a record without an issue is as its fields say.
-/

namespace Stepwise.Input

namespace Reading

variable {α β : Type} {a : α} {b : β}

/-- The reading keeps the issues that were found before it, and does not look at them. -/
class Steady (reading : Reading α) : Prop where
  keeps : ∃ a issues, ∀ before, reading.run before = (a, before ++ issues)

instance (a : α) : Steady (pure a) :=
  ⟨a, [], fun before => Prod.ext rfl (List.append_nil before).symm⟩

instance [Inhabited α] (problem : Problem) (path : List Place) :
    Steady (note problem path : Reading α) :=
  ⟨default, [⟨problem, path⟩], fun _ => rfl⟩

instance [Inhabited α] (path : List Place) (r : Except Problem α) : Steady (check path r) := by
  cases r with
  | ok a => exact inferInstanceAs (Steady (pure a))
  | error problem => exact inferInstanceAs (Steady (note problem path))

theorem run_bind (x : Reading α) (f : α → Reading β) (before : List Issue) :
    (x >>= f).run before = (f (x.run before).1).run (x.run before).2 := rfl

instance (x : Reading α) (f : α → Reading β) [hx : x.Steady] [hf : ∀ a, (f a).Steady] :
    Steady (x >>= f) := by
  obtain ⟨a, first, hx⟩ := hx
  obtain ⟨b, later, hf⟩ := hf a
  refine ⟨b, first ++ later, fun before => ?_⟩
  rw [run_bind, hx, hf, List.append_assoc]

theorem complete_eq_ok_iff {x : Reading α} : x.complete = .ok a ↔ x.run [] = (a, []) := by
  unfold complete
  split
  · rename_i found h
    rw [h, Except.ok.injEq, Prod.mk.injEq, and_iff_left rfl]
  · rename_i found issues hne h
    rw [h]
    refine iff_of_false nofun fun heq => ?_
    cases heq
    exact hne rfl

@[simp] theorem complete_pure (a' : α) : (pure a' : Reading α).complete = .ok a ↔ a' = a := by
  rw [complete_eq_ok_iff]
  exact ⟨fun h => (Prod.mk.inj h).1, fun h => h ▸ rfl⟩

theorem complete_check [Inhabited α] {path : List Place} {r : Except Problem α} :
    (check path r).complete = .ok a ↔ r = .ok a := by
  cases r with
  | ok a' => rw [check, complete_pure, Except.ok.injEq]
  | error problem => exact iff_of_false nofun nofun

/-- A reading of two parts has a result if both parts have. -/
theorem complete_bind {x : Reading α} {f : α → Reading β} [hx : x.Steady]
    [hf : ∀ a, (f a).Steady] :
    (x >>= f).complete = .ok b ↔ ∃ a, x.complete = .ok a ∧ (f a).complete = .ok b := by
  obtain ⟨a, issues, hrun⟩ := hx
  obtain ⟨b', later, hlater⟩ := hf a
  have hx : x.run [] = (a, issues) := hrun []
  have hboth : (x >>= f).run [] = (b', issues ++ later) := by rw [run_bind, hx, hlater]
  simp only [complete_eq_ok_iff]
  rw [hboth, hx]
  constructor
  · intro h
    obtain ⟨rfl, hnone⟩ := Prod.mk.inj h
    obtain ⟨rfl, rfl⟩ := List.append_eq_nil_iff.mp hnone
    exact ⟨a, rfl, hlater []⟩
  · rintro ⟨a', hx, hf⟩
    obtain ⟨rfl, rfl⟩ := Prod.mk.inj hx
    exact (hlater []).symm.trans hf

instance (f : α → Reading β) [∀ a, (f a).Steady] (items : List α) :
    Steady (items.mapM f) := by
  induction items with
  | nil => exact inferInstanceAs (Steady (pure []))
  | cons item rest ih =>
    rw [List.mapM_cons]
    infer_instance

/-- A reading of a list has a result if the reading of every item has. -/
theorem complete_mapM {f : α → Reading β} [∀ a, (f a).Steady] {items : List α}
    {out : List β} : (items.mapM f).complete = .ok out ↔
      List.Forall₂ (fun a b => (f a).complete = .ok b) items out := by
  induction items generalizing out with
  | nil =>
    rw [List.mapM_nil, complete_pure, List.forall₂_nil_left_iff]
    exact eq_comm
  | cons item rest ih =>
    rw [List.mapM_cons, complete_bind, List.forall₂_cons_left_iff]
    refine exists_congr fun b => ?_
    rw [complete_bind]
    constructor
    · rintro ⟨hitem, bs, hbs, hout⟩
      exact ⟨bs, hitem, ih.mp hbs, ((complete_pure _).mp hout).symm⟩
    · rintro ⟨bs, hitem, hbs, rfl⟩
      exact ⟨hitem, bs, ih.mpr hbs, (complete_pure _).mpr rfl⟩

/-- What is read of every item of a list holds of every result. -/
theorem forall_of_complete_mapM {f : α → Reading β} [∀ a, (f a).Steady] {p : β → Prop}
    {items : List α} {out : List β} (h : (items.mapM f).complete = .ok out)
    (hf : ∀ a ∈ items, ∀ b, (f a).complete = .ok b → p b) : ∀ b ∈ out, p b := by
  have hall := complete_mapM.mp h
  clear h
  induction hall with
  | nil => nofun
  | cons hitem _ ih =>
    obtain ⟨hfirst, hrest⟩ := List.forall_mem_cons.mp hf
    exact List.forall_mem_cons.mpr ⟨hfirst _ hitem, ih hrest⟩

end Reading

namespace Form

open Reading

variable {α : Type} [Inhabited α] {a : α} {form : Form} {name : String} {names : List String}
variable {field : Value → Except Problem α}

instance (path : List Place) (value : Value) (next : Form → Reading α)
    [h : ∀ form, (next form).Steady] : (read path value next).Steady := by
  cases value with
  | object fields => exact h _
  | _ => exact inferInstanceAs (Steady (note _ _))

theorem complete_read {path : List Place} {value : Value} {next : Form → Reading α} :
    (read path value next).complete = .ok a ↔
      ∃ fields, value = .object fields ∧ (next ⟨fields, path⟩).complete = .ok a := by
  cases value with
  | object fields =>
    constructor
    · intro h
      exact ⟨fields, rfl, h⟩
    · rintro ⟨fields', heq, h⟩
      cases heq
      exact h
  | _ => exact iff_of_false nofun nofun

instance (form : Form) (name : String) (field : Value → Except Problem α) :
    (form.required name field).Steady := by
  unfold required
  dsimp only
  split
  · infer_instance
  · infer_instance

theorem complete_required : (form.required name field).complete = .ok a ↔
    ∃ value, form.fields.get? (.text name) = some value ∧ field value = .ok a := by
  unfold required
  dsimp only
  split
  · rename_i value h
    rw [complete_check]
    constructor
    · intro hvalue
      exact ⟨value, h, hvalue⟩
    · rintro ⟨value', h', hvalue⟩
      rw [h] at h'
      cases h'
      exact hvalue
  · rename_i h
    refine iff_of_false nofun ?_
    rintro ⟨value, h', _⟩
    rw [h] at h'
    cases h'

instance (form : Form) (names : List String) (absent : α) (field : Value → Except Problem α) :
    (form.optional names absent field).Steady := by
  unfold optional
  split
  · infer_instance
  · infer_instance

theorem complete_optional_of_first? {absent : α} (found : String × Value)
    (h : form.first? names = some found) :
    (form.optional names absent field).complete = .ok a ↔ field found.2 = .ok a := by
  simp only [optional, h]
  exact complete_check

theorem complete_optional_of_absent {absent : α} (h : form.first? names = none) :
    (form.optional names absent field).complete = .ok a ↔ absent = a := by
  simp only [optional, h]
  exact complete_pure absent

theorem first?_eq_some {found : String × Value} (h : form.first? names = some found) :
    form.fields.get? (.text found.1) = some found.2 := by
  obtain ⟨name, _, hname⟩ := List.exists_of_findSome?_eq_some h
  obtain ⟨value, hvalue, rfl⟩ := Option.map_eq_some_iff.mp hname
  exact hvalue

end Form

end Stepwise.Input

namespace Stepwise.Api

open Input Reading Form Json

/-! ## Steps -/

instance (form : Form) : (readStep form).Steady := by
  unfold readStep
  infer_instance

/-- A step is read field by field. -/
theorem complete_readStep {form : Form} {s : SubmittedStep} :
    (readStep form).complete = .ok s ↔
      (form.optional ["id"] none text?).complete = .ok s.handle ∧
      (form.required "name" filledText).complete = .ok s.name ∧
      (form.required "type" stepKind).complete = .ok s.kind ∧
      (form.optional ["config"] [] object).complete = .ok s.config ∧
      (form.optional ["parent_id", "parentId"] none text?).complete = .ok s.parent ∧
      (form.optional ["next_step_id", "nextStepId"] none text?).complete = .ok s.next := by
  simp only [readStep, complete_bind, complete_pure]
  constructor
  · rintro ⟨_, h1, _, h2, _, h3, _, h4, _, h5, _, h6, rfl⟩
    exact ⟨h1, h2, h3, h4, h5, h6⟩
  · rintro ⟨h1, h2, h3, h4, h5, h6⟩
    exact ⟨_, h1, _, h2, _, h3, _, h4, _, h5, _, h6, rfl⟩

theorem filledText_eq_ok {value : Value} {s : String} :
    filledText value = .ok s ↔ value = .text s ∧ s ≠ "" := by
  cases value with
  | text t =>
    rw [Value.text.injEq]
    show (if t.isEmpty = true then throw Input.Problem.emptyText else pure t) = Except.ok s ↔ _
    split_ifs with h
    · refine iff_of_false nofun ?_
      rintro ⟨rfl, hne⟩
      exact hne (by simpa using h)
    · constructor
      · intro heq
        cases heq
        exact ⟨rfl, by simpa using h⟩
      · rintro ⟨rfl, _⟩
        rfl
  | _ => exact iff_of_false nofun nofun

/-- What is read as a step has a name, and a configuration that JSON can hold. -/
structure SubmittedStep.Sound (s : SubmittedStep) : Prop where
  name : s.name ≠ ""
  config : Clean (.object s.config)

/-- The fields were read from a submitted record. -/
def Submitted (step : Fields) : Prop := ∃ s : SubmittedStep, s.Sound ∧ step = s.toFields

theorem submitted_toFields {steps : List SubmittedStep} (h : ∀ step ∈ steps, step.Sound) :
    ∀ step ∈ steps.map (·.toFields), Submitted step := by
  intro step hstep
  obtain ⟨s, hs, rfl⟩ := List.mem_map.mp hstep
  exact ⟨s, h s hs, rfl⟩

theorem sound_readStep {form : Form} (hform : Clean (.object form.fields)) {s : SubmittedStep}
    (h : (readStep form).complete = .ok s) : s.Sound := by
  obtain ⟨_, hname, _, hconfig, _⟩ := complete_readStep.mp h
  obtain ⟨value, _, hname⟩ := complete_required.mp hname
  refine ⟨(filledText_eq_ok.mp hname).2, ?_⟩
  cases hfound : form.first? ["config"] with
  | none =>
    rw [← (complete_optional_of_absent hfound).mp hconfig]
    exact .object Fields.named_nil nofun
  | some found =>
    have hvalue := (complete_optional_of_first? _ hfound).mp hconfig
    have hclean : Clean found.2 := hform.get? (first?_eq_some hfound)
    unfold object at hvalue
    split at hvalue
    · rename_i fields heq
      cases hvalue
      rwa [heq] at hclean
    · cases hvalue

instance (path : List Place) (items : List Value) : (readSteps path items).Steady := by
  unfold readSteps
  infer_instance

/-- The steps of a list are read one by one. -/
theorem complete_readSteps {path : List Place} {items : List Value} {steps : List SubmittedStep} :
    (readSteps path items).complete = .ok steps ↔ List.Forall₂ (fun (item : Value × Nat) step =>
      (Form.read (path ++ [.index item.2]) item.1 readStep).complete = .ok step)
      items.zipIdx steps :=
  complete_mapM

theorem sound_readSteps {path : List Place} {items : List Value} (hitems : Clean (.list items))
    {steps : List SubmittedStep} (h : (readSteps path items).complete = .ok steps) :
    ∀ step ∈ steps, step.Sound := by
  refine forall_of_complete_mapM h fun (item, i) hmem step hread => ?_
  obtain ⟨fields, rfl, hread⟩ := complete_read.mp hread
  exact sound_readStep (hitems.items _ (List.fst_mem_of_mem_zipIdx hmem)) hread

/-! ## Step lists -/

/-- The steps in a field that has been read, if there are some. -/
def readGiven (path : List Place) : Option (List Value) → Reading (Option (List SubmittedStep))
  | none => pure none
  | some items => some <$> readSteps path items

instance (path : List Place) (items : Option (List Value)) : (readGiven path items).Steady := by
  cases items with
  | none => exact inferInstanceAs (Steady (pure none))
  | some items =>
    exact inferInstanceAs (Steady (readSteps path items >>= fun steps => pure (some steps)))

theorem complete_readGiven {path : List Place} {items : List Value}
    {steps : Option (List SubmittedStep)} : (readGiven path (some items)).complete = .ok steps ↔
      ∃ list, (readSteps path items).complete = .ok list ∧ some list = steps := by
  show (readSteps path items >>= fun list => pure (some list)).complete = _ ↔ _
  simp only [complete_bind, complete_pure]

variable {form : Form} {field : Value → Except Input.Problem (Option (List Value))}
variable {steps : Option (List SubmittedStep)}

theorem readStepList_eq : readStepList form field =
    form.optional ["steps"] none field >>= readGiven (form.path ++ [.name "steps"]) := by
  refine congrArg (form.optional ["steps"] none field >>= ·) (funext fun items => ?_)
  cases items <;> rfl

instance : (readStepList form field).Steady := by
  rw [readStepList_eq]
  infer_instance

theorem complete_readStepList : (readStepList form field).complete = .ok steps ↔
    ∃ items, (form.optional ["steps"] none field).complete = .ok items ∧
      (readGiven (form.path ++ [.name "steps"]) items).complete = .ok steps := by
  rw [readStepList_eq, complete_bind]

theorem sound_readStepList (hform : Clean (.object form.fields))
    (hfield : ∀ value items, Clean value → field value = .ok (some items) → Clean (.list items))
    (h : (readStepList form field).complete = .ok steps) :
    ∀ list, steps = some list → ∀ step ∈ list, step.Sound := by
  rintro list rfl
  obtain ⟨items, hitems, hlist⟩ := complete_readStepList.mp h
  cases items with
  | none => cases (complete_pure _).mp hlist
  | some items =>
    obtain ⟨_, hread, heq⟩ := complete_readGiven.mp hlist
    cases heq
    cases hfound : form.first? ["steps"] with
    | none => cases (complete_optional_of_absent hfound).mp hitems
    | some found =>
      have hvalue := (complete_optional_of_first? _ hfound).mp hitems
      exact sound_readSteps (hfield _ _ (hform.get? (first?_eq_some hfound)) hvalue) hread

theorem clean_of_list {value : Value} {items : List Value} (hv : Clean value)
    (h : Input.list value = .ok items) : Clean (.list items) := by
  unfold Input.list at h
  split at h
  · cases h
    exact hv
  · cases h

/-! ## Workflows -/

instance (form : Form) : (readNewWorkflow form).Steady := by
  unfold readNewWorkflow
  infer_instance

instance (form : Form) : (readWorkflowPatch form).Steady := by
  unfold readWorkflowPatch
  infer_instance

theorem sound_readNewWorkflow (hform : Clean (.object form.fields)) {new : NewWorkflow}
    (h : (readNewWorkflow form).complete = .ok new) : ∀ step ∈ new.steps, step.Sound := by
  simp only [readNewWorkflow, complete_bind, complete_pure] at h
  obtain ⟨_, _, _, _, _, _, _, _, _, _, _, _, _, _, steps, hsteps, rfl⟩ := h
  have hsound := sound_readStepList hform (fun value items hv hfield => by
    obtain ⟨items', hlist, heq⟩ := Except.ok_of_bind hfield
    cases heq
    exact clean_of_list hv hlist) hsteps
  cases steps with
  | none => nofun
  | some list => exact hsound list rfl

/-- A change of a workflow is read field by field. -/
theorem complete_readWorkflowPatch {patch : WorkflowPatch} :
    (readWorkflowPatch form).complete = .ok patch ↔
      (form.optional ["name"] none (orNull filledText)).complete = .ok patch.name ∧
      (form.optional ["description"] none text?).complete = .ok patch.description ∧
      (form.optional ["icon"] none text?).complete = .ok patch.icon ∧
      (form.optional ["color"] none text?).complete = .ok patch.color ∧
      (form.optional ["trigger"] none (orNull object)).complete = .ok patch.trigger ∧
      (form.optional ["active"] none (orNull truth)).complete = .ok patch.active ∧
      (readStepList form (orNull Input.list)).complete = .ok patch.steps := by
  simp only [readWorkflowPatch, complete_bind, complete_pure]
  constructor
  · rintro ⟨_, h1, _, h2, _, h3, _, h4, _, h5, _, h6, _, h7, rfl⟩
    exact ⟨h1, h2, h3, h4, h5, h6, h7⟩
  · rintro ⟨h1, h2, h3, h4, h5, h6, h7⟩
    exact ⟨_, h1, _, h2, _, h3, _, h4, _, h5, _, h6, _, h7, rfl⟩

theorem sound_readWorkflowPatch (hform : Clean (.object form.fields)) {patch : WorkflowPatch}
    (h : (readWorkflowPatch form).complete = .ok patch) :
    ∀ list, patch.steps = some list → ∀ step ∈ list, step.Sound := by
  obtain ⟨_, _, _, _, _, _, hsteps⟩ := complete_readWorkflowPatch.mp h
  refine sound_readStepList hform (fun value items hv hfield => ?_) hsteps
  unfold orNull at hfield
  split at hfield
  · cases hfield
  · obtain ⟨items', hlist, heq⟩ := Except.ok_of_bind hfield
    cases heq
    exact clean_of_list hv hlist

end Stepwise.Api
