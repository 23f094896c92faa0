import Mathlib.Tactic.Common
import Stepwise.Proofs.Workflow.Accepted
import Stepwise.Workflow.Edit

/-!
# The rows that an accepted step set is stored as

The rows of a set stand in the order of its steps, show what the steps were submitted with, and
refer to one another as the steps do. They are stored after all other rows, and only if none of
their ids is taken.
-/

namespace Stepwise.Workflow

open Store StepSet

/-- The row of an accepted step whose name and type are stored as the given texts. -/
def rowOf (now : Instant) (s : NewStep) (name type : String) : StepRow where
  id := s.id
  workflow := s.workflow
  name := name
  type := type
  config := Json.settle s.config
  position := s.position
  parent := s.parent
  next := s.next
  created := now
  updated := now

/-- The text of a field that is stored. -/
theorem textCell_eq_ok_text_iff {s : NewStep} {column : String} {value : Value} {text : String} :
    textCell s column value = .ok (.text text) ↔ storedText? value = some text := by
  unfold textCell
  cases value with
  | null => simp [ColumnSort.cell, storedText?]
  | _ =>
    unfold ColumnSort.cell
    dsimp only
    split
    · rename_i stored hstored
      simp [hstored]
    · rename_i hnone
      simp [hnone]

theorem stepRow_eq_ok_iff {now : Instant} {s : NewStep} {row : StepRow} :
    stepRow now s = .ok row ↔ ∃ name type, storedText? s.name = some name ∧
      storedText? s.type = some type ∧ row = rowOf now s name type := by
  constructor
  · intro h
    obtain ⟨nameCell, hnameCell, h⟩ := Except.ok_of_bind h
    obtain ⟨typeCell, htypeCell, h⟩ := Except.ok_of_bind h
    obtain ⟨name, hname, h⟩ := Except.ok_of_bind h
    obtain ⟨type, htype, h⟩ := Except.ok_of_bind h
    have hneeded {column : String} {content : Cell} {t : String}
        (ht : needed s column content = .ok t) : content = .text t := by
      cases content <;> cases ht
      rfl
    obtain rfl := hneeded hname
    obtain rfl := hneeded htype
    exact ⟨name, type, textCell_eq_ok_text_iff.mp hnameCell, textCell_eq_ok_text_iff.mp htypeCell,
      (Except.ok.inj h).symm⟩
  · rintro ⟨name, type, hname, htype, rfl⟩
    simp only [stepRow, textCell_eq_ok_text_iff.mpr hname, textCell_eq_ok_text_iff.mpr htype]
    rfl

/-- A row shows what a step was submitted with, apart from its references. -/
structure ShowsStep (now : Instant) (workflow id : String) (position : Nat) (step : Fields)
    (row : StepRow) : Prop where
  id_eq : row.id = id
  workflow_eq : row.workflow = workflow
  position_eq : row.position = position
  name_eq : (step.get? (.text "name")).bind storedText? = some row.name
  type_eq : (step.get? (.text "type")).bind storedText? = some row.type
  config_eq : row.config = Json.settle ((step.field "config").orElse (.object []))
  created_eq : row.created = now
  updated_eq : row.updated = now

/-- A stored reference shows what a field of a submitted step refers to: nothing if it is null,
else the row of the step that it names. -/
structure ShowsLink (steps : List Fields) (rows : List StepRow) (reference : Value)
    (names : Fields → Prop) (link : Option String) : Prop where
  none_iff : link = none ↔ reference = .null
  some_iff : ∀ (j : Nat) (other : Fields) (target : StepRow), steps[j]? = some other →
    rows[j]? = some target → (link = some target.id ↔ names other)
  exists_row : ∀ id, link = some id → ∃ target ∈ rows, target.id = id

/-- Rows show a submitted step set in its order; `first` is the number of the first id. -/
structure ShowsSet (now : Instant) (workflow : String) (first : Nat) (steps : List Fields)
    (rows : List StepRow) : Prop where
  length_eq : rows.length = steps.length
  step : ∀ (i : Nat) (step : Fields) (row : StepRow), steps[i]? = some step →
    rows[i]? = some row → ShowsStep now workflow (freshId (first + i)) i step row
  parent : ∀ (i : Nat) (step : Fields) (row : StepRow), steps[i]? = some step →
    rows[i]? = some row →
    ShowsLink steps rows (step.field "parent_id") (Names step "parent_id") row.parent
  next : ∀ (i : Nat) (step : Fields) (row : StepRow), steps[i]? = some step →
    rows[i]? = some row →
    ShowsLink steps rows (step.field "next_step_id") (Names step "next_step_id") row.next
  container : ∀ row ∈ rows, ∀ id, row.parent = some id → ∃ target ∈ rows, target.id = id ∧
    ∃ kind, StepKind.ofName? target.type = some kind ∧ kind.isContainer = true

namespace ShowsSet

variable {now : Instant} {workflow : String} {first : Nat} {steps : List Fields}
variable {rows : List StepRow}

theorem showsStep (h : ShowsSet now workflow first steps rows) {i : Nat} {row : StepRow}
    (hrow : rows[i]? = some row) :
    ∃ step, steps[i]? = some step ∧ ShowsStep now workflow (freshId (first + i)) i step row := by
  obtain ⟨hi, _⟩ := List.getElem?_eq_some_iff.mp hrow
  have hlt : i < steps.length := h.length_eq ▸ hi
  have hstep : steps[i]? = some steps[i] := List.getElem?_eq_getElem hlt
  exact ⟨_, hstep, h.step i _ row hstep hrow⟩

theorem workflow_eq (h : ShowsSet now workflow first steps rows) {row : StepRow}
    (hrow : row ∈ rows) : row.workflow = workflow := by
  obtain ⟨i, hi⟩ := List.mem_iff_getElem?.mp hrow
  obtain ⟨_, _, hs⟩ := h.showsStep hi
  exact hs.workflow_eq

theorem exists_freshId (h : ShowsSet now workflow first steps rows) {row : StepRow}
    (hrow : row ∈ rows) : ∃ i < rows.length, row.id = freshId (first + i) := by
  obtain ⟨i, hi⟩ := List.mem_iff_getElem?.mp hrow
  obtain ⟨_, _, hs⟩ := h.showsStep hi
  exact ⟨i, (List.getElem?_eq_some_iff.mp hi).1, hs.id_eq⟩

theorem positions_eq (h : ShowsSet now workflow first steps rows) :
    rows.map (·.position) = (List.range rows.length).map Int.ofNat := by
  refine List.ext_getElem (by simp) fun i hi hi' => ?_
  have hlt : i < rows.length := by simpa using hi
  obtain ⟨_, _, hs⟩ := h.showsStep (List.getElem?_eq_getElem hlt)
  simpa using hs.position_eq

theorem nodup_ids (h : ShowsSet now workflow first steps rows) : (rows.map (·.id)).Nodup := by
  rw [List.Nodup, List.pairwise_map, List.pairwise_iff_getElem]
  intro i j hi hj hlt heq
  obtain ⟨_, _, hsi⟩ := h.showsStep (List.getElem?_eq_getElem hi)
  obtain ⟨_, _, hsj⟩ := h.showsStep (List.getElem?_eq_getElem hj)
  have hij := freshId_inj (hsi.id_eq.symm.trans (heq.trans hsj.id_eq))
  omega

/-- Rows that show a set are read in its order, whatever steps of other workflows are stored. -/
theorem stepsOf_eq (h : ShowsSet now workflow first steps rows) {tables : Tables}
    (ht : tables.steps.filter (·.workflow == workflow) = rows) :
    stepsOf tables workflow = rows := by
  unfold stepsOf
  rw [ht]
  apply List.mergeSort_of_pairwise
  have hsorted : (rows.map (·.position)).Pairwise (· ≤ ·) := by
    rw [h.positions_eq, List.pairwise_map]
    exact List.pairwise_le_range.imp fun hab => Int.ofNat_le.mpr hab
  rw [List.pairwise_map] at hsorted
  exact hsorted.imp fun hab => decide_eq_true hab

end ShowsSet

end Stepwise.Workflow

namespace Stepwise.StepSet.Built

open Store Workflow

variable {now : Instant} {workflow : String} {first : Nat} {steps : List Fields}
variable {built : List NewStep} {rows : List StepRow}

/-- Every row comes from the step of its index. -/
theorem exists_of_getElem? (h : Built workflow first steps built)
    (hrows : built.mapM (stepRow now) = .ok rows) {i : Nat} {step : Fields} {row : StepRow}
    (hstep : steps[i]? = some step) (hrow : rows[i]? = some row) :
    ∃ s name type, Placed (entries first steps) workflow (freshId (first + i)) i step s ∧
      storedText? s.name = some name ∧ storedText? s.type = some type ∧
      row = rowOf now s name type := by
  have hall := Except.mapM_eq_ok_iff.mp hrows
  obtain ⟨hi, rfl⟩ := List.getElem?_eq_some_iff.mp hrow
  have hi' : i < built.length := hall.length_eq ▸ hi
  obtain ⟨name, type, hname, htype, heq⟩ := stepRow_eq_ok_iff.mp (hall.get hi' hi)
  exact ⟨built[i], name, type, h.placed i step _ hstep (List.getElem?_eq_getElem hi'), hname,
    htype, heq⟩

theorem id_eq (h : Built workflow first steps built)
    (hrows : built.mapM (stepRow now) = .ok rows) {i : Nat} {step : Fields} {row : StepRow}
    (hstep : steps[i]? = some step) (hrow : rows[i]? = some row) :
    row.id = freshId (first + i) := by
  obtain ⟨s, name, type, hs, _, _, rfl⟩ := h.exists_of_getElem? hrows hstep hrow
  exact hs.id_eq

theorem length_rows (h : Built workflow first steps built)
    (hrows : built.mapM (stepRow now) = .ok rows) : rows.length = steps.length :=
  (Except.mapM_eq_ok_iff.mp hrows).length_eq.symm.trans h.length_eq

/-- The row of a step that is referred to. -/
theorem exists_row (h : Built workflow first steps built)
    (hrows : built.mapM (stepRow now) = .ok rows) {j : Nat} {other : Fields}
    (hother : steps[j]? = some other) : ∃ target, rows[j]? = some target := by
  obtain ⟨hj, _⟩ := List.getElem?_eq_some_iff.mp hother
  have hlength := h.length_rows hrows
  exact ⟨_, List.getElem?_eq_getElem (by omega)⟩

theorem showsLink (h : Built workflow first steps built)
    (hrows : built.mapM (stepRow now) = .ok rows) {step : Fields} {field : String}
    {target : Option Known} {link : Option String}
    (hr : Refers (entries first steps) (step.field field) target)
    (hl : link = target.map (·.id)) :
    ShowsLink steps rows (step.field field) (Names step field) link := by
  subst hl
  refine ⟨Built.eq_none_iff hr, fun j other row hother hrow => ?_, fun id hlink => ?_⟩
  · rw [h.id_eq hrows hother hrow]
    exact h.eq_some_iff hr hother
  · obtain ⟨found, hfound, rfl⟩ := Option.map_eq_some_iff.mp hlink
    obtain ⟨j, other, hother, hid, _⟩ := Built.exists_of_refers hr hfound
    obtain ⟨row, hrow⟩ := h.exists_row hrows hother
    exact ⟨row, List.mem_of_getElem? hrow, (h.id_eq hrows hother hrow).trans hid.symm⟩

/-- A parent is stored as a row of a kind that owns children. -/
theorem exists_container (h : Built workflow first steps built)
    (hrows : built.mapM (stepRow now) = .ok rows) {row : StepRow} (hmem : row ∈ rows)
    {id : String} (hparent : row.parent = some id) : ∃ target ∈ rows, target.id = id ∧
      ∃ kind, StepKind.ofName? target.type = some kind ∧ kind.isContainer = true := by
  obtain ⟨i, hi⟩ := List.mem_iff_getElem?.mp hmem
  obtain ⟨hlt, _⟩ := List.getElem?_eq_some_iff.mp hi
  have hlength := h.length_rows hrows
  have hstep : steps[i]? = some steps[i] := List.getElem?_eq_getElem (by omega)
  obtain ⟨s, name, type, hs, _, _, rfl⟩ := h.exists_of_getElem? hrows hstep hi
  obtain ⟨target, hr, hl, hcontainer⟩ := hs.parent_eq
  obtain ⟨found, hfound, rfl⟩ := Option.map_eq_some_iff.mp (hl.symm.trans hparent)
  obtain ⟨j, other, hother, hid, _, htype⟩ := Built.exists_of_refers hr hfound
  obtain ⟨row, hj⟩ := h.exists_row hrows hother
  obtain ⟨s', _, type', hs', _, htype', rfl⟩ := h.exists_of_getElem? hrows hother hj
  obtain ⟨text, kind, htext, hkind, howns⟩ := exists_of_isContainerType (hcontainer found hfound)
  have hsame : s'.type = .text text :=
    (Option.some.inj (hs'.type_eq.symm.trans htype)).trans htext
  rw [hsame] at htype'
  obtain rfl : text = type' := Option.some.inj htype'
  exact ⟨_, List.mem_of_getElem? hj, hs'.id_eq.trans hid.symm, kind, hkind, howns⟩

/-- The rows of an accepted set show it. -/
theorem showsSet (h : Built workflow first steps built)
    (hrows : built.mapM (stepRow now) = .ok rows) : ShowsSet now workflow first steps rows := by
  refine ⟨h.length_rows hrows, fun i step row hstep hi => ?_, fun i step row hstep hi => ?_,
    fun i step row hstep hi => ?_, fun row hmem id => h.exists_container hrows hmem⟩
  · obtain ⟨s, name, type, hs, hname, htype, rfl⟩ := h.exists_of_getElem? hrows hstep hi
    exact {
      id_eq := hs.id_eq
      workflow_eq := hs.workflow_eq
      position_eq := congrArg Int.ofNat hs.position_eq
      name_eq := by rw [hs.name_eq, Option.bind_some, hname]; rfl
      type_eq := by rw [hs.type_eq, Option.bind_some, htype]; rfl
      config_eq := by rw [← hs.config_eq]; rfl
      created_eq := rfl
      updated_eq := rfl }
  · obtain ⟨s, name, type, hs, _, _, rfl⟩ := h.exists_of_getElem? hrows hstep hi
    obtain ⟨target, hr, hl, _⟩ := hs.parent_eq
    exact h.showsLink hrows hr hl
  · obtain ⟨s, name, type, hs, _, _, rfl⟩ := h.exists_of_getElem? hrows hstep hi
    obtain ⟨target, hr, hl⟩ := hs.next_eq
    exact h.showsLink hrows hr hl

end Stepwise.StepSet.Built
