import Mathlib.Data.List.Nodup
import Mathlib.Tactic.Common
import Stepwise.Proofs.Execution.Record
import Stepwise.Proofs.Workflow.Writes

/-!
# References between rows

No table knows of another, so nothing but the operations themselves keeps a step or an execution
from outliving its workflow, or a reference of a step from leading nowhere. Here is what it means
that all references lead somewhere, and that each kind of write keeps it so.
-/

namespace Stepwise.Store

open Workflow StepSet

/-- Steps stand at the positions from zero on. -/
def Consecutive (rows : List StepRow) : Prop :=
  rows.map (·.position) = (List.range rows.length).map Int.ofNat

/-- Every step and every execution belongs to a stored workflow. The steps of a workflow stand at
the positions from zero on, refer to steps of the same workflow, and have parents that own children;
no two steps share an id. -/
structure Intact (tables : Tables) : Prop where
  stepOwner : ∀ row ∈ tables.steps, ∃ w ∈ tables.workflows, w.id = row.workflow
  executionOwner : ∀ e ∈ tables.executions, ∃ w ∈ tables.workflows, w.id = e.workflow
  positions : ∀ id, Consecutive (tables.steps.filter (·.workflow == id))
  parent : ∀ row ∈ tables.steps, ∀ id, row.parent = some id →
    ∃ target ∈ tables.steps, target.workflow = row.workflow ∧ target.id = id ∧
      ∃ kind, StepKind.ofName? target.type = some kind ∧ kind.isContainer = true
  next : ∀ row ∈ tables.steps, ∀ id, row.next = some id →
    ∃ target ∈ tables.steps, target.workflow = row.workflow ∧ target.id = id
  ids : (tables.steps.map (·.id)).Nodup

theorem intact_empty : Intact Tables.empty where
  stepOwner := nofun
  executionOwner := nofun
  positions := fun _ => rfl
  parent := nofun
  next := nofun
  ids := .nil

namespace Intact

variable {tables tables' : Tables}

/-- Nothing is lost if no step changes, no workflow goes, and executions only belong where some
belonged before. -/
theorem mono (h : Intact tables) (hs : tables'.steps = tables.steps)
    (hw : ∀ w ∈ tables.workflows, ∃ w' ∈ tables'.workflows, w'.id = w.id)
    (he : ∀ e ∈ tables'.executions, ∃ w ∈ tables'.workflows, w.id = e.workflow) :
    Intact tables' where
  stepOwner := by
    intro row hrow
    obtain ⟨w, hmem, hid⟩ := h.stepOwner row (hs ▸ hrow)
    obtain ⟨w', hmem', hid'⟩ := hw w hmem
    exact ⟨w', hmem', hid'.trans hid⟩
  executionOwner := he
  positions := hs ▸ h.positions
  parent := hs ▸ h.parent
  next := hs ▸ h.next
  ids := hs ▸ h.ids

/-- Only the three tables matter. -/
theorem congr (h : Intact tables) (hw : tables'.workflows = tables.workflows)
    (hs : tables'.steps = tables.steps) (he : tables'.executions = tables.executions) :
    Intact tables' :=
  h.mono hs (fun w hmem => ⟨w, hw ▸ hmem, rfl⟩) (hw ▸ he ▸ h.executionOwner)

/-- A workflow without steps is all that is left of one whose steps are taken away. -/
theorem withoutSteps (h : Intact tables) (id : String) : Intact (withoutSteps id tables) where
  stepOwner row hrow := h.stepOwner row (List.mem_of_mem_filter hrow)
  executionOwner := h.executionOwner
  positions other := by
    show Consecutive ((tables.steps.filter (·.workflow != id)).filter (·.workflow == other))
    by_cases heq : other = id
    · rw [heq, own_of_others]
      rfl
    · rw [own_of_others_of_ne heq]
      exact h.positions other
  parent row hrow target hparent := by
    obtain ⟨hmem, hother⟩ := List.mem_filter.mp hrow
    obtain ⟨t, ht, hworkflow, hrest⟩ := h.parent row hmem target hparent
    exact ⟨t, List.mem_filter.mpr ⟨ht, by rwa [hworkflow]⟩, hworkflow, hrest⟩
  next row hrow target hnext := by
    obtain ⟨hmem, hother⟩ := List.mem_filter.mp hrow
    obtain ⟨t, ht, hworkflow, hrest⟩ := h.next row hmem target hnext
    exact ⟨t, List.mem_filter.mpr ⟨ht, by rwa [hworkflow]⟩, hworkflow, hrest⟩
  ids := h.ids.sublist (List.filter_sublist.map _)

/-- The rows of an accepted set are stored for a workflow that has no steps. -/
theorem insertSteps (h : Intact tables) {now : Instant} {id : String} {first : Nat}
    {steps : List Fields} {rows : List StepRow} (hs : ShowsSet now id first steps rows)
    (hw : ∃ w ∈ tables.workflows, w.id = id) (hnone : ∀ row ∈ tables.steps, row.workflow ≠ id)
    (hfresh : ∀ row ∈ rows, ∀ old ∈ tables.steps, old.id ≠ row.id) :
    Intact { tables with steps := tables.steps ++ rows } where
  stepOwner := by
    refine List.forall_mem_append.mpr ⟨h.stepOwner, fun row hrow => ?_⟩
    rw [hs.workflow_eq hrow]
    exact hw
  executionOwner := h.executionOwner
  positions other := by
    show Consecutive ((tables.steps ++ rows).filter (·.workflow == other))
    rw [List.filter_append]
    by_cases heq : other = id
    · have hold : tables.steps.filter (·.workflow == other) = [] :=
        List.filter_eq_nil_iff.mpr fun row hrow => by simpa [heq] using hnone row hrow
      have hnew : rows.filter (·.workflow == other) = rows :=
        List.filter_eq_self.mpr fun row hrow => by simp [heq, hs.workflow_eq hrow]
      rw [hold, hnew]
      exact hs.positions_eq
    · have hnew : rows.filter (·.workflow == other) = [] :=
        List.filter_eq_nil_iff.mpr fun row hrow => by simp [hs.workflow_eq hrow, Ne.symm heq]
      rw [hnew, List.append_nil]
      exact h.positions other
  parent := by
    refine List.forall_mem_append.mpr ⟨fun row hrow target hparent => ?_,
      fun row hrow target hparent => ?_⟩
    · obtain ⟨t, ht, hrest⟩ := h.parent row hrow target hparent
      exact ⟨t, List.mem_append_left _ ht, hrest⟩
    · obtain ⟨t, ht, hid, hkind⟩ := hs.container row hrow target hparent
      exact ⟨t, List.mem_append_right _ ht,
        (hs.workflow_eq ht).trans (hs.workflow_eq hrow).symm, hid, hkind⟩
  next := by
    refine List.forall_mem_append.mpr ⟨fun row hrow target hnext => ?_,
      fun row hrow target hnext => ?_⟩
    · obtain ⟨t, ht, hrest⟩ := h.next row hrow target hnext
      exact ⟨t, List.mem_append_left _ ht, hrest⟩
    · obtain ⟨i, hi⟩ := List.mem_iff_getElem?.mp hrow
      obtain ⟨step, hstep, _⟩ := hs.showsStep hi
      obtain ⟨t, ht, hid⟩ := (hs.next i step row hstep hi).exists_row target hnext
      exact ⟨t, List.mem_append_right _ ht,
        (hs.workflow_eq ht).trans (hs.workflow_eq hrow).symm, hid⟩
  ids := by
    rw [List.map_append, List.nodup_append']
    refine ⟨h.ids, hs.nodup_ids, ?_⟩
    intro id hold hnew
    obtain ⟨old, hmem, rfl⟩ := List.mem_map.mp hold
    obtain ⟨row, hrow, hid⟩ := List.mem_map.mp hnew
    exact hfresh row hrow old hmem hid.symm

/-- A workflow goes with its steps and executions. -/
theorem delete (h : Intact tables) (id : String) : Intact { tables with
    workflows := tables.workflows.filter (·.id != id)
    steps := tables.steps.filter (·.workflow != id)
    executions := tables.executions.filter (·.workflow != id) } := by
  have hstays {owner : String} (howner : (owner != id) = true)
      (hex : ∃ w ∈ tables.workflows, w.id = owner) :
      ∃ w ∈ tables.workflows.filter (·.id != id), w.id = owner := by
    obtain ⟨w, hw, rfl⟩ := hex
    exact ⟨w, List.mem_filter.mpr ⟨hw, howner⟩, rfl⟩
  have hsteps := h.withoutSteps id
  exact {
    stepOwner := fun row hrow =>
      hstays (List.mem_filter.mp hrow).2 (h.stepOwner row (List.mem_of_mem_filter hrow))
    executionOwner := fun e he =>
      hstays (List.mem_filter.mp he).2 (h.executionOwner e (List.mem_of_mem_filter he))
    positions := hsteps.positions
    parent := hsteps.parent
    next := hsteps.next
    ids := hsteps.ids }

end Intact

/-! ## Transactions -/

/-- What every success of a transaction keeps intact, the transaction keeps intact. -/
theorem Database.intact_transact {α : Type} {t : Transaction α} {db : Database}
    (h : Intact db.tables)
    (ht : ∀ a tables' supply', t db.tables db.supply = (.ok (a, tables'), supply') →
      Intact tables') : Intact (db.transact t).2.tables := by
  unfold Database.transact
  cases hr : t db.tables db.supply with
  | mk r supply' =>
    cases r with
    | error fault => exact h
    | ok out => exact ht out.1 out.2 supply' hr

theorem mem_of_find? {tables : Tables} {id : String} {w : WorkflowRow}
    (h : Workflow.find? tables id = some w) : ∃ w ∈ tables.workflows, w.id = id :=
  ⟨w, List.mem_of_find?_eq_some h, by simpa using List.find?_some h⟩

variable {db : Database}

theorem intact_create (h : Intact db.tables) (now : Instant) (d : Draft) :
    Intact (db.transact (Workflow.create now d)).2.tables := by
  refine Database.intact_transact h fun out tables' supply' hout => ?_
  obtain ⟨built, rows, _, hnone, hb, hi, rfl, _⟩ := create_eq_ok hout
  have hnew : ∀ w ∈ db.tables.workflows, w.id ≠ out.row.id := by
    simpa [Workflow.find?] using hnone
  have hrow : Intact { db.tables with workflows := db.tables.workflows ++ [out.row] } := by
    refine h.mono rfl (fun w hw => ⟨w, List.mem_append_left _ hw, rfl⟩) fun e he => ?_
    obtain ⟨w, hw, hid⟩ := h.executionOwner e he
    exact ⟨w, List.mem_append_left _ hw, hid⟩
  refine hrow.insertSteps (hb.showsSet hi.rows_eq) ⟨out.row, by simp, rfl⟩ ?_ hi.fresh
  -- A step of the workflow that is stored already would belong to none.
  intro row hrow hid
  obtain ⟨w, hw, hwid⟩ := h.stepOwner row hrow
  exact hnew w hw (hwid.trans hid)

theorem intact_update (h : Intact db.tables) (now : Instant) (id : String)
    (changes : Changes) (steps : Option (List Fields)) :
    Intact (db.transact (Workflow.update now id changes steps)).2.tables := by
  refine Database.intact_transact h fun out tables' supply' hout => ?_
  obtain ⟨e, cells, hfind, _, hcells, _, _, hreplaced⟩ := update_eq_ok hout
  obtain rfl := id_of_find? hfind
  have hids := ids_withCells hcells now e.row.id db.tables
  have hkept : ∀ w ∈ db.tables.workflows,
      ∃ w' ∈ (workflowTable.withCells now e.row.id cells db.tables).workflows, w'.id = w.id := by
    intro w hw
    refine List.mem_map.mp ?_
    rw [hids]
    exact List.mem_map_of_mem hw
  have howned {owner : String} (hex : ∃ w ∈ db.tables.workflows, w.id = owner) :
      ∃ w ∈ (workflowTable.withCells now e.row.id cells db.tables).workflows, w.id = owner := by
    obtain ⟨w, hw, rfl⟩ := hex
    exact hkept w hw
  have hwritten : Intact (workflowTable.withCells now e.row.id cells db.tables) :=
    h.mono rfl hkept fun e he => howned (h.executionOwner e he)
  cases hreplaced with
  | kept => exact hwritten
  | replaced hb hi =>
    refine (hwritten.withoutSteps e.row.id).insertSteps (hb.showsSet hi.rows_eq)
      (howned (mem_of_find? hfind)) ?_ hi.fresh
    intro row hrow
    simpa using (List.mem_filter.mp hrow).2

theorem intact_delete (h : Intact db.tables) (id : String) :
    Intact (db.transact (Workflow.delete id)).2.tables := by
  refine Database.intact_transact h fun out tables' supply' hout => ?_
  rw [Execution.delete_eq] at hout
  split_ifs at hout
  · cases hout
    exact h
  · cases hout
    exact h.delete id

end Stepwise.Store
