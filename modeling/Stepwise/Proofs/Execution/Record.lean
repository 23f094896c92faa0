import Mathlib.Data.List.Basic
import Mathlib.Tactic.Common
import Stepwise.Proofs.Store.Aside
import Stepwise.Execution.Program

/-!
# The records of one execution

The rows of one id, and what each write does to them: opening adds one where there was none, the end
of a run writes those that are still running, a cancellation writes them whatever they are, and the
deletion of a workflow may take them away.
-/

namespace Stepwise.Execution

open Store

/-- The rows of an id. -/
def rowsOf (tables : Tables) (id : String) : List ExecutionRow :=
  tables.executions.filter (·.id == id)

theorem find?_eq_head? (tables : Tables) (id : String) :
    find? tables id = (rowsOf tables id).head? :=
  List.head?_filter.symm

theorem rowsOf_eq_nil {tables : Tables} {id : String} :
    rowsOf tables id = [] ↔ find? tables id = none := by
  rw [find?_eq_head?, List.head?_eq_none_iff]

theorem rowsOf_congr {tables tables' : Tables} (h : tables'.executions = tables.executions)
    (id : String) : rowsOf tables' id = rowsOf tables id := by
  rw [rowsOf, rowsOf, h]

/-- A change of rows that keeps their ids changes the rows of an id one by one. -/
theorem filter_id_map {f : ExecutionRow → ExecutionRow} (hf : ∀ row, (f row).id = row.id)
    (id : String) (rows : List ExecutionRow) :
    (rows.map f).filter (·.id == id) = (rows.filter (·.id == id)).map f := by
  rw [List.filter_map]
  congr 2
  funext row
  simp [hf row]

/-- Only the rows of an id are changed, so a change that asks for the id need not ask. -/
theorem ids_map {f : ExecutionRow → ExecutionRow} (hf : ∀ row, (f row).id = row.id)
    (rows : List ExecutionRow) : (rows.map f).map (·.id) = rows.map (·.id) := by
  rw [List.map_map]
  exact List.map_congr_left fun row _ => hf row

theorem map_filter_id {f g : ExecutionRow → ExecutionRow} {id : String}
    (h : ∀ row, row.id = id → f row = g row) (rows : List ExecutionRow) :
    (rows.filter (·.id == id)).map f = (rows.filter (·.id == id)).map g := by
  refine List.map_congr_left fun row hrow => h row ?_
  simpa using (List.mem_filter.mp hrow).2

@[simp] theorem Closing.write_id (c : Closing) (since now : Instant) (row : ExecutionRow) :
    (c.write since now row).id = row.id := by
  cases c with
  | completed output log => rfl
  | failed error log => rfl

/-- The end of a run changes the rows that are still running. -/
theorem rowsOf_close (since now : Instant) (id : String) (c : Closing) (tables : Tables) :
    rowsOf (close since now id c tables).2 id =
      (rowsOf tables id).map fun row => if isOpen row then c.write since now row else row := by
  unfold rowsOf close
  dsimp only
  rw [filter_id_map]
  · refine map_filter_id (fun row hid => ?_) _
    simp [hid]
  · intro row
    split_ifs
    · exact c.write_id since now row
    · rfl

theorem fst_close (since now : Instant) (id : String) (c : Closing) (tables : Tables) :
    (close since now id c tables).1 = (rowsOf tables id).any isOpen := by
  unfold close rowsOf
  rw [List.any_filter]

/-- The write of a cancellation changes all rows of the id. -/
theorem rowsOf_commitCancel (now : Instant) (id : String) (tables : Tables) :
    rowsOf (commitCancel now id tables) id = (rowsOf tables id).map (cancelled now) := by
  unfold rowsOf commitCancel
  dsimp only
  rw [filter_id_map]
  · refine map_filter_id (fun row hid => ?_) _
    simp [hid]
  · intro row
    split_ifs
    · rfl
    · rfl

/-- The record of an execution that begins. -/
def opening (now : Instant) (workflow : String) (input : Value) (triggeredBy : Option String)
    (id : String) : ExecutionRow where
  id := id
  workflow := workflow
  status := Status.running.name
  input := Json.settle input
  output := .null
  log := .list []
  error := none
  triggeredBy := triggeredBy
  started := now
  completed := none
  duration := none
  created := now
  updated := now

theorem start_eq (now : Instant) (workflow : String) (input : Value) (triggeredBy : Option String)
    (tables : Tables) (supply : Supply) :
    start now workflow input triggeredBy tables supply =
      (if !Json.isShort input then .error (.longInt true)
      else if (find? tables ("r-" ++ toString supply.row)).isSome then
        .error (.refused (.notUnique executionTable.name "id") (executionTable.insertionOf
          (opening now workflow input triggeredBy ("r-" ++ toString supply.row))))
      else .ok ("r-" ++ toString supply.row, { tables with
        executions := tables.executions ++
          [opening now workflow input triggeredBy ("r-" ++ toString supply.row)] }),
      { supply with row := supply.row + 1 }) := by
  show (if (!Json.isShort input) = true then _ else _ : Transaction String) tables _ = _
  by_cases hlong : (!Json.isShort input) = true
  · rw [if_pos hlong, if_pos hlong]
    rfl
  · rw [if_neg hlong, if_neg hlong]
    show (if (find? tables _).isSome then _ else _ : Transaction String) tables _ = _
    split_ifs
    · rfl
    · rfl

/-- An execution that is recorded as running has the one row of its id. -/
theorem transact_start (db : Database) (now : Instant) (workflow : String) (input : Value)
    (triggeredBy : Option String) :
    Uncancelled (db.transact (start now workflow input triggeredBy)).1 ∧
      ∀ id, (db.transact (start now workflow input triggeredBy)).1 = .ok id →
        rowsOf (db.transact (start now workflow input triggeredBy)).2.tables id =
          [opening now workflow input triggeredBy id] := by
  unfold Database.transact
  rw [start_eq]
  split_ifs with hlong hfound
  · exact ⟨by simp, fun id h => nomatch h⟩
  · exact ⟨by simp, fun id h => nomatch h⟩
  · refine ⟨by simp, fun id h => ?_⟩
    obtain rfl := Except.ok.inj h
    have hnone : rowsOf db.tables ("r-" ++ toString db.supply.row) = [] := by
      rw [rowsOf_eq_nil]
      simpa using hfound
    unfold rowsOf at hnone ⊢
    rw [List.filter_append, hnone]
    simp [opening]

theorem delete_eq (workflow : String) (tables : Tables) (supply : Supply) :
    Workflow.delete workflow tables supply =
      (if (Workflow.find? tables workflow).isNone then .ok (false, tables)
      else .ok (true, { tables with
        workflows := tables.workflows.filter (·.id != workflow)
        steps := tables.steps.filter (·.workflow != workflow)
        executions := tables.executions.filter (·.workflow != workflow) }), supply) := by
  show (if (Workflow.find? tables workflow).isNone = true then _ else _ : Transaction Bool)
    tables supply = _
  split_ifs
  · rfl
  · rfl

/-- The deletion of a workflow only takes records away. -/
theorem rowsOf_delete (db : Database) (workflow id : String) :
    (rowsOf (db.transact (Workflow.delete workflow)).2.tables id).Sublist
      (rowsOf db.tables id) := by
  unfold Database.transact
  rw [delete_eq]
  split_ifs
  · exact List.Sublist.refl _
  · exact List.filter_sublist.filter _

/-- A record that is no longer running. -/
def Ended (row : ExecutionRow) : Prop :=
  ∃ status : Status, status.isTerminal = true ∧ row.status = status.name

theorem Ended.not_isOpen {row : ExecutionRow} (h : Ended row) : isOpen row = false := by
  obtain ⟨status, hterminal, hs⟩ := h
  unfold isOpen
  rw [hs]
  cases status with
  | running => cases hterminal
  | completed => rfl
  | failed => rfl
  | cancelled => rfl

/-- The record shows how its run ended. -/
def Closing.Shown (row : ExecutionRow) : Closing → Prop
  | .completed output log => row.status = Status.completed.name ∧
      row.output = Json.settle (.object output) ∧ row.log = Run.logValue log
  | .failed error log => row.status = Status.failed.name ∧
      row.error = some error ∧ row.log = Run.logValue log

theorem Closing.shown_write (c : Closing) (since now : Instant) (row : ExecutionRow) :
    c.Shown (c.write since now row) := by
  cases c with
  | completed output log => exact ⟨rfl, rfl, rfl⟩
  | failed error log => exact ⟨rfl, rfl, rfl⟩

theorem Closing.Shown.status {c : Closing} {row : ExecutionRow} (h : c.Shown row) :
    row.status = c.status.name := by
  cases c with
  | completed output log => exact h.1
  | failed error log => exact h.1

theorem Closing.status_ne_cancelled (c : Closing) : c.status.name ≠ Status.cancelled.name := by
  cases c with
  | completed output log => simp [Closing.status, Status.name]
  | failed error log => simp [Closing.status, Status.name]

end Stepwise.Execution
