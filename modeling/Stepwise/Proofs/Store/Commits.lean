import Stepwise.Proofs.Json.Received
import Stepwise.Proofs.Store.Columns
import Stepwise.Proofs.Store.InPlace
import Stepwise.Proofs.Store.Spared
import Stepwise.Proofs.Trigger.Changes

/-!
# What a committed row is

A row that an insertion or a change hands over is the one that its table holds afterwards under its
id. The row of an insertion stands behind the others, none of which has its id; a change keeps the
id of its row. So a task is handed to a run as it was committed.
-/

namespace Stepwise

open Store

namespace Store.Table

variable {ρ : Type} {t : Table ρ} {now : Instant} {data : Fields} {tables tables' : Tables}
  {supply supply' : Supply}

/-! ## Insertions -/

/-- A row that is inserted is filled, permitted, and put behind the others. -/
theorem insert_eq_ok {row : ρ}
    (h : t.insert now data tables supply = (.ok (row, tables'), supply')) :
    ∃ fillings cells, List.Forall₂ (Fills now data) t.columns fillings ∧
      t.newCells fillings = .ok cells ∧ row = fill t.blank cells ∧
      t.violation? (t.rows tables) row cells = none ∧
      tables' = t.setRows (t.rows tables ++ [row]) tables := by
  unfold insert at h
  cases hname : t.unknownName? data with
  | some name =>
    rw [hname] at h
    cases h
  | none =>
    rw [hname] at h
    obtain ⟨fillings, between, left, hfillings, hrest⟩ := Transaction.ok_of_bind h
    have hspares : Transaction.Spares id (t.columns.mapM (fillingOf now data)) :=
      .mapM (fun c => spares_fillingOf now data c) t.columns
    have hsame := (hspares tables supply).2 fillings between (congrArg Prod.fst hfillings)
    rw [show between = tables from hsame] at hrest
    obtain ⟨cells, _, _, hread, hrow⟩ := Transaction.ok_of_bind hrest
    obtain ⟨hcells, rfl, rfl⟩ := Transaction.ofExcept_eq_ok hread
    obtain ⟨_, _, _, htables, hguarded⟩ := Transaction.ok_of_bind hrow
    cases htables
    generalize hviolation : t.violation? _ _ cells = clash at hguarded
    cases clash with
    | some complaint => cases hguarded
    | none =>
      cases hguarded
      have hfilled : List.Forall₂ (Fills now data) t.columns fillings :=
        Transaction.forall₂_of_mapM (p := Fills now data) (fun _ _ => fills_of_fillingOf) hfillings
      exact ⟨fillings, cells, hfilled, hcells, rfl, hviolation, rfl⟩

/-- So it begins with what was given for it. -/
theorem Lawful.begins_of_insert (hl : t.Lawful) {row : ρ}
    (h : t.insert now data tables supply = (.ok (row, tables'), supply')) :
    ∀ c ∈ t.columns, c.Begins now (data.field c.name) row := by
  obtain ⟨fillings, cells, hfillings, hcells, rfl, hpermitted, -⟩ := insert_eq_ok h
  exact fun c hc => hl.begins_of_newCells hfillings hcells hpermitted hc t.blank

end Store.Table

namespace Task

theorem idOf_taskTable (row : TaskRow) : taskTable.idOf row = row.id := rfl

/-- A task that is created is new, holds what its fields give, and is handed over as it is
stored. -/
theorem create_eq_ok {now : Instant} {fields : Fields} {tables tables' : Tables}
    {supply supply' : Supply} {value : Value}
    (h : create now fields tables supply = (.ok (value, tables'), supply')) :
    ∃ row, value = .object (toFields row) ∧ taskTable.find? tables row.id = none ∧
      taskTable.find? tables' row.id = some row ∧
      ∀ c ∈ taskTable.columns, c.Begins now ((columnsOf fields).field c.name) row := by
  obtain ⟨row, between, left, hinsert, hvalue⟩ := Transaction.ok_of_bind h
  have hbegins := lawful_taskTable.begins_of_insert hinsert
  obtain ⟨fillings, cells, -, -, -, hpermitted, rfl⟩ := Table.insert_eq_ok hinsert
  cases hvalue
  have hid : ∀ other ∈ tables.tasks, (taskTable.idOf other == row.id) = false :=
    (Table.violation?_eq_none_iff.mp hpermitted).2 taskTable.columns[6] (List.getElem_mem _) rfl
  have hbefore : taskTable.find? tables row.id = none :=
    List.find?_eq_none.mpr fun other hother => by simp [hid other hother]
  refine ⟨row, rfl, hbefore, ?_, hbegins⟩
  show (tables.tasks ++ [row]).find? (taskTable.idOf · == row.id) = some row
  rw [List.find?_append, show tables.tasks.find? _ = none from hbefore]
  simp [idOf_taskTable]

/-- No configured field names the column of ids. -/
theorem get?_columnsOf_id (fields : Fields) : (columnsOf fields).get? (.text "id") = none := by
  cases hget : (columnsOf fields).get? (.text "id") with
  | none => rfl
  | some value =>
    obtain ⟨field, hfield, hsame⟩ := Fields.exists_same_of_get? hget
    obtain ⟨⟨key, given⟩, _, hcolumn⟩ := List.mem_filterMap.mp hfield
    dsimp only at hcolumn
    split at hcolumn
    · cases hcolumn
    · rename_i name _ _
      obtain ⟨column, hlookup, rfl⟩ := Option.map_eq_some_iff.mp hcolumn
      obtain ⟨_, _, hnames, _⟩ := List.lookup_eq_some_iff.mp hlookup
      have hmem : (name, column) ∈ columnNames := by simp [hnames]
      have hother : ∀ pair ∈ columnNames, pair.2 ≠ "id" := by decide
      exact absurd (beq_iff_eq.mp hsame) (hother _ hmem)
    · cases hcolumn

/-- A change that is written keeps the ids of tasks. -/
theorem id_rewritten {id : String} {row : TaskRow} {fields : Fields}
    {cells : List (Column TaskRow × Cell)}
    (h : taskTable.changedCells id (taskTable.changes row (columnsOf fields)) = .ok cells)
    (now : Instant) (old : TaskRow) : (taskTable.rewritten now cells old).id = old.id := by
  have hnone : Table.newValue? row (columnsOf fields) taskTable.columns[6] = none := by
    refine Option.eq_none_iff_forall_ne_some.mpr fun value hnew => ?_
    obtain ⟨hgiven, -⟩ := Table.newValue?_eq_some_iff.mp hnew
    exact absurd (hgiven.symm.trans (get?_columnsOf_id fields)) nofun
  exact Cell.text.inj (lawful_taskTable.read_rewritten_of_kept h
    (List.getElem_mem _) (by decide) hnone now old)

/-- A task that is changed keeps its id, holds what the changes give, and is handed over as it is
stored. -/
theorem update_eq_ok {now : Instant} {id : Value} {fields : Fields} {tables tables' : Tables}
    {supply supply' : Supply} {value : Value}
    (h : update now id fields tables supply = (.ok (value, tables'), supply')) :
    ∃ old row, value = .object (toFields row) ∧ idOf? id = .ok row.id ∧
      taskTable.find? tables row.id = some old ∧ taskTable.find? tables' row.id = some row ∧
      ∀ c ∈ taskTable.columns, c.name ≠ "updated_at" →
        c.Revises ((columnsOf fields).field c.name) old row := by
  obtain ⟨name, _, _, hname, hupdate⟩ := Transaction.ok_of_bind h
  obtain ⟨hid, rfl, rfl⟩ := Transaction.ofExcept_eq_ok hname
  obtain ⟨out, _, _, hout, hvalue⟩ := Transaction.ok_of_bind hupdate
  cases out with
  | none => cases hvalue
  | some row =>
    cases hvalue
    obtain ⟨old, hfind, hrevises⟩ := lawful_taskTable.revises_of_update hout
    have hold : old.id = name := by simpa [idOf_taskTable] using List.find?_some hfind
    obtain ⟨-, ⟨-, hnone, -⟩ | ⟨found, hfound, hcases⟩⟩ := Table.update_cases hout
    · cases hnone
    obtain rfl := Option.some.inj (hfind.symm.trans hfound)
    obtain ⟨-, hsame, rfl⟩ | ⟨cells, hcells, hwritten⟩ := hcases
    · obtain rfl := Option.some.inj hsame
      exact ⟨row, row, rfl, by rw [hid, hold], by rw [hold, hfind], by rw [hold, hfind], hrevises⟩
    have hkeeps := id_rewritten hcells now
    cases hwritten with
    | found hfound' _ =>
      obtain rfl := Option.some.inj (hfind.symm.trans hfound')
      refine ⟨old, _, rfl, by rw [hid, hkeeps, hold], by rw [hkeeps, hold, hfind], ?_, hrevises⟩
      rw [hkeeps, hold]
      refine (Table.find?_replaced (t := taskTable) hkeeps tables.tasks name).trans ?_
      rw [show tables.tasks.find? (taskTable.idOf · == name) = some old from hfind]
      rfl

end Task

end Stepwise
