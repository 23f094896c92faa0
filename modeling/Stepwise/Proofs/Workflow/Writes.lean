import Mathlib.Tactic.Common
import Stepwise.Proofs.Number.Integers
import Stepwise.Proofs.Store.Columns
import Stepwise.Proofs.Value.Fields
import Stepwise.Proofs.Workflow.Rows

/-!
# What changes of workflows write

What the tables are after a workflow was created, changed or deleted, and what was found before it:
an accepted step set if steps were given, and no other row with one of the ids that are stored.
-/

namespace Stepwise.Workflow

open Store StepSet Transaction

variable {tables tables' : Tables} {supply supply' : Supply}

/-- Among the steps of the other workflows there is none of a workflow's own. -/
theorem own_of_others (id : String) (rows : List StepRow) :
    (rows.filter (·.workflow != id)).filter (·.workflow == id) = [] := by
  rw [List.filter_filter, List.filter_eq_nil_iff]
  simp

theorem own_of_others_of_ne {id other : String} (h : other ≠ id) (rows : List StepRow) :
    (rows.filter (·.workflow != id)).filter (·.workflow == other) =
      rows.filter (·.workflow == other) := by
  rw [List.filter_filter]
  refine List.filter_congr fun row _ => ?_
  by_cases hrow : row.workflow = other
  · simp [hrow, h]
  · simp [hrow]

/-- The rows of accepted steps are stored after the others, none of which has the id of one. -/
structure Inserted (now : Instant) (built : List NewStep) (before : List StepRow)
    (rows after : List StepRow) : Prop where
  rows_eq : built.mapM (stepRow now) = .ok rows
  fresh : ∀ row ∈ rows, ∀ old ∈ before, old.id ≠ row.id
  after_eq : after = before ++ rows

theorem insertSteps_eq_ok {now : Instant} {built : List NewStep} {u : Unit}
    (h : insertSteps now built tables supply = (.ok (u, tables'), supply')) :
    supply' = supply ∧ ∃ rows, Inserted now built tables.steps rows tables'.steps ∧
      tables' = { tables with steps := tables.steps ++ rows } := by
  obtain ⟨rows, _, _, hread, hcheck⟩ := ok_of_bind h
  obtain ⟨hrows, rfl, rfl⟩ := ofExcept_eq_ok hread
  obtain ⟨_, _, _, ht, hstore⟩ := ok_of_bind hcheck
  cases ht
  cases hclash : rows.find? fun row => tables.steps.any (·.id == row.id) with
  | some row =>
    rw [hclash] at hstore
    cases hstore
  | none =>
    rw [hclash] at hstore
    cases hstore
    refine ⟨rfl, rows, ⟨hrows, fun row hrow old hold hid => ?_, rfl⟩, rfl⟩
    refine List.find?_eq_none.mp hclash row hrow ?_
    exact List.any_eq_true.mpr ⟨old, hold, beq_iff_eq.mpr hid⟩

theorem insertSteps_of_fresh {now : Instant} {built : List NewStep} {rows : List StepRow}
    (hrows : built.mapM (stepRow now) = .ok rows)
    (hfresh : ∀ row ∈ rows, ∀ old ∈ tables.steps, old.id ≠ row.id) :
    insertSteps now built tables supply =
      (.ok ((), { tables with steps := tables.steps ++ rows }), supply) := by
  have hclash : (rows.find? fun row => tables.steps.any (·.id == row.id)) = none := by
    refine List.find?_eq_none.mpr fun row hrow h => ?_
    obtain ⟨old, hold, h⟩ := List.any_eq_true.mp h
    exact hfresh row hrow old hold (beq_iff_eq.mp h)
  unfold insertSteps
  rw [hrows]
  refine (Transaction.bind_of_ok (a := rows) rfl).trans ((Transaction.bind_of_ok rfl).trans ?_)
  rw [hclash]
  rfl

theorem insertRow_eq_ok {row : WorkflowRow} {u : Unit}
    (h : insertRow row tables supply = (.ok (u, tables'), supply')) :
    supply' = supply ∧ find? tables row.id = none ∧
      tables' = { tables with workflows := tables.workflows ++ [row] } := by
  obtain ⟨_, _, _, ht, h⟩ := ok_of_bind h
  cases ht
  by_cases hclash : (find? tables row.id).isSome = true
  · rw [if_pos hclash] at h
    cases h
  · rw [if_neg hclash] at h
    cases h
    exact ⟨rfl, by simpa using hclash, rfl⟩

theorem buildSteps_eq_ok {workflow : String} {steps : List Fields} {built : List NewStep}
    (h : buildSteps workflow steps tables supply = (.ok (built, tables'), supply')) :
    Built workflow supply.fresh steps built ∧ tables' = tables ∧
      supply' = { supply with fresh := supply.fresh + steps.length } := by
  cases hbuild : build workflow supply.fresh steps with
  | mk r fresh =>
    simp only [buildSteps, hbuild] at h
    cases r with
    | error fault => cases h
    | ok built' =>
      cases h
      obtain ⟨hbuilt, rfl⟩ := built_of_build hbuild
      exact ⟨hbuilt, rfl, rfl⟩

/-! ## Creations -/

/-- A creation that succeeds stores a row under the id that was drawn, which no workflow had, and
the rows of its steps. -/
theorem create_eq_ok {now : Instant} {d : Draft} {out : Stored}
    (h : create now d tables supply = (.ok (out, tables'), supply')) :
    ∃ built rows, out.row.id = freshId supply.fresh ∧ find? tables out.row.id = none ∧
      Built out.row.id (supply.fresh + 1) d.steps built ∧
      Inserted now built tables.steps rows tables'.steps ∧
      tables' = { tables with
        workflows := tables.workflows ++ [out.row], steps := tables.steps ++ rows } ∧
      supply' = { supply with fresh := supply.fresh + 1 + d.steps.length } := by
  obtain ⟨_, _, _, hid, hrest⟩ := ok_of_bind h
  cases hid
  obtain ⟨built, _, _, hbuilt, hstore⟩ := ok_of_bind hrest
  obtain ⟨hb, rfl, rfl⟩ := buildSteps_eq_ok hbuilt
  cases hworkspace : d.workspace with
  | none =>
    rw [hworkspace] at hstore
    cases hstore
  | some workspace =>
    cases hname : d.name with
    | none =>
      rw [hworkspace, hname] at hstore
      cases hstore
    | some name =>
      rw [hworkspace, hname] at hstore
      obtain ⟨_, _, _, hrow, hsteps⟩ := ok_of_bind hstore
      obtain ⟨rfl, hnone, rfl⟩ := insertRow_eq_ok hrow
      obtain ⟨_, _, _, hinsert, hread⟩ := ok_of_bind hsteps
      obtain ⟨rfl, rows, hi, rfl⟩ := insertSteps_eq_ok hinsert
      cases hread
      exact ⟨built, rows, rfl, hnone, hb, hi, rfl, rfl⟩

/-! ## Changes -/

/-- The tables without the steps of a workflow. -/
def withoutSteps (id : String) (tables : Tables) : Tables :=
  { tables with steps := tables.steps.filter (·.workflow != id) }

/-- What a change with these steps makes of the tables, apart from the row of the workflow: nothing
if there are no steps, else its rows are the new ones. -/
inductive Replaced (now : Instant) (id : String) (tables : Tables) (supply : Supply) :
    Option (List Fields) → Tables → Supply → Prop
  | kept : Replaced now id tables supply none tables supply
  | replaced {steps : List Fields} {built : List NewStep} {rows : List StepRow}
      (hb : Built id supply.fresh steps built)
      (hi : Inserted now built (withoutSteps id tables).steps rows
        ((withoutSteps id tables).steps ++ rows)) :
      Replaced now id tables supply (some steps)
        { tables with steps := (withoutSteps id tables).steps ++ rows }
        { supply with fresh := supply.fresh + steps.length }

/-- The steps that a change is to write are those that an accepted set is made into. -/
inductive Prepared (id : String) (supply : Supply) :
    Option (List Fields) → Option (List NewStep) → Supply → Prop
  | nothing : Prepared id supply none none supply
  | accepted {steps : List Fields} {built : List NewStep} (h : Built id supply.fresh steps built) :
      Prepared id supply (some steps) (some built)
        { supply with fresh := supply.fresh + steps.length }

theorem beginEdit_eq_ok {id : String} {changes : Changes} {steps : Option (List Fields)} {e : Edit}
    (h : beginEdit id changes steps tables supply = (.ok (e, tables'), supply')) :
    find? tables id = some e.row ∧ e.changes = changes ∧ tables' = tables ∧
      Prepared id supply steps e.steps supply' := by
  obtain ⟨_, _, _, ht, h⟩ := ok_of_bind h
  cases ht
  cases hfind : find? tables id with
  | none =>
    rw [hfind] at h
    cases h
  | some old =>
    simp only [hfind] at h
    cases steps with
    | none =>
      obtain ⟨_, _, _, hnone, hedit⟩ := ok_of_bind h
      cases hnone
      cases hedit
      exact ⟨rfl, rfl, rfl, .nothing⟩
    | some steps =>
      obtain ⟨_, _, _, hsome, hedit⟩ := ok_of_bind h
      obtain ⟨built, _, _, hbuilt, hsome'⟩ := ok_of_bind hsome
      cases hsome'
      obtain ⟨hb, rfl, rfl⟩ := buildSteps_eq_ok hbuilt
      cases hedit
      exact ⟨rfl, rfl, rfl, .accepted hb⟩

theorem id_of_find? {id : String} {row : WorkflowRow} (h : find? tables id = some row) :
    row.id = id := by
  simpa using List.find?_some h

namespace Edit

variable {e : Edit} {cells : List (Column WorkflowRow × Cell)}

theorem get?_data_version (e : Edit) : e.data.get? (.text "version") = some (.int e.version) :=
  (Fields.get?_set_text _ _ _ _).trans (if_pos rfl)

theorem get?_data (e : Edit) {name : String} (h : name ≠ "version") :
    e.data.get? (.text name) = e.changes.data.get? (.text name) :=
  (Fields.get?_set_text _ _ _ _).trans (if_neg h.symm)

/-- A change gives no value for the id and the time at which the workflow was made. -/
theorem newValue?_kept (e : Edit) {c : Column WorkflowRow}
    (hc : c.name ∈ keptColumns) (hv : c.name ≠ "version") (row : WorkflowRow) :
    Table.newValue? row e.data c = none := by
  rw [Table.newValue?, e.get?_data hv, e.changes.spares c.name hc]

/-- The version is always changed, since it counts on. -/
theorem newValue?_version (e : Edit) {c : Column WorkflowRow} (hc : c.name = "version")
    (hread : c.read e.row = .int e.row.version) :
    Table.newValue? e.row e.data c = some (.int e.version) := by
  refine Table.newValue?_eq_some_iff.mpr ⟨by rw [hc, e.get?_data_version], nofun, ?_⟩
  rw [hread]
  refine Bool.eq_false_iff.mpr fun hequal => ?_
  have hsame : e.row.version = e.version := Double.extent_ofInt_inj (beq_iff_eq.mp hequal)
  exact absurd hsame (Int.lt_succ e.row.version).ne

/-- The row of the workflow as a change leaves it. -/
structure Makes (e : Edit) (now : Instant) (cells : List (Column WorkflowRow × Cell))
    (row : WorkflowRow) : Prop where
  id : (workflowTable.rewritten now cells row).id = row.id
  created : (workflowTable.rewritten now cells row).created = row.created
  updated : (workflowTable.rewritten now cells row).updated = now
  version : (workflowTable.rewritten now cells row).version = e.version

theorem makes_of_changedCells (h : workflowTable.changedCells e.row.id e.values = .ok cells)
    (now : Instant) (row : WorkflowRow) : e.Makes now cells row where
  id := by
    have hc : ∃ c ∈ workflowTable.columns, c.name = "id" ∧ ∀ row, c.read row = .text row.id := by
      simp [workflowTable]
    obtain ⟨c, hc, hname, hread⟩ := hc
    have hkept := lawful_workflowTable.read_rewritten_of_kept h hc (by rw [hname]; decide)
      (e.newValue?_kept (by rw [hname]; decide) (by rw [hname]; decide) _) now row
    rw [hread, hread] at hkept
    exact Cell.text.inj hkept
  created := by
    have hc : ∃ c ∈ workflowTable.columns,
        c.name = "created_at" ∧ ∀ row, c.read row = .time row.created := by
      simp [workflowTable]
    obtain ⟨c, hc, hname, hread⟩ := hc
    have hkept := lawful_workflowTable.read_rewritten_of_kept h hc (by rw [hname]; decide)
      (e.newValue?_kept (by rw [hname]; decide) (by rw [hname]; decide) _) now row
    rw [hread, hread] at hkept
    exact Cell.time.inj hkept
  updated := by
    rw [Table.rewritten, Table.fill_append]
    rfl
  version := by
    have hc : ∃ c ∈ workflowTable.columns,
        c.name = "version" ∧ c.sort = .int ∧ ∀ row, c.read row = .int row.version := by
      simp [workflowTable]
    obtain ⟨c, hc, hname, hsort, hread⟩ := hc
    have hchanged := lawful_workflowTable.read_rewritten_of_changed h hc (by rw [hname]; decide)
      (e.newValue?_version hname (hread _))
      (fun _ _ htext => absurd (hsort.symm.trans htext) (by decide)) now row default
    rw [hread, hsort] at hchanged
    exact (Cell.int.inj (Except.ok.inj hchanged)).symm

/-- A change that gives no new values changes the version alone. -/
theorem values_of_blank (h : ∀ name, e.changes.data.field name = .null) :
    ∃ c ∈ workflowTable.columns, c.name = "version" ∧ e.values = [(c, .int e.version)] := by
  have hkept (c : Column WorkflowRow) (hc : c.name ≠ "version") :
      Table.newValue? e.row e.data c = none := by
    refine Option.eq_none_iff_forall_ne_some.mpr fun value hnew => ?_
    obtain ⟨hgiven, hnull, -⟩ := Table.newValue?_eq_some_iff.mp hnew
    rw [e.get?_data hc] at hgiven
    have hfield := h c.name
    rw [Fields.field_of_get? hgiven] at hfield
    exact hnull hfield
  have hsplit : ∃ before c after, workflowTable.columns = before ++ c :: after ∧
      (∀ d ∈ before, d.name ≠ "version") ∧ (∀ d ∈ after, d.name ≠ "version") ∧
      c.name = "version" ∧ c.read e.row = .int e.row.version :=
    ⟨workflowTable.columns.take 8, _, workflowTable.columns.drop 9, rfl, by decide, by decide,
      rfl, rfl⟩
  obtain ⟨before, c, after, hcolumns, hbefore, hafter, hname, hread⟩ := hsplit
  refine ⟨c, by simp [hcolumns], hname, ?_⟩
  have hnone {columns : List (Column WorkflowRow)} (hc : ∀ d ∈ columns, d.name ≠ "version") :
      columns.filterMap (fun c => (Table.newValue? e.row e.data c).map (c, ·)) = [] :=
    List.filterMap_eq_nil_iff.mpr fun d hd => by rw [hkept d (hc d hd)]; rfl
  rw [values, Table.changes, hcolumns, List.filterMap_append, List.filterMap_cons,
    hnone hbefore, hnone hafter, e.newValue?_version hname hread]
  rfl

theorem changedCells_of_blank (h : ∀ name, e.changes.data.field name = .null) :
    ∃ cells, workflowTable.changedCells e.row.id e.values = .ok cells ∧
      (∀ cell ∈ cells, cell.2 ≠ .null) ∧ ∀ now row,
        workflowTable.rewritten now cells row =
          { row with version := e.version, updated := now } := by
  obtain ⟨c, hc, hname, hvalues⟩ := values_of_blank h
  have hversion : c.sort = .int ∧ ∀ n row, c.write (.int n) row = { row with version := n } := by
    clear hvalues
    revert c
    simp [workflowTable, Cell.int?]
  refine ⟨[(c, .int e.version)], ?_, by simp, fun now row => ?_⟩
  · rw [hvalues, Table.changedCells, List.mapM_cons]
    dsimp only
    rw [hversion.1]
    rfl
  · rw [Table.rewritten, Table.fill_append]
    show Table.fill (c.write (.int e.version) row) _ = _
    rw [hversion.2]
    rfl
end Edit

section WithCells

variable {e : Edit} {cells : List (Column WorkflowRow × Cell)}

theorem ids_withCells (h : workflowTable.changedCells e.row.id e.values = .ok cells)
    (now : Instant) (id : String) (tables : Tables) :
    (workflowTable.withCells now id cells tables).workflows.map (·.id) =
      tables.workflows.map (·.id) :=
  Table.map_idOf_replaced (t := workflowTable)
    (fun row => (Edit.makes_of_changedCells h now row).id) tables.workflows id

theorem find?_withCells (h : workflowTable.changedCells e.row.id e.values = .ok cells)
    (now : Instant) (id : String) (tables : Tables) :
    find? (workflowTable.withCells now id cells tables) id =
      (find? tables id).map (workflowTable.rewritten now cells) :=
  Table.find?_replaced (t := workflowTable) (fun row => (Edit.makes_of_changedCells h now row).id)
    tables.workflows id

/-- The rows of other workflows stay as they are. -/
theorem filter_withCells (h : workflowTable.changedCells e.row.id e.values = .ok cells)
    (now : Instant) (id : String) (tables : Tables) :
    (workflowTable.withCells now id cells tables).workflows.filter (·.id != id) =
      tables.workflows.filter (·.id != id) :=
  Table.filter_replaced (t := workflowTable) (fun row => (Edit.makes_of_changedCells h now row).id)
    tables.workflows id

end WithCells

theorem withCells_of_missing {now : Instant} {id : String}
    {cells : List (Column WorkflowRow × Cell)} (h : find? tables id = none) :
    workflowTable.withCells now id cells tables = tables := by
  have hrows : (workflowTable.rows tables).map (fun old =>
      if workflowTable.idOf old == id then workflowTable.rewritten now cells old else old) =
      tables.workflows := by
    refine (List.map_congr_left fun row hrow => ?_).trans (List.map_id _)
    exact if_neg (List.find?_eq_none.mp h row hrow)
  rw [Table.withCells, hrows]
  rfl

/-- What is written first are columns of the row of the workflow, if it is still there; the steps
come after it. -/
theorem commitEdit_eq_ok {now : Instant} {e : Edit} {u : Unit}
    (h : commitEdit now e tables supply = (.ok (u, tables'), supply')) :
    ∃ cells, workflowTable.changedCells e.row.id e.values = .ok cells ∧
      (∀ old, find? tables e.row.id = some old →
        workflowTable.violation? (tables.workflows.filter (workflowTable.idOf · != e.row.id))
          (workflowTable.rewritten now cells old) cells = none) ∧
      let written := workflowTable.withCells now e.row.id cells tables
      match e.steps with
      | none => tables' = written ∧ supply' = supply
      | some steps => ∃ rows, Inserted now steps (withoutSteps e.row.id written).steps rows
          ((withoutSteps e.row.id written).steps ++ rows) ∧ supply' = supply ∧
          tables' = { written with steps := (withoutSteps e.row.id written).steps ++ rows } := by
  obtain ⟨_, _, _, hrow, hsteps⟩ := ok_of_bind h
  obtain ⟨rfl, cells, hcells, hrewritten⟩ := Table.rewrite_eq_ok hrow
  have hwritten : ∀ {out tables₁}, Table.Rewritten workflowTable now e.row.id tables cells out
      tables₁ → tables₁ = workflowTable.withCells now e.row.id cells tables ∧
      ∀ old, find? tables e.row.id = some old →
        workflowTable.violation? (tables.workflows.filter (workflowTable.idOf · != e.row.id))
          (workflowTable.rewritten now cells old) cells = none := by
    rintro _ _ (hmissing | ⟨hfound, hpermitted⟩)
    · refine ⟨(withCells_of_missing hmissing).symm, fun old hold => ?_⟩
      rw [show find? tables e.row.id = none from hmissing] at hold
      cases hold
    · refine ⟨rfl, fun old hold => ?_⟩
      obtain rfl := Option.some.inj (hfound.symm.trans hold)
      exact hpermitted
  obtain ⟨rfl, hpermitted⟩ := hwritten hrewritten
  refine ⟨cells, hcells, hpermitted, ?_⟩
  cases hs : e.steps with
  | none =>
    rw [hs] at hsteps
    cases hsteps
    exact ⟨rfl, rfl⟩
  | some steps =>
    rw [hs] at hsteps
    obtain ⟨_, _, _, hclear, hinsert⟩ := ok_of_bind hsteps
    cases hclear
    obtain ⟨rfl, rows, hi, rfl⟩ := insertSteps_eq_ok hinsert
    exact ⟨rows, hi, rfl, rfl⟩

/-- A change that succeeds found the workflow, writes its row, and replaces its steps if it was
given some. -/
theorem update_eq_ok {now : Instant} {id : String} {changes : Changes}
    {steps : Option (List Fields)} {out : Option Stored}
    (h : update now id changes steps tables supply = (.ok (out, tables'), supply')) :
    ∃ (e : Edit) (cells : List (Column WorkflowRow × Cell)),
      find? tables id = some e.row ∧ e.changes = changes ∧
      workflowTable.changedCells id e.values = .ok cells ∧
      workflowTable.violation? (tables.workflows.filter (workflowTable.idOf · != id))
        (workflowTable.rewritten now cells e.row) cells = none ∧
      out = get? tables' id ∧
      Replaced now id (workflowTable.withCells now id cells tables) supply steps tables'
        supply' := by
  obtain ⟨e, _, _, hbegin, hrest⟩ := ok_of_bind h
  obtain ⟨_, _, _, hcommit, hread⟩ := ok_of_bind hrest
  cases hread
  obtain ⟨hfind, hchanges, rfl, hp⟩ := beginEdit_eq_ok hbegin
  obtain ⟨cells, hcells, hpermitted, hwritten⟩ := commitEdit_eq_ok hcommit
  obtain rfl := id_of_find? hfind
  refine ⟨e, cells, hfind, hchanges, hcells, hpermitted _ hfind, rfl, ?_⟩
  generalize e.steps = built? at hp hwritten
  cases hp with
  | nothing =>
    obtain ⟨rfl, rfl⟩ := hwritten
    exact .kept
  | accepted hb =>
    obtain ⟨rows, hi, rfl, rfl⟩ := hwritten
    exact .replaced hb hi

end Stepwise.Workflow
