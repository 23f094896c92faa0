import Mathlib.Tactic.Common
import Stepwise.Proofs.Json.Proper
import Stepwise.Proofs.Store.Spared
import Stepwise.Proofs.Workflow.Writes
import Stepwise.Store.Schema

/-!
# Changes of workflows are made whole

A change of a workflow checks everything that it can before it writes anything, so if the workflow
is unknown or the steps are rejected there is nothing to take back. A change that succeeds counts
the version up by one, sets the columns that it was given values for, replaces the steps if it was
given some, and touches nothing else.
-/

namespace Stepwise.Workflow

open Store StepSet Transaction

/-- The columns that a change may give values for. -/
def revisable : List String := ["name", "description", "icon", "color", "trigger", "active"]

/-- Values for some of these columns. -/
structure Revision where
  data : Fields
  only : ∀ name, name ∉ revisable → data.get? (.text name) = none

/-- A new value for one column. -/
def Revision.ofValue (name : String) (value : Value) (h : name ∈ revisable) : Revision where
  data := [(.text name, value)]
  only := by
    intro other hother
    have hne : name ≠ other := by
      rintro rfl
      exact hother h
    simp [Fields.get?, hne]

/-- A revision gives no values for the other columns. -/
def Revision.changes (r : Revision) : Changes where
  data := r.data
  spares := fun name hname => r.only name fun hmem => by
    revert name
    decide

/-! ## Columns -/

/-- A change that is written revises all columns but the version and the time of the change. -/
theorem revises_of_changedCells {e : Edit}
    {cells : List (Column WorkflowRow × Cell)} {others : List WorkflowRow} {after : WorkflowRow}
    (hcells : workflowTable.changedCells e.row.id e.values = .ok cells)
    (hpermitted : workflowTable.violation? others after cells = none) {c : Column WorkflowRow}
    (hc : c ∈ workflowTable.columns) (hversion : c.name ≠ "version")
    (hupdated : c.name ≠ "updated_at") (now : Instant) :
    c.Revises (e.changes.data.field c.name) e.row (workflowTable.rewritten now cells e.row) := by
  have hrevises :=
    lawful_workflowTable.revises_of_changedCells hcells hpermitted hc hupdated now
  have hfield : e.data.field c.name = e.changes.data.field c.name := by
    rw [Fields.field, e.get?_data hversion, Fields.field]
  rwa [hfield] at hrevises

/-- A trigger that is given in place of another one is stored as it is. -/
theorem trigger_of_revises {value : Value} {before after : WorkflowRow}
    (h : ∀ c ∈ workflowTable.columns, c.name = "trigger" → c.Revises value before after)
    (hnull : value ≠ .null) (hother : before.trigger.equal value = false)
    (hproper : Json.Proper (fun _ => True) value) : after.trigger = value := by
  have hc : ∃ c ∈ workflowTable.columns, c.name = "trigger" ∧ c.sort = .json ∧
      ∀ row, c.read row = .json row.trigger := by
    simp [workflowTable]
  obtain ⟨c, hc, hname, hsort, hread⟩ := hc
  have hwritten := (h c hc hname).written hnull (by rw [hread]; exact hother) default
  rw [hsort, hread, ColumnSort.cell, Json.settle_of_proper hproper] at hwritten
  exact (Cell.json.inj (Except.ok.inj hwritten)).symm

/-! ## A change as it goes -/

/-- Changes a workflow access by access. -/
def updateInPlace (now : Instant) (id : String) (changes : Changes)
    (steps : Option (List Fields)) : InPlace (Option Stored) := do
  let tables ← .access Transaction.tables
  match find? tables id with
  | none => .access (.fail .workflowMissing)
  | some row =>
    let built ← .access (match steps with
      | none => pure none
      | some steps => some <$> buildSteps id steps)
    let edit : Edit := ⟨row, changes, built⟩
    let _ ← .access (workflowTable.rewrite now row.id edit.values)
    match built with
    | none => pure ()
    | some built => do
      .access (.modify (withoutSteps row.id))
      .access (insertSteps now built)
    let tables ← .access Transaction.tables
    return get? tables id

theorem undone_updateInPlace (now : Instant) (id : String) (changes : Changes)
    (steps : Option (List Fields)) :
    (updateInPlace now id changes steps).undone = update now id changes steps := by
  simp only [updateInPlace, update, beginEdit, InPlace.undone_bind, InPlace.undone_access,
    bind_assoc]
  congr 1
  funext tables
  cases find? tables id with
  | none => rfl
  | some row =>
    cases steps with
    | none =>
      simp only [pure_bind, bind_assoc, commitEdit, InPlace.undone_bind, InPlace.undone_access,
        InPlace.undone_pure]
    | some steps =>
      simp only [map_eq_pure_bind, pure_bind, bind_assoc, commitEdit, InPlace.undone_bind,
        InPlace.undone_access, InPlace.undone_pure]
      rfl

variable {now : Instant} {id : String} {changes : Changes}
variable {steps : Option (List Fields)} {tables : Tables} {supply : Supply}

/-- An unknown workflow is found out before anything is written. -/
theorem updateInPlace_of_missing (h : find? tables id = none) :
    updateInPlace now id changes steps tables supply =
      (.error .workflowMissing, tables, supply) := by
  refine (InPlace.bind_of_ok rfl).trans ?_
  rw [h]
  rfl

/-- So is a list of steps that is rejected. -/
theorem updateInPlace_of_rejected {row : WorkflowRow} (h : find? tables id = some row)
    {list : List Fields} {fault : Fault} {fresh : Nat}
    (hb : build id supply.fresh list = (.error fault, fresh)) :
    updateInPlace now id changes (some list) tables supply =
      (.error fault, tables, { supply with fresh }) := by
  have hbuild : (some <$> buildSteps id list : Transaction _) tables supply =
      (.error fault, { supply with fresh }) := by
    show (buildSteps id list).andThen _ tables supply = _
    simp only [Transaction.andThen, buildSteps, hb, Except.map]
  refine (InPlace.bind_of_ok rfl).trans ?_
  rw [h]
  exact InPlace.bind_of_error (InPlace.access_of_error hbuild)

/-- The values that a change writes can be stored in the row of the workflow. -/
def CanWrite (now : Instant) (changes : Changes) (tables : Tables) (row : WorkflowRow) : Prop :=
  ∃ cells, workflowTable.changedCells row.id (Edit.values ⟨row, changes, none⟩) = .ok cells ∧
    workflowTable.violation? (tables.workflows.filter (workflowTable.idOf · != row.id))
      (workflowTable.rewritten now cells row) cells = none

theorem canWrite_iff {row : WorkflowRow} : CanWrite now changes tables row ↔
    (match workflowTable.changedCells row.id (Edit.values ⟨row, changes, none⟩) with
    | .ok cells =>
      (workflowTable.violation? (tables.workflows.filter (workflowTable.idOf · != row.id))
        (workflowTable.rewritten now cells row) cells).isNone
    | .error _ => false) = true := by
  unfold CanWrite
  split
  · simp_all
  · simp_all

instance (now : Instant) (changes : Changes) (tables : Tables) (row : WorkflowRow) :
    Decidable (CanWrite now changes tables row) := decidable_of_iff _ canWrite_iff.symm

theorem CanWrite.rewrite_eq_ok {row : WorkflowRow} (h : CanWrite now changes tables row)
    (hfind : find? tables row.id = some row) (built : Option (List NewStep)) (supply : Supply) :
    ∃ cells out, workflowTable.rewrite now row.id (Edit.values ⟨row, changes, built⟩) tables
      supply = (.ok (out, workflowTable.withCells now row.id cells tables), supply) := by
  obtain ⟨cells, hcells, hpermitted⟩ := h
  have hread : Transaction.ofExcept
      (workflowTable.changedCells row.id (Edit.values ⟨row, changes, built⟩)) tables supply =
      (.ok (cells, tables), supply) := by
    show Transaction.ofExcept
      (workflowTable.changedCells row.id (Edit.values ⟨row, changes, none⟩)) tables supply = _
    rw [hcells]
    rfl
  refine ⟨cells, some (workflowTable.rewritten now cells row), ?_⟩
  refine (Transaction.bind_of_ok hread).trans ((Transaction.bind_of_ok rfl).trans ?_)
  rw [show workflowTable.find? tables row.id = some row from hfind]
  dsimp only
  rw [show workflowTable.violation? ((workflowTable.rows tables).filter
    (workflowTable.idOf · != row.id)) (workflowTable.rewritten now cells row) cells = none from
      hpermitted]
  rfl

/-- A change that gives no new values can always be written. -/
theorem canWrite_of_blank (h : ∀ name, changes.data.field name = .null) (row : WorkflowRow) :
    CanWrite now changes tables row := by
  obtain ⟨cells, hcells, hnull, hrewritten⟩ :=
    Edit.changedCells_of_blank (e := ⟨row, changes, none⟩) h
  refine ⟨cells, hcells, Table.violation?_eq_none_iff.mpr
    ⟨fun c hcell => absurd rfl (hnull _ hcell), fun c hc hunique other hother => ?_⟩⟩
  have hid : ∀ row, c.read row = .text row.id := by
    revert c
    simp [workflowTable]
  have hne : workflowTable.idOf other ≠ row.id := by
    simpa using (List.mem_filter.mp hother).2
  rw [hrewritten, hid, hid]
  exact beq_eq_false_iff_ne.mpr hne

/-- A change of a workflow that is there succeeds if what is to be stored can be stored. -/
theorem exists_updateInPlace_eq_ok {row : WorkflowRow} (h : find? tables id = some row)
    (hc : CanWrite now changes tables row)
    (hsteps : ∀ list, steps = some list → ∃ built rows,
      (build id supply.fresh list).1 = .ok built ∧ built.mapM (stepRow now) = .ok rows ∧
      ∀ row ∈ rows, ∀ old ∈ tables.steps, old.workflow ≠ id → old.id ≠ row.id) :
    ∃ out tables' supply',
      updateInPlace now id changes steps tables supply = (.ok out, tables', supply') := by
  obtain rfl := id_of_find? h
  cases steps with
  | none =>
    obtain ⟨cells, out, hrewrite⟩ := hc.rewrite_eq_ok h none supply
    let written := workflowTable.withCells now row.id cells tables
    refine ⟨get? written row.id, written, supply, (InPlace.bind_of_ok rfl).trans ?_⟩
    rw [h]
    refine (InPlace.bind_of_ok rfl).trans ?_
    exact (InPlace.bind_of_ok (InPlace.access_of_ok hrewrite)).trans rfl
  | some list =>
    obtain ⟨built, rows, hb, hrows, hfresh⟩ := hsteps list rfl
    let left : Supply := { supply with fresh := (build row.id supply.fresh list).2 }
    obtain ⟨cells, out, hrewrite⟩ := hc.rewrite_eq_ok h (some built) left
    let cleared := withoutSteps row.id (workflowTable.withCells now row.id cells tables)
    let stored : Tables := { cleared with steps := cleared.steps ++ rows }
    have hbuild : (some <$> buildSteps row.id list : Transaction _) tables supply =
        (.ok (some built, tables), left) := by
      show (buildSteps row.id list).andThen _ tables supply = _
      simp only [Transaction.andThen, buildSteps, hb, Except.map]
      rfl
    have hinsert : insertSteps now built cleared left = (.ok ((), stored), left) := by
      refine insertSteps_of_fresh hrows fun row' hrow old hold => ?_
      obtain ⟨hmem, hother⟩ := List.mem_filter.mp hold
      exact hfresh row' hrow old hmem (by simpa using hother)
    refine ⟨get? stored row.id, stored, left, (InPlace.bind_of_ok rfl).trans ?_⟩
    rw [h]
    refine (InPlace.bind_of_ok (InPlace.access_of_ok hbuild)).trans ?_
    refine (InPlace.bind_of_ok (InPlace.access_of_ok hrewrite)).trans ?_
    refine (InPlace.bind_of_ok rfl).trans ?_
    exact (InPlace.bind_of_ok (InPlace.access_of_ok hinsert)).trans rfl

/-! ## What a change leaves behind -/

/-- What a change that succeeds leaves behind: the row of the workflow with its new values, and its
new steps if there are any; nothing else is changed. -/
structure Revised (now : Instant) (id : String) (r : Revision) (steps : Option (List Fields))
    (first : Nat) (tables tables' : Tables) (out : Option Stored) : Prop where
  row : ∃ old new, find? tables id = some old ∧ out = some ⟨new, stepsOf tables' id⟩ ∧
    get? tables' id = out ∧ new.version = old.version + 1 ∧
    (∀ c ∈ workflowTable.columns, c.name ≠ "version" → c.name ≠ "updated_at" →
      c.Revises (r.data.field c.name) old new) ∧
    (r.data.field "trigger" ≠ .null → old.trigger.equal (r.data.field "trigger") = false →
      Json.Proper (fun _ => True) (r.data.field "trigger") →
      new.trigger = r.data.field "trigger")
  kept : steps = none → tables'.steps = tables.steps
  replaced : ∀ list, steps = some list → ShowsSet now id first list (stepsOf tables' id) ∧
    tables'.steps = tables.steps.filter (·.workflow != id) ++ stepsOf tables' id
  gone : steps.isSome = true → (∀ old ∈ tables.steps, ∀ n, first ≤ n → old.id ≠ freshId n) →
    ∀ old ∈ tables.steps, old.workflow = id → old ∉ tables'.steps
  ids : tables'.workflows.map (·.id) = tables.workflows.map (·.id)
  others : tables'.workflows.filter (·.id != id) = tables.workflows.filter (·.id != id)
  otherSteps : tables'.steps.filter (·.workflow != id) = tables.steps.filter (·.workflow != id)
  beyond : tables'.besidesWorkflows = tables.besidesWorkflows

/-- What replacing the steps leaves behind. -/
theorem Replaced.steps_eq {tables tables' : Tables} {supply supply' : Supply}
    (h : Replaced now id tables supply steps tables' supply') :
    tables'.workflows = tables.workflows ∧ tables'.besidesWorkflows = tables.besidesWorkflows ∧
      (steps = none → tables'.steps = tables.steps) ∧
      ∀ list, steps = some list →
        ShowsSet now id supply.fresh list (stepsOf tables' id) ∧
        tables'.steps = tables.steps.filter (·.workflow != id) ++ stepsOf tables' id := by
  cases h with
  | kept => exact ⟨rfl, rfl, fun _ => rfl, nofun⟩
  | @replaced list built rows hb hi =>
    refine ⟨rfl, rfl, nofun, fun list' hlist => ?_⟩
    cases hlist
    have hshows := hb.showsSet hi.rows_eq
    have hsteps : stepsOf { tables with steps := (withoutSteps id tables).steps ++ rows } id =
        rows := by
      refine hshows.stepsOf_eq ?_
      show (tables.steps.filter (·.workflow != id) ++ rows).filter (·.workflow == id) = rows
      have hall : rows.filter (·.workflow == id) = rows :=
        List.filter_eq_self.mpr fun row hrow => beq_iff_eq.mpr (hshows.workflow_eq hrow)
      rw [List.filter_append, own_of_others, hall, List.nil_append]
    rw [hsteps]
    exact ⟨hshows, rfl⟩

/-- The old steps of the workflow are gone, if their ids are not drawn again. -/
theorem Replaced.gone {tables tables' : Tables} {supply supply' : Supply}
    (h : Replaced now id tables supply steps tables' supply') (hsome : steps.isSome = true)
    (hfresh : ∀ old ∈ tables.steps, ∀ n, supply.fresh ≤ n → old.id ≠ freshId n) {old : StepRow}
    (hold : old ∈ tables.steps) (hworkflow : old.workflow = id) : old ∉ tables'.steps := by
  obtain ⟨list, hlist⟩ := Option.isSome_iff_exists.mp hsome
  obtain ⟨hshows, heq⟩ := h.steps_eq.2.2.2 list hlist
  rw [heq]
  intro hmem
  obtain hmem | hmem := List.mem_append.mp hmem
  · obtain ⟨_, hother⟩ := List.mem_filter.mp hmem
    simp [hworkflow] at hother
  · obtain ⟨i, _, hid⟩ := hshows.exists_freshId hmem
    exact hfresh old hold _ (Nat.le_add_right _ _) hid

theorem Replaced.otherSteps {tables tables' : Tables} {supply supply' : Supply}
    (h : Replaced now id tables supply steps tables' supply') :
    tables'.steps.filter (·.workflow != id) = tables.steps.filter (·.workflow != id) := by
  obtain ⟨_, _, hkept, hreplaced⟩ := h.steps_eq
  cases hsteps : steps with
  | none => rw [hkept hsteps]
  | some list =>
    obtain ⟨hshows, heq⟩ := hreplaced list hsteps
    have hnone : (stepsOf tables' id).filter (·.workflow != id) = [] := by
      refine List.filter_eq_nil_iff.mpr fun row hrow => ?_
      simp [hshows.workflow_eq hrow]
    rw [heq, List.filter_append, hnone, List.append_nil, List.filter_filter]
    simp

theorem revised_of_updateInPlace {r : Revision} {out : Option Stored} {tables' : Tables}
    {supply' : Supply}
    (h : updateInPlace now id r.changes steps tables supply = (.ok out, tables', supply')) :
    Revised now id r steps supply.fresh tables tables' out := by
  have hupdate := InPlace.fst_undone_eq_ok h
  rw [undone_updateInPlace] at hupdate
  obtain ⟨e, cells, hfind, hchanges, hcells, hpermitted, rfl, hreplaced⟩ := update_eq_ok hupdate
  obtain rfl := id_of_find? hfind
  obtain ⟨hworkflows, hbeyond, hkept, hreplace⟩ := hreplaced.steps_eq
  have hmakes := Edit.makes_of_changedCells hcells now e.row
  have hget : get? tables' e.row.id =
      some ⟨workflowTable.rewritten now cells e.row, stepsOf tables' e.row.id⟩ := by
    have hrow := find?_withCells hcells now e.row.id tables
    rw [find?, ← hworkflows, hfind] at hrow
    rw [get?, find?, hrow]
    rfl
  have hrevises : ∀ c ∈ workflowTable.columns, c.name ≠ "version" → c.name ≠ "updated_at" →
      c.Revises (r.data.field c.name) e.row (workflowTable.rewritten now cells e.row) := by
    intro c hc hversion hupdated
    have hrevises := revises_of_changedCells hcells hpermitted hc hversion hupdated now
    rwa [hchanges] at hrevises
  refine {
    row := ⟨e.row, _, hfind, hget, rfl, hmakes.version, hrevises,
      trigger_of_revises fun c hc hname => ?_⟩
    kept := hkept
    replaced := hreplace
    gone := fun hsome hfresh _ => hreplaced.gone hsome hfresh
    ids := by rw [hworkflows, ids_withCells hcells]
    others := by rw [hworkflows, filter_withCells hcells]
    otherSteps := hreplaced.otherSteps
    beyond := hbeyond }
  rw [← hname]
  exact hrevises c hc (by rw [hname]; decide) (by rw [hname]; decide)

/-- A change of a workflow is all or nothing. If the workflow is unknown or the steps are rejected,
nothing was written when that is found out; if the change succeeds, its workflow is revised and
nothing else is touched; and it succeeds unless what is to be stored cannot be stored. Taking back
what was written before any other failure makes it the change as a transaction. -/
theorem update_all_or_nothing (now : Instant) (id : String) (r : Revision)
    (steps : Option (List Fields)) (tables : Tables) (supply : Supply) :
    let change := updateInPlace now id r.changes steps
    change.undone = update now id r.changes steps ∧
    (find? tables id = none →
      change tables supply = (.error .workflowMissing, tables, supply)) ∧
    (∀ row list fault fresh, find? tables id = some row → steps = some list →
      build id supply.fresh list = (.error fault, fresh) →
      change tables supply = (.error fault, tables, { supply with fresh })) ∧
    (∀ out tables' supply', change tables supply = (.ok out, tables', supply') →
      Revised now id r steps supply.fresh tables tables' out) ∧
    (∀ row, find? tables id = some row → CanWrite now r.changes tables row →
      (∀ list, steps = some list → ∃ built rows, (build id supply.fresh list).1 = .ok built ∧
        built.mapM (stepRow now) = .ok rows ∧
        ∀ row ∈ rows, ∀ old ∈ tables.steps, old.workflow ≠ id → old.id ≠ row.id) →
      ∃ out tables' supply', change tables supply = (.ok out, tables', supply')) := by
  refine ⟨undone_updateInPlace now id _ steps, updateInPlace_of_missing, ?_,
    fun _ _ _ => revised_of_updateInPlace, fun _ h hc hs => exists_updateInPlace_eq_ok h hc hs⟩
  rintro row list fault fresh hfind rfl hb
  exact updateInPlace_of_rejected hfind hb

/-- A workflow with a step. -/
def storedOnce : Tables :=
  { Tables.empty with
    workflows := [{ (default : WorkflowRow) with id := "u-1", name := "old", version := 7 }]
    steps := [{ (default : StepRow) with id := "u-2", workflow := "u-1" }] }

/-- A condition with a step below it. -/
def branching : List Fields :=
  [[(.text "id", .text "a"), (.text "name", .text "check"), (.text "type", .text "condition")],
    [(.text "name", .text "rest"), (.text "type", .text "delay"), (.text "parent_id", .text "a")]]

/-- The workflow is given a new name, and the two steps in place of its own. A workflow that is not
there and a step without a type change nothing. -/
theorem revised_of_storedOnce :
    let newName := Revision.ofValue "name" (.text "new") (by decide)
    let change := updateInPlace ⟨5⟩ "u-1" newName.changes
    updateInPlace ⟨5⟩ "u-9" newName.changes none storedOnce ⟨1, 3, 1⟩ =
      (.error .workflowMissing, storedOnce, ⟨1, 3, 1⟩) ∧
    change (some [[]]) storedOnce ⟨1, 3, 1⟩ =
      (.error (.missingKey "type"), storedOnce, ⟨1, 4, 1⟩) ∧
    ∃ out tables' supply', change (some branching) storedOnce ⟨1, 3, 1⟩ =
      (.ok out, tables', supply') ∧
      Revised ⟨5⟩ "u-1" newName (some branching) 3 storedOnce tables' out ∧
      (stepsOf tables' "u-1").length = 2 := by
  intro newName change
  have hfind : ∃ row, find? storedOnce "u-1" = some row ∧
      CanWrite ⟨5⟩ newName.changes storedOnce row := ⟨_, rfl, by decide +kernel⟩
  obtain ⟨row, hfind, hwrite⟩ := hfind
  have hunknown := (update_all_or_nothing ⟨5⟩ "u-9" newName none storedOnce ⟨1, 3, 1⟩).2.1 rfl
  have hrejected := (update_all_or_nothing ⟨5⟩ "u-1" newName (some [[]]) storedOnce
    ⟨1, 3, 1⟩).2.2.1 row [[]] _ _ hfind rfl rfl
  obtain ⟨_, _, _, hrevised, hsucceeds⟩ := update_all_or_nothing ⟨5⟩ "u-1" newName
    (some branching) storedOnce ⟨1, 3, 1⟩
  have haccepted : ∀ list, some branching = some list → ∃ built rows,
      (build "u-1" 3 list).1 = .ok built ∧ built.mapM (stepRow ⟨5⟩) = .ok rows ∧
      ∀ row ∈ rows, ∀ old ∈ storedOnce.steps, old.workflow ≠ "u-1" → old.id ≠ row.id := by
    intro list hlist
    cases hlist
    refine ⟨_, _, rfl, rfl, fun row _ old hold hother => absurd ?_ hother⟩
    rw [List.mem_singleton.mp hold]
  obtain ⟨out, tables', supply', hout⟩ := hsucceeds row hfind hwrite haccepted
  have hrev := hrevised out tables' supply' hout
  exact ⟨hunknown, hrejected, out, tables', supply', hout, hrev,
    (hrev.replaced branching rfl).1.length_eq⟩

/-- What starts a workflow, with a limit. -/
def limitedTo (limit : Value) : Value := .object [(.text "limit", limit)]

/-- A workflow with a limit that is a truth. -/
def storedLimit : Tables :=
  { Tables.empty with
    workflows := [{ (default : WorkflowRow) with
      id := "u-1", version := 7, trigger := limitedTo (.bool true) }] }

/-- A limit of one is given in place of the truth that it equals. The change succeeds and counts the
version up, but the trigger is left as it was. -/
theorem equal_trigger_kept :
    let newLimit := Revision.ofValue "trigger" (limitedTo (.int 1)) (by decide)
    ∃ row steps tables' supply',
      updateInPlace ⟨5⟩ "u-1" newLimit.changes none storedLimit ⟨1, 3, 1⟩ =
        (.ok (some ⟨row, steps⟩), tables', supply') ∧
      row.version = 8 ∧ row.trigger = limitedTo (.bool true) ∧
      row.trigger ≠ limitedTo (.int 1) := by
  intro newLimit
  have hfind : ∃ row, find? storedLimit "u-1" = some row ∧ row.version = 7 ∧
      row.trigger = limitedTo (.bool true) ∧ CanWrite ⟨5⟩ newLimit.changes storedLimit row :=
    ⟨_, rfl, rfl, rfl, by decide +kernel⟩
  obtain ⟨old, hfind, hversion, htrigger, hwrite⟩ := hfind
  obtain ⟨out, tables', supply', hout⟩ : ∃ out tables' supply',
      updateInPlace ⟨5⟩ "u-1" newLimit.changes none storedLimit ⟨1, 3, 1⟩ =
        (.ok out, tables', supply') := exists_updateInPlace_eq_ok hfind hwrite nofun
  obtain ⟨old', new, hold, rfl, -, hnew, hrevises, -⟩ := (revised_of_updateInPlace hout).row
  obtain rfl := Option.some.inj (hfind.symm.trans hold)
  have hequal : (limitedTo (.bool true)).equal (limitedTo (.int 1)) = true := by decide +kernel
  have hkept : new.trigger = limitedTo (.bool true) := by
    have hc : ∃ c ∈ workflowTable.columns, c.name = "trigger" ∧
        ∀ row, c.read row = .json row.trigger := by
      simp [workflowTable]
    obtain ⟨c, hc, hname, hread⟩ := hc
    have hsame := (hrevises c hc (by rw [hname]; decide) (by rw [hname]; decide)).kept
      (.inr (by rw [hread, htrigger, hname]; exact hequal))
    rw [hread, hread] at hsame
    exact (Cell.json.inj hsame).trans htrigger
  refine ⟨new, _, _, _, hout, by rw [hnew, hversion]; rfl, hkept, ?_⟩
  rw [hkept]
  simp [limitedTo]

end Stepwise.Workflow
