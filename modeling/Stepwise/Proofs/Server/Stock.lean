import Mathlib.Tactic.Common
import Stepwise.Proofs.Api.History
import Stepwise.Proofs.Server.Tables
import Stepwise.Proofs.Workflow.Resubmission

/-!
# The steps that a service has stored

Whatever a service was asked for, the steps of every workflow that it has stored are as an accepted
set is stored, all of whose steps were read from a request. The ids of workflows and steps were
drawn, so that those of new steps are nowhere in use.
-/

namespace Stepwise.Store

open Workflow StepSet Api

/-- The steps of each workflow show a set that was submitted, under ids that were drawn. -/
structure Stocked (db : Database) : Prop where
  workflow : ∀ w ∈ db.tables.workflows, ∃ n < db.supply.fresh, w.id = freshId n
  owner : ∀ row ∈ db.tables.steps, ∃ n < db.supply.fresh, row.workflow = freshId n
  steps : ∀ id, ∃ now first steps, (∀ step ∈ steps, Submitted step) ∧
    first + steps.length ≤ db.supply.fresh ∧
    ShowsSet now id first steps (db.tables.steps.filter (·.workflow == id))

/-- A workflow without steps shows the empty set. -/
theorem showsSet_nil (now : Instant) (id : String) (first : Nat) :
    ShowsSet now id first [] [] where
  length_eq := rfl
  step _ _ _ h := nomatch h
  parent _ _ _ h := nomatch h
  next _ _ _ h := nomatch h
  container _ h := nomatch h

theorem stocked_empty : Stocked .empty where
  workflow := nofun
  owner := nofun
  steps _ := ⟨⟨0⟩, 0, [], nofun, Nat.zero_le _, showsSet_nil _ _ _⟩

namespace Stocked

variable {db db' : Database}

theorem stepsOf_eq (h : Stocked db) (id : String) :
    stepsOf db.tables id = db.tables.steps.filter (·.workflow == id) := by
  obtain ⟨_, _, _, _, _, hshows⟩ := h.steps id
  exact hshows.stepsOf_eq rfl

/-- The steps of a workflow can be submitted again. -/
theorem presentable (h : Stocked db) (id : String) : Presentable (stepsOf db.tables id) := by
  obtain ⟨_, _, _, hsubmitted, _, hshows⟩ := h.steps id
  rw [h.stepsOf_eq]
  exact hshows.presentable hsubmitted

/-- The ids of steps were drawn. -/
theorem drawn (h : Stocked db) {row : StepRow} (hrow : row ∈ db.tables.steps) :
    ∃ n < db.supply.fresh, row.id = freshId n := by
  obtain ⟨_, first, steps, _, hle, hshows⟩ := h.steps row.workflow
  obtain ⟨i, hi, hid⟩ := hshows.exists_freshId
    (List.mem_filter.mpr ⟨hrow, beq_iff_eq.mpr rfl⟩)
  rw [hshows.length_eq] at hi
  exact ⟨first + i, by omega, hid⟩

/-- An id that is yet to be drawn is that of no step. -/
theorem ne_freshId (h : Stocked db) {row : StepRow} (hrow : row ∈ db.tables.steps) {n : Nat}
    (hn : db.supply.fresh ≤ n) : row.id ≠ freshId n := by
  obtain ⟨k, hk, hid⟩ := h.drawn hrow
  rw [hid]
  intro heq
  have := freshId_inj heq
  omega

/-- Nothing is lost where no step changes and no new id of a workflow comes up. -/
theorem mono (h : Stocked db) (hs : db.supply.Before db'.supply)
    (hw : ∀ w ∈ db'.tables.workflows, ∃ old ∈ db.tables.workflows, w.id = old.id)
    (hsteps : db'.tables.steps = db.tables.steps) : Stocked db' where
  workflow w hmem := by
    obtain ⟨old, hold, heq⟩ := hw w hmem
    obtain ⟨n, hn, hid⟩ := h.workflow old hold
    exact ⟨n, Nat.lt_of_lt_of_le hn hs.fresh, heq.trans hid⟩
  owner row hrow := by
    obtain ⟨n, hn, hid⟩ := h.owner row (hsteps ▸ hrow)
    exact ⟨n, Nat.lt_of_lt_of_le hn hs.fresh, hid⟩
  steps id := by
    obtain ⟨now, first, steps, hsubmitted, hle, hshows⟩ := h.steps id
    exact ⟨now, first, steps, hsubmitted, Nat.le_trans hle hs.fresh, hsteps ▸ hshows⟩

theorem congr (h : Stocked db) (hs : db.supply.Before db'.supply)
    (hw : db'.tables.workflows = db.tables.workflows)
    (hsteps : db'.tables.steps = db.tables.steps) : Stocked db' :=
  h.mono hs (fun w hmem => ⟨w, hw ▸ hmem, rfl⟩) hsteps

/-- A workflow whose steps are taken away shows the empty set. -/
theorem withoutSteps (h : Stocked db) (id : String) :
    Stocked { db with tables := Workflow.withoutSteps id db.tables } where
  workflow := h.workflow
  owner row hrow := h.owner row (List.mem_of_mem_filter hrow)
  steps other := by
    show ∃ now first steps, _ ∧ _ ∧ ShowsSet now other first steps
      ((db.tables.steps.filter (·.workflow != id)).filter (·.workflow == other))
    by_cases heq : other = id
    · rw [heq, own_of_others]
      exact ⟨⟨0⟩, 0, [], nofun, Nat.zero_le _, showsSet_nil _ _ _⟩
    · rw [own_of_others_of_ne heq]
      exact h.steps other

/-- The rows of a submitted set are stored for a workflow that has no steps. -/
theorem insertSteps (h : Stocked db) {now : Instant} {id : String} {first fresh : Nat}
    {steps : List Fields} {rows : List StepRow} (hs : ShowsSet now id first steps rows)
    (hsubmitted : ∀ step ∈ steps, Submitted step) (hid : ∃ n < fresh, id = freshId n)
    (hnone : ∀ row ∈ db.tables.steps, row.workflow ≠ id) (hfirst : db.supply.fresh ≤ fresh)
    (hfresh : first + steps.length ≤ fresh) :
    Stocked ⟨{ db.tables with steps := db.tables.steps ++ rows }, { db.supply with fresh }⟩ where
  workflow w hw := by
    obtain ⟨n, hn, heq⟩ := h.workflow w hw
    exact ⟨n, Nat.lt_of_lt_of_le hn hfirst, heq⟩
  owner := by
    refine List.forall_mem_append.mpr ⟨fun row hrow => ?_, fun row hrow => ?_⟩
    · obtain ⟨n, hn, heq⟩ := h.owner row hrow
      exact ⟨n, Nat.lt_of_lt_of_le hn hfirst, heq⟩
    · rw [hs.workflow_eq hrow]
      exact hid
  steps other := by
    show ∃ now first steps, _ ∧ _ ∧
      ShowsSet now other first steps ((db.tables.steps ++ rows).filter (·.workflow == other))
    rw [List.filter_append]
    by_cases heq : other = id
    · have hold : db.tables.steps.filter (·.workflow == other) = [] :=
        List.filter_eq_nil_iff.mpr fun row hrow => by simpa [heq] using hnone row hrow
      have hnew : rows.filter (·.workflow == other) = rows :=
        List.filter_eq_self.mpr fun row hrow => by simp [heq, hs.workflow_eq hrow]
      rw [hold, hnew, heq]
      exact ⟨now, first, steps, hsubmitted, hfresh, hs⟩
    · have hnew : rows.filter (·.workflow == other) = [] :=
        List.filter_eq_nil_iff.mpr fun row hrow => by simp [hs.workflow_eq hrow, Ne.symm heq]
      obtain ⟨now', first', steps', hsubmitted', hle, hshows⟩ := h.steps other
      rw [hnew, List.append_nil]
      exact ⟨now', first', steps', hsubmitted', Nat.le_trans hle hfirst, hshows⟩

/-! ## Changes of workflows -/

theorem create (h : Stocked db) (now : Instant) {d : Draft}
    (hd : ∀ step ∈ d.steps, Submitted step) :
    Stocked (db.transact (Workflow.create now d)).2 := by
  have hsupply := (Database.transact_spares (spares_create now d) db).1
  obtain ⟨out, tables, supply, hout, heq⟩ | ⟨fault, supply, _, heq⟩ :=
    db.transact_cases (Workflow.create now d)
  · obtain ⟨built, rows, hid, _, hb, hi, rfl, rfl⟩ := create_eq_ok hout
    rw [heq]
    have hrow : Stocked ⟨{ db.tables with workflows := db.tables.workflows ++ [out.row] },
        { db.supply with fresh := db.supply.fresh + 1 }⟩ := by
      refine ⟨List.forall_mem_append.mpr ⟨fun w hw => ?_, List.forall_mem_singleton.mpr
        ⟨_, Nat.lt_succ_self _, hid⟩⟩, fun row hrow => ?_, fun id => ?_⟩
      · obtain ⟨n, hn, heq⟩ := h.workflow w hw
        exact ⟨n, Nat.lt_succ_of_lt hn, heq⟩
      · obtain ⟨n, hn, heq⟩ := h.owner row hrow
        exact ⟨n, Nat.lt_succ_of_lt hn, heq⟩
      · obtain ⟨now', first, steps, hsubmitted, hle, hshows⟩ := h.steps id
        exact ⟨now', first, steps, hsubmitted, Nat.le_succ_of_le hle, hshows⟩
    refine hrow.insertSteps (hb.showsSet hi.rows_eq) hd ⟨db.supply.fresh, by omega, hid⟩
      (fun row hmem howner => ?_) (Nat.le_add_right _ _) (Nat.le_refl _)
    -- No step can belong to a workflow whose id is yet to be drawn.
    obtain ⟨n, hn, hworkflow⟩ := h.owner row hmem
    have := freshId_inj (hworkflow.symm.trans (howner.trans hid))
    omega
  · rw [heq] at hsupply ⊢
    exact h.congr hsupply rfl rfl

theorem update (h : Stocked db) (now : Instant) (id : String) (changes : Changes)
    {steps : Option (List Fields)}
    (hsteps : ∀ list, steps = some list → ∀ step ∈ list, Submitted step) :
    Stocked (db.transact (Workflow.update now id changes steps)).2 := by
  have hsupply := (Database.transact_spares (spares_update now id changes steps) db).1
  obtain ⟨out, tables, supply, hout, heq⟩ | ⟨fault, supply, _, heq⟩ :=
    db.transact_cases (Workflow.update now id changes steps)
  · obtain ⟨e, cells, hfind, _, hcells, _, _, hreplaced⟩ := update_eq_ok hout
    rw [heq]
    have hold := id_of_find? hfind
    rw [← hold] at hcells
    have hwritten : Stocked ⟨workflowTable.withCells now id cells db.tables, db.supply⟩ := by
      refine h.mono (.refl _) (fun w hw => ?_) rfl
      have hmem : w.id ∈
          (workflowTable.withCells now id cells db.tables).workflows.map (·.id) :=
        List.mem_map_of_mem hw
      rw [ids_withCells hcells] at hmem
      obtain ⟨w', hw', heq⟩ := List.mem_map.mp hmem
      exact ⟨w', hw', heq.symm⟩
    cases hreplaced with
    | kept => exact hwritten
    | @replaced list built rows hb hi =>
      obtain ⟨n, hn, hid⟩ := h.workflow e.row (List.mem_of_find?_eq_some hfind)
      refine (hwritten.withoutSteps id).insertSteps (hb.showsSet hi.rows_eq) (hsteps list rfl)
        ⟨n, by show n < db.supply.fresh + list.length; omega, hold.symm.trans hid⟩
        (fun row hrow => ?_) (Nat.le_add_right _ _) (Nat.le_refl _)
      simpa using (List.mem_filter.mp hrow).2
  · rw [heq] at hsupply ⊢
    exact h.congr hsupply rfl rfl

/-- Steps that are submitted again are accepted, and mirrored under new ids. -/
theorem update_resubmitted (h : Stocked db) (now : Instant) {id : String} {stored : Stored}
    (hs : get? db.tables id = some stored) {changes : Changes}
    (hblank : ∀ name, changes.data.field name = .null) : ∃ stored' db',
      db.transact (Workflow.update now id changes (some (stored.steps.map resubmitted))) =
        (.ok (some stored'), db') ∧
      get? db'.tables id = some stored' ∧ Mirrors stored.steps stored'.steps ∧
      stored'.row = { stored.row with version := stored.row.version + 1, updated := now } ∧
      ∀ new ∈ stored'.steps, ∃ n, db.supply.fresh ≤ n ∧ new.id = freshId n := by
  obtain ⟨row, hfind, rfl⟩ := Option.map_eq_some_iff.mp hs
  have hpresentable := h.presentable id
  obtain ⟨out, tables', supply', hout⟩ : ∃ out tables' supply', updateInPlace now id
      changes (some ((stepsOf db.tables id).map resubmitted)) db.tables db.supply =
        (.ok out, tables', supply') := by
    refine exists_updateInPlace_eq_ok hfind (canWrite_of_blank hblank row) fun list hlist => ?_
    cases hlist
    obtain ⟨built, rows, hbuild, hrows⟩ := hpresentable.accepted now id db.supply.fresh
    refine ⟨built, rows, hbuild, hrows, fun row hrow old hold _ => ?_⟩
    obtain ⟨hb, _⟩ := built_of_build (Prod.ext hbuild rfl)
    obtain ⟨i, _, hid⟩ := (hb.showsSet hrows).exists_freshId hrow
    rw [hid]
    exact h.ne_freshId hold (Nat.le_add_right _ _)
  have hupdate := InPlace.fst_undone_eq_ok hout
  rw [undone_updateInPlace] at hupdate
  obtain ⟨e, cells, hold, rfl, hcells, _, hget, hreplaced⟩ := update_eq_ok hupdate
  obtain rfl := Option.some.inj (hfind.symm.trans hold)
  obtain rfl := id_of_find? hfind
  obtain ⟨_, hcells', _, hrewritten⟩ := Edit.changedCells_of_blank hblank
  obtain rfl := Except.ok.inj (hcells.symm.trans hcells')
  obtain ⟨hworkflows, _, _, hsteps⟩ := hreplaced.steps_eq
  obtain ⟨hshows, _⟩ := hsteps _ rfl
  have hget' : get? tables' e.row.id = some
      ⟨{ e.row with version := e.version, updated := now }, stepsOf tables' e.row.id⟩ := by
    have hrow := find?_withCells hcells now e.row.id db.tables
    rw [Workflow.find?, ← hworkflows, hfind, Option.map_some, hrewritten] at hrow
    rw [get?, Workflow.find?, hrow]
    rfl
  refine ⟨_, ⟨tables', supply'⟩, ?_, hget', hpresentable.mirrors hshows, rfl, fun new hnew => ?_⟩
  · rw [hget, hget'] at hupdate
    simp only [Database.transact, hupdate]
  · obtain ⟨i, _, hid⟩ := hshows.exists_freshId hnew
    exact ⟨_, Nat.le_add_right _ _, hid⟩

theorem delete (h : Stocked db) (id : String) :
    Stocked (db.transact (Workflow.delete id)).2 := by
  unfold Database.transact
  rw [Execution.delete_eq]
  split_ifs
  · exact h
  · refine (h.withoutSteps id).mono (.refl _) (fun w hw => ?_) rfl
    exact ⟨w, List.mem_of_mem_filter hw, rfl⟩

end Stocked

end Stepwise.Store

namespace Stepwise.Server

open Store Workflow Execution

variable {s : Server}

/-- A transaction that only changes triggers changes no workflow. -/
theorem stocked_triggers (h : Stocked s.db) {α : Type} {t : Transaction α}
    (ht : Transaction.Spares Tables.besidesTriggers t) : Stocked (s.db.transact t).2 := by
  obtain ⟨hsupply, hview⟩ := Database.transact_spares ht s.db
  exact h.congr hsupply (congrArg Tables.workflows hview :) (congrArg Tables.steps hview :)

theorem stocked_respond (h : Stocked s.db) (controller : Controller) (r : Execution.Request) :
    Stocked (s.respond controller r).2.db := by
  cases r with
  | accept url payload signature => exact stocked_triggers h (Trigger.spares_accept _ _ _ _)
  | start workflow input triggeredBy =>
    obtain ⟨hsupply, hview⟩ :=
      Database.transact_spares (spares_start s.now workflow input triggeredBy) s.db
    exact h.congr hsupply (congrArg Tables.workflows hview :) (congrArg Tables.steps hview :)
  | run id request =>
    obtain ⟨hsupply, hview⟩ := s.besidesTasks_respondRun id request
    exact h.congr hsupply (congrArg Tables.workflows hview :) (congrArg Tables.steps hview :)
  | _ => exact h.congr (.refl _) rfl rfl

theorem stocked_move (h : Stocked s.db) (b : Background) : Stocked (s.move b).2.db := by
  have hmoved := moved_move s b
  generalize s.move b = out at hmoved
  cases hmoved with
  | ended _ => exact h
  | answered _ _ => exact stocked_respond h _ _
  | sent _ _ => exact h
  | received _ _ => exact h

/-- All that a service does with its server keeps up what it has stored. -/
theorem kept_stocked : Maintained fun s => Stocked s.db where
  step s op hop h := by
    cases op with
    | createWorkflow draft => exact h.create s.now hop
    | updateWorkflow id changes steps => exact h.update s.now id changes hop
    | deleteWorkflow id => exact h.delete id
    | createTrigger workspace workflow name creator =>
      exact stocked_triggers h (Trigger.spares_create s.now workspace workflow name creator)
    | changeTrigger id change =>
      exact stocked_triggers h (spares_changeTrigger s.now id change.data)
    | deleteTrigger id => exact stocked_triggers h (spares_deleteTrigger id)
    | receive name controller url payload signature =>
      show Stocked (s.step _).db
      rw [step_receive]
      exact stocked_triggers h (Trigger.spares_accept s.now url payload signature)
    | receiveRaw url signature =>
      have hview := s.besidesTriggers_receiveRaw url signature
      exact h.congr (s.receiveRaw_spares url signature).1 (congrArg Tables.workflows hview :)
        (congrArg Tables.steps hview :)
    | cancel controller id =>
      show Stocked (s.cancel controller id).2.db
      unfold cancel
      split
      · exact h
      · rw [signal_db]
        exact h.congr (.refl _) rfl rfl
    | proceed n =>
      show Stocked (s.proceed n).db
      cases hb : s.background[n]? with
      | none =>
        rw [proceed_of_none hb]
        exact h
      | some b =>
        rw [proceed_of_some hb]
        exact stocked_move h b
    | _ => exact h
  background s others h := h

/-- Nor does it give back an id. -/
theorem kept_supply (supply : Supply) : Maintained fun s => supply.Before s.db.supply where
  step s op _ h := h.trans (s.supply_step op)
  background _ _ h := h

theorem stocked_fresh (rules : Rules) (script : List Outbound.Scripted) :
    Stocked (fresh rules script).db := stocked_empty

end Stepwise.Server
