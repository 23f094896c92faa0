import Mathlib.Tactic.Common
import Stepwise.Proofs.Api.History
import Stepwise.Proofs.Server.Stock
import Stepwise.Proofs.Value.Equality

/-!
# Steps that a client puts back

A client that reads a workflow and puts its steps back as it has read them is never refused. The
workflow has the same steps then, which refer to one another as they did, under ids that no step had
before; of the workflow itself only the version and the time of the change are new.
-/

namespace Stepwise.Api

open Input Reading Form Store Workflow StepSet Json Server

/-! ## Reading what is shown -/

section Shown

variable {rows : List StepRow} {row : StepRow}

theorem text?_ofText? (link : Option String) : text? (.ofText? link) = .ok link := by
  cases link <;> rfl

theorem stepKind_name (kind : StepKind) : stepKind (.text kind.name) = .ok kind := by
  simp only [stepKind, StepKind.ofName?_name]

/-- A step is read as it is shown, if all of its numbers can be shown. -/
theorem complete_readStep_stepView (h : Presentable rows) (hrow : row ∈ rows)
    (hf : isFinite row.config = true) (path : List Place) :
    (Form.read path (stepView row) readStep).complete = .ok (asSubmitted row) := by
  refine complete_read.mpr ⟨_, rfl, complete_readStep.mpr ⟨?_, ?_, ?_, ?_, ?_, ?_⟩⟩
  · exact (complete_optional_of_first? (("id", .text row.id)) rfl).mpr rfl
  · exact complete_required.mpr ⟨.text row.name, rfl, filledText_eq_ok.mpr ⟨rfl, h.name row hrow⟩⟩
  · refine complete_required.mpr ⟨.text row.type, rfl, ?_⟩
    rw [← h.kind_eq hrow]
    exact stepKind_name _
  · refine (complete_optional_of_first? (("config", shown row.config)) rfl).mpr ?_
    rw [shown_of_finite (h.clean_config hrow) hf, ← h.config_eq hrow]
    rfl
  · exact (complete_optional_of_first? (("parent_id", .ofText? row.parent)) rfl).mpr
      (text?_ofText? row.parent)
  · exact (complete_optional_of_first? (("next_step_id", .ofText? row.next)) rfl).mpr
      (text?_ofText? row.next)

theorem complete_readSteps_stepView (h : Presentable rows)
    (hf : ∀ row ∈ rows, isFinite row.config = true) (path : List Place) :
    (readSteps path (rows.map stepView)).complete = .ok (rows.map asSubmitted) := by
  have hread (items : List StepRow) (hitems : ∀ row ∈ items, row ∈ rows) (i : Nat) :
      List.Forall₂ (fun (item : Value × Nat) step =>
        (Form.read (path ++ [.index item.2]) item.1 readStep).complete = .ok step)
        ((items.map stepView).zipIdx i) (items.map asSubmitted) := by
    induction items generalizing i with
    | nil => exact .nil
    | cons row rest ih =>
      obtain ⟨hrow, hrest⟩ := List.forall_mem_cons.mp hitems
      exact .cons (complete_readStep_stepView h hrow (hf row hrow) _) (ih hrest (i + 1))
  exact complete_readSteps.mpr (hread rows (fun _ hrow => hrow) 0)

/-- The change of a workflow that gives it the steps of the rows, and nothing else. -/
def patchOf (rows : List StepRow) : WorkflowPatch :=
  ⟨none, none, none, none, none, none, some (rows.map asSubmitted)⟩

theorem blank_patchOf (rows : List StepRow) (name : String) :
    (patchOf rows).toChanges.data.field name = .null := by
  have hnull : ∀ field ∈ (patchOf rows).toChanges.data, field.2 = .null := by
    simp [patchOf, WorkflowPatch.toChanges, Value.ofText?]
  unfold Fields.field
  cases hget : (patchOf rows).toChanges.data.get? (.text name) with
  | none => rfl
  | some value =>
    obtain ⟨field, hmem, rfl⟩ := Fields.mem_of_get? hget
    exact hnull field hmem

/-- Steps that are put back as they are shown are read as a change of nothing but the steps. -/
theorem complete_readWorkflowPatch_stepView (h : Presentable rows)
    (hf : ∀ row ∈ rows, isFinite row.config = true) (path : List Place) :
    (readWorkflowPatch ⟨[(.text "steps", .list (rows.map stepView))], path⟩).complete =
      .ok (patchOf rows) := by
  have habsent {α : Type} [Inhabited α] {name : String} (hne : "steps" ≠ name)
      (field : Value → Except Input.Problem (Option α)) :
      (Form.optional ⟨[(.text "steps", .list (rows.map stepView))], path⟩ [name] none
        field).complete = .ok none := by
    refine (complete_optional_of_absent ?_).mpr rfl
    simp [Form.first?, Fields.get?, hne]
  refine complete_readWorkflowPatch.mpr ⟨habsent (by decide) _, habsent (by decide) _,
    habsent (by decide) _, habsent (by decide) _, habsent (by decide) _, habsent (by decide) _, ?_⟩
  refine complete_readStepList.mpr ⟨some (rows.map stepView), ?_, complete_readGiven.mpr
    ⟨_, complete_readSteps_stepView h hf _, rfl⟩⟩
  exact (complete_optional_of_first? (("steps", .list (rows.map stepView))) rfl).mpr rfl

end Shown

/-- The steps that a reply shows. -/
def Reply.steps? (reply : Reply) : Option Value :=
  match reply.content with
  | .json (.object fields) => Fields.get? fields (.text "steps")
  | _ => none

/-! ## Requests -/

namespace Service

variable {s : Service} {id : String} {r look : Request}

/-- A workflow that is there is shown. -/
theorem serve_getWorkflow (h : Leads s.settings look (.getWorkflow id)) {stored : Stored}
    (hs : get? s.server.db.tables id = some stored) :
    (s.serve look).1.status = 200 ∧ (s.serve look).1.content = .json (workflowView stored none) ∧
      (s.serve look).2.server = s.server := by
  refine serve_of_ok h (.json 200 (workflowView stored none)) ?_
  refine run_map_of_ok (x := getWorkflow id) ?_
  refine (run_bind_of_ok (a := s.server.db.tables) rfl).trans ?_
  rw [hs]
  rfl

theorem steps?_serve (h : Leads s.settings look (.getWorkflow id)) {stored : Stored}
    (hs : get? s.server.db.tables id = some stored) :
    (s.serve look).1.steps? = some (.list (stored.steps.map stepView)) := by
  unfold Reply.steps?
  rw [(serve_getWorkflow h hs).2.1]
  rfl

/-- A change of a workflow that succeeds is answered with the workflow. -/
theorem serve_updateWorkflow (h : Leads s.settings r (.updateWorkflow id)) {fields : Fields}
    (hbody : r.readBody = .ok (.json (.object fields))) {patch : WorkflowPatch}
    (hpatch : (readWorkflowPatch ⟨fields, [.name "body"]⟩).complete = .ok patch) {stored : Stored}
    {server : Server} (hs : s.server.transact (Workflow.update s.server.now id
      patch.toChanges (patch.steps.map fun steps => steps.map (·.toFields))) =
        (.ok (some stored), server)) :
    (s.serve r).1.status = 200 ∧ (s.serve r).1.content = .json (workflowView stored none) ∧
      (s.serve r).2.server = server := by
  refine serve_of_ok h (.json 200 (workflowView stored none)) ?_
  have hstore := run_store (fun now => Workflow.update now id patch.toChanges
    (patch.steps.map fun steps => steps.map (·.toFields))) s.server
  rw [hs] at hstore
  refine run_map_of_ok (x := updateWorkflow id r) ?_
  refine (run_bind_of_ok (a := .json (.object fields)) (by rw [hbody]; rfl)).trans ?_
  refine (run_bind_of_ok (a := patch) (by rw [Body.form_of_complete hpatch]; rfl)).trans ?_
  exact (run_bind_of_ok hstore).trans rfl

/-- A client reads a workflow and puts its steps back, once with each request. -/
def resubmit (look : Request) : Service → List Request → List Reply × Service
  | s, [] => ([], s)
  | s, r :: rest =>
    let (reply, s) := (s.serve look).2.serve r
    let (replies, s) := s.resubmit look rest
    (reply :: replies, s)

/-- Each of the requests is to change the workflow, with the steps exactly as they were shown just
before. -/
def Resubmits (id : String) (look : Request) : Service → List Request → Prop
  | _, [] => True
  | s, r :: rest =>
    Leads s.settings r (.updateWorkflow id) ∧
    (∃ steps, (s.serve look).1.steps? = some steps ∧
      r.readBody = .ok (.json (record [("steps", steps)]))) ∧
    Resubmits id look ((s.serve look).2.serve r).2 rest

variable {stored : Stored}

/-- Steps that are put back once are mirrored under new ids. -/
theorem serve_resubmitted (hs : Stocked s.server.db) (hr : Leads s.settings r (.updateWorkflow id))
    (hstored : get? s.server.db.tables id = some stored)
    (hf : ∀ row ∈ stored.steps, isFinite row.config = true)
    (hbody : r.readBody = .ok (.json (record [("steps", .list (stored.steps.map stepView))]))) :
    (s.serve r).1.status = 200 ∧ ∃ stored', get? (s.serve r).2.server.db.tables id = some stored' ∧
      Mirrors stored.steps stored'.steps ∧
      stored'.row = { stored.row with
        version := stored.row.version + 1, updated := s.server.now } ∧
      ∀ new ∈ stored'.steps, ∃ n, s.server.db.supply.fresh ≤ n ∧ new.id = freshId n := by
  obtain ⟨stored', db', hupdate, hget, hmirrors, hrow, hids⟩ :=
    hs.update_resubmitted s.server.now hstored (blank_patchOf stored.steps)
  have hpresentable : Presentable stored.steps := by
    obtain ⟨_, _, rfl⟩ := Option.map_eq_some_iff.mp hstored
    exact hs.presentable id
  have htransact : s.server.transact (Workflow.update s.server.now id
      (patchOf stored.steps).toChanges
      ((patchOf stored.steps).steps.map fun steps => steps.map (·.toFields))) =
        (.ok (some stored'), { s.server with db := db' }) := by
    have hsteps : (patchOf stored.steps).steps.map (fun steps => steps.map (·.toFields)) =
        some (stored.steps.map resubmitted) := by
      show some ((stored.steps.map asSubmitted).map _) = _
      rw [List.map_map]
      rfl
    rw [hsteps]
    unfold Server.transact
    exact congrArg (fun out => (out.1, ({ s.server with db := out.2 } : Server))) hupdate
  obtain ⟨hstatus, _, hserver⟩ := serve_updateWorkflow hr hbody
    (complete_readWorkflowPatch_stepView hpresentable hf _) htransact
  rw [hserver]
  exact ⟨hstatus, stored', hget, hmirrors, hrow, hids⟩

/-- However often steps are put back, all is as before but for the ids, the version and the time of
the change. -/
theorem resubmit_spec {requests : List Request} (hs : Stocked s.server.db)
    (hlook : Leads s.settings look (.getWorkflow id))
    (hstored : get? s.server.db.tables id = some stored)
    (hf : ∀ row ∈ stored.steps, isFinite row.config = true)
    (hr : Resubmits id look s requests) :
    (∀ reply ∈ (s.resubmit look requests).1, reply.status = 200) ∧
    (s.resubmit look requests).2.settings = s.settings ∧
    ∃ stored', get? (s.resubmit look requests).2.server.db.tables id = some stored' ∧
      Mirrors stored.steps stored'.steps ∧
      (∃ updated, stored'.row = { stored.row with
        version := stored.row.version + requests.length, updated }) ∧
      (requests ≠ [] → ∀ new ∈ stored'.steps,
        ∃ n, s.server.db.supply.fresh ≤ n ∧ new.id = freshId n) := by
  induction requests generalizing s stored with
  | nil =>
    refine ⟨nofun, rfl, stored, hstored, .refl _, ⟨stored.row.updated, ?_⟩, fun h => absurd rfl h⟩
    simp
  | cons r rest ih =>
    obtain ⟨hput, ⟨steps, hsteps, hbody⟩, hrest⟩ := hr
    obtain ⟨_, _, hserver⟩ := serve_getWorkflow hlook hstored
    obtain rfl : .list (stored.steps.map stepView) = steps :=
      Option.some.inj ((steps?_serve hlook hstored).symm.trans hsteps)
    have hsettings := settings_serve s look
    have hs' : Stocked (s.serve look).2.server.db := hserver.symm ▸ hs
    obtain ⟨hstatus, stored', hstored', hmirrors, hrow, hids⟩ := serve_resubmitted hs'
      (hsettings.symm ▸ hput) (hserver.symm ▸ hstored) hf hbody
    have hafter : Stocked ((s.serve look).2.serve r).2.server.db :=
      kept_serve kept_stocked hs'
    have hsettings' : ((s.serve look).2.serve r).2.settings = s.settings :=
      (settings_serve _ r).trans hsettings
    have hf' : ∀ row ∈ stored'.steps, isFinite row.config = true := by
      intro row hmem
      obtain ⟨i, hi⟩ := List.mem_iff_getElem?.mp hmem
      obtain ⟨old, hold⟩ := exists_between hmirrors.length_eq.symm hi
      rw [(hmirrors.row i old row hold hi).2.2.1]
      exact hf old (List.mem_of_getElem? hold)
    obtain ⟨hreplies, hlast, stored'', hget, hmirrors', ⟨updated, hrow'⟩, hids'⟩ :=
      ih hafter (hsettings'.symm ▸ hlook) hstored' hf' hrest
    refine ⟨List.forall_mem_cons.mpr ⟨hstatus, hreplies⟩, hlast.trans hsettings', stored'', hget,
      hmirrors.trans hmirrors', ⟨updated, ?_⟩, fun _ new hnew => ?_⟩
    · have hversion : stored.row.version + ((rest.length + 1 : Nat) : Int) =
          stored.row.version + 1 + rest.length := by omega
      rw [hrow', hrow, List.length_cons, hversion]
    · by_cases hempty : rest = []
      · subst hempty
        cases hstored'.symm.trans hget
        exact hserver ▸ hids new hnew
      · obtain ⟨n, hn, hid⟩ := hids' hempty new hnew
        have hsupply : s.server.db.supply.Before ((s.serve look).2.serve r).2.server.db.supply :=
          kept_serve (kept_supply _) (hserver.symm ▸ .refl _)
        exact ⟨n, Nat.le_trans hsupply.fresh hn, hid⟩

/-- Putting back what was read changes nothing but ids, the version and the time of the change.
Whatever a service was asked for before, and however often it is done, it is accepted each time, and
no step that was stored before has one of the new ids. -/
theorem resubmission_changes_only_ids (settings : Settings) (script : List Outbound.Scripted)
    (history : List Happening) {id : String} {look : Request}
    (hlook : Leads settings look (.getWorkflow id)) {stored : Stored}
    (hstored : get? ((start settings script).play history).server.db.tables id = some stored)
    (hf : ∀ row ∈ stored.steps, isFinite row.config = true) {requests : List Request}
    (hr : Resubmits id look ((start settings script).play history) requests) :
    let s := (start settings script).play history
    let after := s.resubmit look requests
    (∀ reply ∈ after.1, reply.status = 200) ∧
    (s.serve look).1.status = 200 ∧ (s.serve look).1.content = .json (workflowView stored none) ∧
    ∃ stored', (after.2.serve look).1.status = 200 ∧
      (after.2.serve look).1.content = .json (workflowView stored' none) ∧
      Mirrors stored.steps stored'.steps ∧
      (∃ updated, stored'.row = { stored.row with
        version := stored.row.version + requests.length, updated }) ∧
      (requests ≠ [] → ∀ new ∈ stored'.steps, ∀ old ∈ s.server.db.tables.steps,
        new.id ≠ old.id) := by
  intro s after
  have hs : Stocked s.server.db := kept_play kept_stocked (stocked_fresh _ _) history
  have hsettings : s.settings = settings := settings_play _ history
  have hlook' : Leads s.settings look (.getWorkflow id) := hsettings.symm ▸ hlook
  obtain ⟨hreplies, hlast, stored', hget, hmirrors, hrow, hids⟩ :=
    resubmit_spec hs hlook' hstored hf hr
  obtain ⟨hstatus, hcontent, _⟩ := serve_getWorkflow hlook' hstored
  obtain ⟨hstatus', hcontent', _⟩ := serve_getWorkflow (hlast.symm ▸ hlook') hget
  refine ⟨hreplies, hstatus, hcontent, stored', hstatus', hcontent', hmirrors, hrow, ?_⟩
  intro hne new hnew old hold heq
  obtain ⟨n, hn, hid⟩ := hids hne new hnew
  exact hs.ne_freshId hold hn (heq.symm.trans hid)

/-- A workflow with one step, a loop that is its own parent and successor. -/
def creation : Request :=
  ⟨"POST", "/api/v1/workflows/", [], [],
    "\x7b\"workspace_id\":\"w\",\"name\":\"n\",\"steps\":[\x7b\"id\":\"a\",\"name\":\"c\","
      ++ "\"type\":\"loop\",\"parent_id\":\"a\",\"nextStepId\":\"a\"\x7d]\x7d"⟩

/-- The workflow is looked at. -/
def glance : Request := ⟨"GET", "/api/v1/workflows/u-1", [], [], ""⟩

/-- Its step is put back under the id that it has. -/
def putting (id : String) : Request :=
  ⟨"PUT", "/api/v1/workflows/u-1", [], [],
    "\x7b\"steps\":[\x7b\"id\":\"" ++ id ++ "\",\"name\":\"c\",\"type\":\"loop\","
      ++ "\"config\":\x7b\x7d,\"position\":0,\"parent_id\":\"" ++ id
      ++ "\",\"next_step_id\":\"" ++ id ++ "\"\x7d]\x7d"⟩

/-- The service after the creation. -/
def created : Service := (start unset []).play [.serve creation]

/-- The service after the step was put back once. -/
def replaced : Service := ((created.serve glance).2.serve (putting "u-2")).2

/-- What is stored of a workflow, its steps in the order of the table. -/
theorem exists_stored {s : Service} (hs : Stocked s.server.db) (id : String)
    (hfind : (find? s.server.db.tables id).isSome = true) : ∃ stored,
      get? s.server.db.tables id = some stored ∧
        stored.steps = s.server.db.tables.steps.filter (·.workflow == id) := by
  obtain ⟨row, hrow⟩ := Option.isSome_iff_exists.mp hfind
  exact ⟨⟨row, _⟩, by rw [get?, hrow]; rfl, hs.stepsOf_eq id⟩

/-- The step as it is shown under an id. -/
def loopView (id : String) : Value :=
  record [("id", .text id), ("name", .text "c"), ("type", .text "loop"), ("config", .object []),
    ("position", .int 0), ("parent_id", .text id), ("next_step_id", .text id)]

theorem leads_glance : Leads unset glance (.getWorkflow "u-1") :=
  leads_of_decoded rfl (by decide +kernel) rfl

theorem leads_putting (id : String) : Leads unset (putting id) (.updateWorkflow "u-1") := by
  have hpath : Text.decodeAddress "/api/v1/workflows/u-1" = "/api/v1/workflows/u-1" := by
    decide +kernel
  have hroute : route "/api/v1" "PUT" "/api/v1/workflows/u-1" = .found (.updateWorkflow "u-1") :=
    rfl
  exact leads_of_decoded rfl hpath hroute

/-- The loop is put back twice. Each time it comes under another id, and is its own parent and
successor as before. -/
theorem resubmission_of_loop : Resubmits "u-1" glance created [putting "u-2", putting "u-3"] ∧
    ∃ stored, get? created.server.db.tables "u-1" = some stored ∧
      stored.steps.map stepView = [loopView "u-2"] ∧
      ∃ stored' : Stored, Mirrors stored.steps stored'.steps ∧
        stored'.row.version = stored.row.version + 2 := by
  have hcreated : Stocked created.server.db := kept_play kept_stocked (stocked_fresh _ _) _
  have hreplaced : Stocked replaced.server.db :=
    kept_serve kept_stocked (kept_serve kept_stocked hcreated)
  obtain ⟨stored, hstored, hsteps⟩ := exists_stored hcreated "u-1" (by decide +kernel)
  obtain ⟨stored', hstored', hsteps'⟩ := exists_stored hreplaced "u-1" (by decide +kernel)
  have hshown : stored.steps.map stepView = [loopView "u-2"] := by
    rw [hsteps]
    decide +kernel
  have hshown' : stored'.steps.map stepView = [loopView "u-3"] := by
    rw [hsteps']
    decide +kernel
  have hsettings : created.settings = unset := settings_play _ _
  have hsettings' : replaced.settings = unset :=
    (settings_serve _ _).trans ((settings_serve _ _).trans hsettings)
  have hlook : Leads created.settings glance (.getWorkflow "u-1") := hsettings ▸ leads_glance
  have hlook' : Leads replaced.settings glance (.getWorkflow "u-1") := hsettings' ▸ leads_glance
  have hput : Leads created.settings (putting "u-2") (.updateWorkflow "u-1") :=
    hsettings ▸ leads_putting "u-2"
  have hput' : Leads replaced.settings (putting "u-3") (.updateWorkflow "u-1") :=
    hsettings' ▸ leads_putting "u-3"
  have hbody : (putting "u-2").readBody =
      .ok (.json (record [("steps", .list (stored.steps.map stepView))])) := by
    rw [hshown]
    exact readBody_of_read (by decide +kernel) rfl (by decide +kernel)
  have hbody' : (putting "u-3").readBody =
      .ok (.json (record [("steps", .list (stored'.steps.map stepView))])) := by
    rw [hshown']
    exact readBody_of_read (by decide +kernel) rfl (by decide +kernel)
  have hrequests : Resubmits "u-1" glance created [putting "u-2", putting "u-3"] :=
    ⟨hput, ⟨_, steps?_serve hlook hstored, hbody⟩,
      hput', ⟨_, steps?_serve hlook' hstored', hbody'⟩, trivial⟩
  have hfinite : ∀ row ∈ stored.steps, isFinite row.config = true := by
    rw [hsteps]
    decide +kernel
  obtain ⟨_, _, _, final, _, _, hmirrors, ⟨_, hrow⟩, _⟩ := resubmission_changes_only_ids unset []
    [.serve creation] leads_glance hstored hfinite hrequests
  exact ⟨hrequests, stored, hstored, hshown, final, hmirrors, by rw [hrow]; rfl⟩

end Service

end Stepwise.Api
