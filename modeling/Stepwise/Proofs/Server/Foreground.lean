import Stepwise.Proofs.Execution.WellFormed
import Stepwise.Proofs.Run.Variables
import Stepwise.Proofs.Server.Records
import Stepwise.Proofs.Server.Stock

/-!
# Executions in the foreground

While an execution runs in the foreground, nothing else uses the server. So the one record that it
makes tells how it ended: as completed, with the variables of the report, if and only if there is a
report. What the variables hold is what JSON can hold, since the steps were submitted and the input
was received.
-/

namespace Stepwise

open Store Json

namespace Execution

/-! ## The variables of a report -/

/-- An answer hands over only what JSON can hold. -/
def Request.Received : (r : Request) → r.Answer → Prop
  | .load _, answer => ∀ tree, planned answer = .ok tree →
      ∀ step ∈ tree.steps, Run.IsReceived step
  | .run _ r, answer => r.Received answer
  | .accept _ _ _, _ | .start _ _ _, _ | .register _, _ | .withdraw _, _ | .close _ _ _, _ => True

/-- Surroundings that hand over only what JSON can hold. -/
def receiving : Contract surroundings Unit where
  may := fun _ _ => True
  fair := fun _ r answer => r.Received answer
  next := fun _ _ _ => ()

/-- The variables of a report hold what JSON can hold, and no two of them have one name. -/
def Report.Sound (report : Report) : Prop :=
  (∀ field ∈ report.output, Clean field.2) ∧ Fields.Apart report.output

theorem sound_conclude (rules : Rules) (id : String) (since : Instant)
    (outcome : Except Fault Unit) {context : Run.Context} (h : context.Sound) :
    (conclude rules id since outcome context).Keeps receiving
      (fun _ result => ∀ report, result = .ok report → report.Sound) () := by
  unfold conclude
  split
  · exact ⟨trivial, fun _ _ => nofun⟩
  · exact ⟨trivial, fun _ _ => ⟨trivial, fun _ _ => nofun⟩⟩
  · refine ⟨trivial, fun (cancelled : Bool) _ => ⟨trivial, fun _ _ => ?_⟩⟩
    cases cancelled with
    | true => exact nofun
    | false =>
      refine ⟨trivial, fun (closed : Bool) _ => ?_⟩
      cases closed with
      | true => exact fun report heq => Except.ok.inj heq ▸ ⟨h.vars, h.apart⟩
      | false => exact nofun

theorem sound_execute (rules : Rules) (workflow : String) {input : Value} (hinput : Clean input)
    (triggeredBy : Option String) :
    (execute rules workflow input triggeredBy).Keeps receiving
      (fun _ result => ∀ report, result = .ok report → report.Sound) () := by
  rw [execute_eq]
  refine ⟨trivial, fun (found : Option Workflow.Stored) hfound => ?_⟩
  show (afterLoad rules workflow input triggeredBy found).Keeps receiving _ ()
  unfold afterLoad
  cases hplan : planned found with
  | error fault => exact nofun
  | ok tree =>
    refine ⟨trivial, fun (started : Except Fault String) _ => ?_⟩
    cases started with
    | error fault => exact nofun
    | ok id =>
      refine ⟨trivial, fun _ _ => ⟨trivial, fun since _ => ?_⟩⟩
      have hsteps : (runSteps rules id tree input).Keeps receiving
          (fun _ out => True ∧ out.2.Sound) () := by
        refine Program.Keeps.lift (fun _ => ()) (fun _ => True) ?_ ?_ ?_ trivial
          (Run.sound_runTree (hfound tree hplan) rules.limit hinput)
        · exact fun _ _ _ _ => trivial
        · exact fun _ _ _ _ hanswer => hanswer
        · exact fun _ _ _ _ => ⟨trivial, rfl⟩
      exact (Program.keeps_bind _ _ _).mpr
        (hsteps.mono fun _ out hout => sound_conclude rules id since out.1 hout.2)

end Execution

namespace Server

open Execution

variable {s s' : Server}

/-- A task is handed over as JSON can hold it. -/
theorem clean_task (row : TaskRow) : Clean (.object (Task.toFields row)) := by
  have hoptional (s : Option String) : Clean (.ofText? s) := by
    cases s with
    | none => exact .null
    | some s => exact .text s
  refine .object ⟨?_, ?_⟩ ?_
  · simp [Task.toFields]
  · simp [Task.toFields]
  · simp only [Task.toFields, List.forall_mem_cons]
    exact ⟨.text _, hoptional _, .text _, hoptional _, .text _, .text _, hoptional _, .text _,
      .text _, nofun⟩

theorem clean_transact {t : Transaction Value} (h : ∀ tables supply task tables' supply',
    t tables supply = (.ok (task, tables'), supply') → Clean task) {task : Value}
    (ht : (s.transact t).1 = .ok task) : Clean task := by
  obtain ⟨found, _, _, hok, hdb⟩ | ⟨fault, _, _, hdb⟩ := s.db.transact_cases t
  · unfold transact at ht
    rw [hdb] at ht
    cases ht
    exact h _ _ _ _ _ hok
  · unfold transact at ht
    rw [hdb] at ht
    cases ht

/-- What a server hands over is such as JSON can hold, if the steps that it has stored were
submitted. -/
theorem received_respond (h : Stocked s.db) (controller : Controller) (r : Execution.Request) :
    r.Received (s.respond controller r).1 := by
  cases r with
  | load workflow =>
    intro tree htree step hstep
    obtain ⟨stored, hstored, _, hread⟩ := planned_eq_ok_iff.mp htree
    obtain ⟨row, _, rfl⟩ := Option.map_eq_some_iff.mp hstored
    obtain ⟨found, hfound, config, hconfig, rfl⟩ := mem_steps_treeOf hread hstep
    obtain ⟨fields, hfields, hclean⟩ := (h.presentable workflow).config found hfound
    rw [hfields, Step.readConfig_object] at hconfig
    show Clean (.object config)
    rw [← Except.ok.inj hconfig]
    exact hclean
  | run id r =>
    cases r with
    | createTask fields =>
      intro task htask
      refine clean_transact (fun _ _ _ _ _ hok => ?_) htask
      obtain ⟨row, _, _, _, hrow⟩ := Transaction.ok_of_bind hok
      cases hrow
      exact clean_task row
    | updateTask id fields =>
      intro task htask
      refine clean_transact (fun _ _ _ _ _ hok => ?_) htask
      obtain ⟨name, _, _, _, hname⟩ := Transaction.ok_of_bind hok
      obtain ⟨found, _, _, _, hfound⟩ := Transaction.ok_of_bind hname
      cases found with
      | none => cases hfound
      | some row =>
        cases hfound
        exact clean_task row
    | _ => trivial
  | _ => trivial

/-- The variables that an execution reports hold what JSON can hold. -/
theorem sound_run (h : Stocked s.db) (controller : Controller) (rules : Rules) (workflow : String)
    {input : Value} (hinput : Clean input) (triggeredBy : Option String) {report : Report}
    (hr : (s.run controller (execute rules workflow input triggeredBy)).1 = .ok report) :
    report.Sound := by
  obtain ⟨_, hpost, _⟩ := Program.Keeps.run (fun _ (s : Server) => Stocked s.db)
    (fun _ s r hs _ => ⟨received_respond hs controller r, stocked_respond hs controller r⟩) h
    (sound_execute rules workflow hinput triggeredBy)
  exact hpost report hr

/-! ## The record of an execution -/

/-- The record is as its execution has tried to close it, or is still running. -/
def Stands (row : ExecutionRow) : Option (Closing × Bool) → Prop
  | none => isOpen row = true
  | some (closing, inTime) => inTime = true ∧ closing.Shown row

theorem Stands.completed {row : ExecutionRow} {closing : Option (Closing × Bool)}
    (h : Stands row closing) (hs : row.status = Status.completed.name) :
    ∃ output log, closing = some (.completed output log, true) := by
  cases closing with
  | none =>
    change isOpen row = true at h
    rw [isOpen, hs] at h
    cases h
  | some tried =>
    obtain ⟨closing, inTime⟩ := tried
    obtain ⟨rfl, hshown⟩ := h
    cases closing with
    | completed output log => exact ⟨output, log, rfl⟩
    | failed error log => cases Status.name_inj (hs.symm.trans hshown.status)

/-- The records of a server on which one execution runs: those of before, and its own. -/
inductive Accompanied (old : List ExecutionRow) (a : Account) : List ExecutionRow → Prop
  | unopened (h : a.id = none) : Accompanied old a old
  | opened {row : ExecutionRow} (h : a.id = some row.id) (hnew : row.id ∉ old.map (·.id))
      (hs : Stands row a.closing) : Accompanied old a (old ++ [row])

namespace Accompanied

variable {old records : List ExecutionRow} {a a' : Account}

theorem of_unopened (h : Accompanied old a records) (hid : a.id = none) : records = old := by
  cases h with
  | unopened _ => rfl
  | opened hrow _ _ => cases hid.symm.trans hrow

theorem congr (h : Accompanied old a records) (hid : a'.id = a.id)
    (hclosing : a'.closing = a.closing) : Accompanied old a' records := by
  cases h with
  | unopened hnone => exact .unopened (hid.trans hnone)
  | opened hrow hnew hstands => exact .opened (hid.trans hrow) hnew (hclosing ▸ hstands)

/-- The execution is in time to close its record, and closes no other. -/
theorem close {tables : Tables} (h : Accompanied old a tables.executions) {id : String}
    (hid : a.id = some id) (hopen : a.closing = none) (since now : Instant) (closing : Closing) :
    Accompanied old
      { a with closing := some (closing, (Execution.close since now id closing tables).1) }
      (Execution.close since now id closing tables).2.executions := by
  unfold Execution.close
  dsimp only
  generalize tables.executions = records at h
  cases h with
  | unopened hnone => cases hnone.symm.trans hid
  | @opened row hrow hnew hstands =>
    obtain rfl : row.id = id := Option.some.inj (hrow.symm.trans hid)
    rw [hopen] at hstands
    have hstill : isOpen row = true := hstands
    have hold : old.map (fun other => if other.id == row.id && isOpen other then
        closing.write since now other else other) = old := by
      refine (List.map_congr_left fun other hother => ?_).trans (List.map_id old)
      have hne : other.id ≠ row.id := fun heq => hnew (heq ▸ List.mem_map_of_mem hother)
      simp [hne]
    have hid' := closing.write_id since now row
    rw [List.map_append, hold, List.any_append]
    simp only [List.map_cons, List.map_nil, List.any_cons, beq_self_eq_true, hstill, Bool.and_self,
      if_true, Bool.true_or, Bool.or_true]
    exact .opened (hid'.symm ▸ hid) (hid'.symm ▸ hnew) ⟨rfl, closing.shown_write since now row⟩

end Accompanied

/-- The execution makes its one record and closes it; it leaves those of before alone. -/
theorem accompanied_respond {old : List ExecutionRow} {a : Account} {r : Execution.Request}
    (h : a.May r) (hs : s.Numbered) (ho : Accompanied old a s.db.tables.executions) :
    Accompanied old (a.after r (s.respond .main r).1)
      (s.respond .main r).2.db.tables.executions := by
  have hsame (hid : (a.after r (s.respond .main r).1).id = a.id)
      (hclosing : (a.after r (s.respond .main r).1).closing = a.closing) :
      Accompanied old (a.after r (s.respond .main r).1) s.db.tables.executions :=
    ho.congr hid hclosing
  cases r with
  | accept url payload signature => exact h.elim
  | start workflow input triggeredBy =>
    obtain rfl : a = .initial := h
    by_cases hinput : Json.isShort input = true
    · rw [hs.start .main workflow hinput triggeredBy, ho.of_unopened rfl]
      refine .opened rfl (fun hmem => ?_) (rfl : isOpen _ = true)
      rw [← ho.of_unopened rfl] at hmem
      exact s.db.supply.not_drawn_next (hs _ hmem)
    · rw [respond_start_of_long .main hinput]
      exact ho
  | close id since closing =>
    obtain ⟨hid, hopen, _⟩ := h
    exact ho.close hid hopen since s.now closing
  | run id r =>
    rw [show (s.respond .main (.run id r)).2.db.tables.executions = s.db.tables.executions from
      (s.respondRun_spec id r).1]
    exact hsame rfl rfl
  | load workflow => exact hsame rfl rfl
  | register id => exact hsame rfl rfl
  | withdraw id => exact hsame rfl rfl

/-- The record of an execution that has run tells of its report. -/
theorem accompanied_run (hs : s.Numbered) (rules : Rules) (workflow : String) (input : Value)
    (triggeredBy : Option String) :
    let out := s.run .main (execute rules workflow input triggeredBy)
    ∃ a : Account, a.Tells out.1 ∧ Accompanied s.db.tables.executions a
      out.2.db.tables.executions := by
  have hstart : s.Numbered ∧ Accompanied s.db.tables.executions .initial s.db.tables.executions :=
    ⟨hs, .unopened rfl⟩
  obtain ⟨a, htells, _, hrecords⟩ := Program.Keeps.run
    (fun a (s' : Server) =>
      s'.Numbered ∧ Accompanied s.db.tables.executions a s'.db.tables.executions)
    (fun a s' r h hmay => ⟨fair_respond s' hmay, h.1.respond .main r,
      accompanied_respond hmay h.1 h.2⟩) hstart
    (keeps_execute rules workflow input triggeredBy)
  exact ⟨a, htells, hrecords⟩

/-- A new record is found by its id. -/
theorem find?_of_append {tables : Tables} {old : List ExecutionRow} {row : ExecutionRow}
    (h : tables.executions = old ++ [row]) (hnew : row.id ∉ old.map (·.id)) :
    Execution.find? tables row.id = some row := by
  have hold : old.find? (·.id == row.id) = none := by
    refine List.find?_eq_none.mpr fun other hother heq => hnew ?_
    rw [← beq_iff_eq.mp heq]
    exact List.mem_map_of_mem hother
  unfold Execution.find?
  rw [h, List.find?_append, hold]
  simp

/-- An execution that reports has made one record, which is completed with what it reports. -/
theorem record_of_reported (hs : s.Numbered) {rules : Rules} {workflow : String} {input : Value}
    {triggeredBy : Option String} {report : Report}
    (h : (s.run .main (execute rules workflow input triggeredBy)).1 = .ok report) :
    ∃ row, (s.run .main (execute rules workflow input triggeredBy)).2.db.tables.executions =
        s.db.tables.executions ++ [row] ∧ row.id ∉ s.recordIds ∧ row.id = report.id ∧
      row.status = Status.completed.name ∧ row.output = Json.settle (.object report.output) := by
  obtain ⟨a, htells, hrecords⟩ := accompanied_run hs rules workflow input triggeredBy
  rw [h] at htells
  obtain ⟨_, hid, log, hclosing⟩ := htells
  generalize (s.run .main (execute rules workflow input triggeredBy)).2.db.tables.executions =
    records at hrecords ⊢
  cases hrecords with
  | unopened hnone => cases hnone.symm.trans hid
  | @opened row hrow hnew hstands =>
    rw [hclosing] at hstands
    obtain ⟨_, hstatus, houtput, _⟩ := hstands
    exact ⟨row, rfl, hnew, Option.some.inj (hrow.symm.trans hid), hstatus, houtput⟩

/-- A record is completed only if its execution reports. -/
theorem reported_of_completed (hs : s.Numbered) {rules : Rules} {workflow : String} {input : Value}
    {triggeredBy : Option String} {row : ExecutionRow}
    (hrow : row ∈ s.newRecords (s.run .main (execute rules workflow input triggeredBy)).2)
    (hstatus : row.status = Status.completed.name) :
    ∃ report, (s.run .main (execute rules workflow input triggeredBy)).1 = .ok report := by
  obtain ⟨a, htells, hrecords⟩ := accompanied_run hs rules workflow input triggeredBy
  obtain ⟨hmem, hnew⟩ := List.mem_filter.mp hrow
  have hopened : Stands row a.closing := by
    generalize (s.run .main (execute rules workflow input triggeredBy)).2.db.tables.executions =
      records at hrecords hmem
    have hold : row ∉ s.db.tables.executions :=
      fun hmem => of_decide_eq_true hnew (List.mem_map_of_mem hmem)
    cases hrecords with
    | unopened _ => exact absurd hmem hold
    | opened _ _ hstands =>
      obtain hmem | hmem := List.mem_append.mp hmem
      · exact absurd hmem hold
      · exact List.mem_singleton.mp hmem ▸ hstands
  cases hresult : (s.run .main (execute rules workflow input triggeredBy)).1 with
  | ok report => exact ⟨report, rfl⟩
  | error fault =>
    rw [hresult] at htells
    obtain ⟨output, log, hclosing⟩ := hopened.completed hstatus
    by_cases hf : fault = .cancelled
    · subst hf
      obtain ⟨_, _, ⟨_, hnone⟩ | ⟨_, _, hlate⟩⟩ := htells
      · cases hnone.symm.trans hclosing
      · cases hlate.symm.trans hclosing
    · obtain rfl | ⟨_, _, _, _, hfailed⟩ := (Account.tells_fault hf).mp htells
      · cases hclosing
      · cases hfailed.symm.trans hclosing

/-- The one record of an execution is completed if and only if the execution reports. -/
theorem completed_iff_reported (hs : s.Numbered) (rules : Rules) (workflow : String) (input : Value)
    (triggeredBy : Option String) :
    (∃ row, s.newRecords (s.run .main (execute rules workflow input triggeredBy)).2 = [row] ∧
        row.status = Status.completed.name) ↔
      ∃ report, (s.run .main (execute rules workflow input triggeredBy)).1 = .ok report := by
  constructor
  · rintro ⟨row, hnew, hstatus⟩
    exact reported_of_completed hs (hnew ▸ List.mem_singleton_self row) hstatus
  · rintro ⟨report, hok⟩
    obtain ⟨row, hrecords, hnew, _, hstatus, _⟩ := record_of_reported hs hok
    exact ⟨row, newRecords_of_append hrecords hnew, hstatus⟩

end Server

end Stepwise
