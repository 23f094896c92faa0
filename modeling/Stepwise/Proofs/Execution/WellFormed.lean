import Mathlib.Data.List.Nodup
import Stepwise.Proofs.Server.Tables

/-!
# The records of a server are well formed

A record is written in four places: it is opened, closed as completed or as failed, or cancelled.
Each of them sets other columns, and the last three apply only to a record that is still running. So
whatever a server is asked to do, and however its executions take turns, every record shows the
columns of its state and no others.
-/

namespace Stepwise

open Store

/-- What a record holds in each state. -/
def Store.Status.Describes (keepLogs : Bool) (row : ExecutionRow) : Status → Prop
  | .running => row.completed = none ∧ row.output = .null ∧ row.error = none ∧
      row.duration = none ∧ row.log = .list []
  | .completed => (∃ output, row.output = .object output) ∧ row.error = none ∧
      row.completed.isSome = true ∧ row.duration.isSome = true ∧
      ∃ log, Run.Blocks log ∧ row.log = Run.logValue log
  | .failed => (∃ error, row.error = some error ∧ error ≠ "") ∧ row.output = .null ∧
      row.completed.isSome = true ∧ (keepLogs = false → row.log = .list [])
  | .cancelled => row.output = .null ∧ row.error = none ∧ row.duration = none ∧
      row.log = .list [] ∧ row.completed.isSome = true

theorem Store.Status.name_inj {a b : Status} (h : a.name = b.name) : a = b := by
  revert h
  cases a <;> cases b <;> decide

namespace Execution

/-- The record is in one of the states, and holds what a record in this state does. -/
def WellFormed (keepLogs : Bool) (row : ExecutionRow) : Prop :=
  ∃ status : Status, row.status = status.name ∧ status.Describes keepLogs row

namespace WellFormed

variable {keepLogs : Bool} {row : ExecutionRow}

theorem opening (now : Instant) (workflow : String) (input : Value) (triggeredBy : Option String)
    (id : String) : WellFormed keepLogs (opening now workflow input triggeredBy id) :=
  ⟨.running, rfl, rfl, rfl, rfl, rfl, rfl⟩

/-- A record that is still open holds nothing of an end. -/
theorem of_isOpen (h : WellFormed keepLogs row) (ho : isOpen row = true) :
    Status.running.Describes keepLogs row := by
  obtain ⟨status, hs, hd⟩ := h
  have hrunning : status = .running := Status.name_inj (hs.symm.trans (beq_iff_eq.mp ho))
  rwa [hrunning] at hd

theorem write (h : WellFormed keepLogs row) (ho : isOpen row = true) {c : Closing}
    (hc : c.Proper keepLogs) (since now : Instant) :
    WellFormed keepLogs (c.write since now row) := by
  obtain ⟨_, houtput, herror, _, _⟩ := h.of_isOpen ho
  cases c with
  | completed output log =>
    exact ⟨.completed, rfl, ⟨_, rfl⟩, herror, rfl, rfl, log, hc, rfl⟩
  | failed error log =>
    refine ⟨.failed, rfl, ⟨error, rfl, hc.1⟩, houtput, rfl, fun hk => ?_⟩
    show Run.logValue log = .list []
    rw [hc.2 hk]
    rfl

theorem cancelled (h : WellFormed keepLogs row) (ho : isOpen row = true) (now : Instant) :
    WellFormed keepLogs (cancelled now row) := by
  obtain ⟨_, houtput, herror, hduration, hlog⟩ := h.of_isOpen ho
  exact ⟨.cancelled, rfl, houtput, herror, hduration, hlog, rfl⟩

end WellFormed

/-! ## All records -/

/-- The records are well formed, and no two of them have one id. -/
structure Tidy (keepLogs : Bool) (rows : List ExecutionRow) : Prop where
  wellFormed : ∀ row ∈ rows, WellFormed keepLogs row
  distinct : (rows.map (·.id)).Nodup

namespace Tidy

variable {keepLogs : Bool}

theorem sublist {rows rows' : List ExecutionRow} (h : Tidy keepLogs rows)
    (hs : rows'.Sublist rows) : Tidy keepLogs rows' :=
  ⟨fun row hrow => h.wellFormed row (hs.subset hrow), h.distinct.sublist (hs.map _)⟩

theorem map {rows : List ExecutionRow} (h : Tidy keepLogs rows) {f : ExecutionRow → ExecutionRow}
    (hid : ∀ row, (f row).id = row.id) (hf : ∀ row ∈ rows, WellFormed keepLogs (f row)) :
    Tidy keepLogs (rows.map f) := by
  refine ⟨List.forall_mem_map.mpr hf, ?_⟩
  rw [ids_map hid]
  exact h.distinct

theorem start {db : Database} (h : Tidy keepLogs db.tables.executions) (now : Instant)
    (workflow : String) (input : Value) (triggeredBy : Option String) :
    Tidy keepLogs (db.transact (start now workflow input triggeredBy)).2.tables.executions := by
  unfold Database.transact
  rw [start_eq]
  split_ifs with hlong hfound
  · exact h
  · exact h
  · have hnew : "r-" ++ toString db.supply.row ∉ db.tables.executions.map (·.id) := by
      intro hmem
      obtain ⟨row, hrow, hid⟩ := List.mem_map.mp hmem
      refine hfound (List.find?_isSome.mpr ⟨row, hrow, ?_⟩)
      simpa using hid
    refine ⟨List.forall_mem_append.mpr ⟨h.wellFormed,
      List.forall_mem_singleton.mpr (.opening ..)⟩, ?_⟩
    rw [List.map_append]
    exact List.nodup_append'.mpr ⟨h.distinct, List.nodup_singleton _,
      List.disjoint_singleton.mpr hnew⟩

/-- The end of a run is written only where the record is still running. -/
theorem close {tables : Tables} (h : Tidy keepLogs tables.executions) {c : Closing}
    (hc : c.Proper keepLogs) (since now : Instant) (id : String) :
    Tidy keepLogs (close since now id c tables).2.executions := by
  refine h.map (fun row => ?_) fun row hrow => ?_
  · split_ifs
    · exact c.write_id since now row
    · rfl
  · have hw := h.wellFormed row hrow
    split_ifs with hif
    · exact hw.write (Bool.and_eq_true_iff.mp hif).2 hc since now
    · exact hw

/-- A cancellation is written where the record that it has read is running. -/
theorem commitCancel {tables : Tables} (h : Tidy keepLogs tables.executions) {id : String}
    {read : ExecutionRow} (hr : checkCancel tables id = .ok read) (now : Instant) :
    Tidy keepLogs (commitCancel now id tables).executions := by
  have hread : find? tables id = some read ∧ isOpen read = true := by
    unfold checkCancel at hr
    split at hr
    · cases hr
    · split_ifs at hr with hopen
      rw [← Except.ok.inj hr]
      exact ⟨by assumption, hopen⟩
  refine h.map (fun row => ?_) fun row hrow => ?_
  · split_ifs
    · rfl
    · rfl
  · have hw := h.wellFormed row hrow
    split_ifs with hid
    · have hmem : read ∈ tables.executions := List.mem_of_find?_eq_some hread.1
      have hreadId : read.id = id := by simpa using List.find?_some hread.1
      have hrow' : row = read :=
        List.inj_on_of_nodup_map h.distinct hrow hmem ((beq_iff_eq.mp hid).trans hreadId.symm)
      exact hw.cancelled (hrow' ▸ hread.2) now
    · exact hw

theorem delete {db : Database} (h : Tidy keepLogs db.tables.executions) (workflow : String) :
    Tidy keepLogs (db.transact (Workflow.delete workflow)).2.tables.executions := by
  unfold Database.transact
  rw [delete_eq]
  split_ifs
  · exact h
  · exact h.sublist List.filter_sublist

end Tidy

end Execution

/-! ## All operations -/

namespace Server

open Execution

variable {s : Server}

/-- The records of the server are well formed, and its executions will keep them so. -/
structure Sound (s : Server) : Prop where
  tidy : Tidy s.rules.keepLogs s.db.tables.executions
  upright : ∀ b ∈ s.background, b.program.AsksOnly (Request.IsUpright s.rules.keepLogs)

theorem tidy_respond (h : Tidy s.rules.keepLogs s.db.tables.executions) (controller : Controller)
    {r : Execution.Request} (hr : r.IsUpright s.rules.keepLogs) :
    Tidy s.rules.keepLogs (s.respond controller r).2.db.tables.executions := by
  cases r with
  | accept url payload signature => exact hr.elim
  | load workflow => exact h
  | start workflow input triggeredBy => exact h.start s.now workflow input triggeredBy
  | register id => exact h
  | withdraw id => exact h
  | close id since closing => exact h.close hr since s.now id
  | run id request =>
    show Tidy _ (s.respondRun id request).2.db.tables.executions
    rw [(s.respondRun_spec id request).1]
    exact h

theorem tidy_move (h : Tidy s.rules.keepLogs s.db.tables.executions) {b : Background}
    (hb : b.program.AsksOnly (Request.IsUpright s.rules.keepLogs)) :
    Tidy s.rules.keepLogs (s.move b).2.db.tables.executions := by
  have hmoved := moved_move s b
  generalize s.move b = out at hmoved
  cases hmoved with
  | ended _ => exact h
  | answered hp _ =>
    rw [hp] at hb
    exact tidy_respond h b.controller ((Program.asksOnly_ask _ _).mp hb).1
  | sent _ _ => exact h
  | received _ _ => exact h

theorem tidy_cancel (h : Tidy s.rules.keepLogs s.db.tables.executions) (controller : Controller)
    (id : String) : Tidy s.rules.keepLogs (s.cancel controller id).2.db.tables.executions := by
  unfold cancel
  split
  · exact h
  · rename_i read hread
    rw [signal_db]
    exact h.commitCancel hread s.now

theorem tidy_step (h : s.Sound) (op : Operation) :
    Tidy s.rules.keepLogs (s.step op).db.tables.executions := by
  by_cases hleaves : LeavesRecords op
  · rw [executions_step hleaves]
    exact h.tidy
  · cases op with
    | deleteWorkflow id => exact h.tidy.delete id
    | cancel controller id => exact tidy_cancel h.tidy controller id
    | proceed n =>
      show Tidy _ (s.proceed n).db.tables.executions
      cases hb : s.background[n]? with
      | none =>
        rw [proceed_of_none hb]
        exact h.tidy
      | some b =>
        rw [proceed_of_some hb]
        exact tidy_move h.tidy (h.upright b (List.mem_of_getElem? hb))
    | _ => exact absurd trivial hleaves

theorem Sound.step (h : s.Sound) (op : Operation) : (s.step op).Sound := by
  refine ⟨?_, ?_⟩
  · rw [rules_step]
    exact tidy_step h op
  · rw [rules_step]
    have hmove (b : Background)
        (hb : b.program.AsksOnly (Request.IsUpright s.rules.keepLogs)) :
        (s.move b).1.program.AsksOnly (Request.IsUpright s.rules.keepLogs) :=
      (moved_move s b).asksOnly hb
    exact forall_program_step (p := (·.AsksOnly (Request.IsUpright s.rules.keepLogs))) h.upright
      hmove (Program.asksOnly_done _) (upright_execute s.rules) op

theorem sound_fresh (rules : Rules) (script : List Outbound.Scripted) :
    (fresh rules script).Sound :=
  ⟨⟨List.forall_mem_nil _, List.nodup_nil⟩, List.forall_mem_nil _⟩

end Server

end Stepwise
