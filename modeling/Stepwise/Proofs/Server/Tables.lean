import Stepwise.Proofs.Execution.Record
import Stepwise.Proofs.Server.Play
import Stepwise.Proofs.Store.Spared

/-!
# What operations do to records and triggers

Only a few operations touch the records of executions, and only a few touch triggers. Here is which
of them leave which table alone, and that the supply of ids only ever moves on.
-/

namespace Stepwise.Server

open Store Execution

variable {s : Server}

/-- An execution that fails to be recorded leaves the tables as they are. -/
theorem executeRaw_spares (s : Server) (workflow : String) :
    s.db.supply.Before (s.executeRaw workflow).2.db.supply ∧
      (s.executeRaw workflow).2.db.tables = s.db.tables := by
  unfold executeRaw
  split
  · exact ⟨.refl _, rfl⟩
  · split_ifs
    · exact ⟨.refl _, rfl⟩
    · split
      · exact ⟨.refl _, rfl⟩
      · exact Database.transact_spares spares_startRaw s.db

/-- A call whose payload is not JSON leaves the tables as it leaves them once it is accepted or
refused. -/
theorem receiveRaw_spares (s : Server) (url : String) (signature : Option String) :
    s.db.supply.Before (s.receiveRaw url signature).2.db.supply ∧
      (s.receiveRaw url signature).2.db.tables =
        (s.db.transact (Trigger.accept s.now url none signature)).2.tables := by
  have haccept := (Database.transact_spares (Trigger.spares_accept s.now url none signature) s.db).1
  unfold receiveRaw transact
  generalize s.db.transact (Trigger.accept s.now url none signature) = out at haccept ⊢
  obtain ⟨r, db⟩ := out
  cases r with
  | error fault => exact ⟨haccept, rfl⟩
  | ok workflow =>
    obtain ⟨hsupply, htables⟩ := executeRaw_spares { s with db } workflow
    exact ⟨haccept.trans hsupply, htables⟩

/-- Of the tables only the triggers are touched by a call whose payload is not JSON. -/
theorem besidesTriggers_receiveRaw (s : Server) (url : String) (signature : Option String) :
    (s.receiveRaw url signature).2.db.tables.besidesTriggers = s.db.tables.besidesTriggers := by
  rw [(s.receiveRaw_spares url signature).2]
  exact (Database.transact_spares (Trigger.spares_accept s.now url none signature) s.db).2

/-- The operations that neither write nor take away a record. A call that comes in is one of them,
since its execution begins in a later move. -/
def LeavesRecords : Operation → Prop
  | .deleteWorkflow _ | .cancel _ _ | .proceed _ => False
  | _ => True

theorem executions_step {op : Operation} (h : LeavesRecords op) :
    (s.step op).db.tables.executions = s.db.tables.executions := by
  cases op with
  | createWorkflow draft =>
    exact (congrArg Tables.executions
      (Database.transact_spares (Workflow.spares_create s.now draft) s.db).2 :)
  | updateWorkflow id changes steps =>
    exact (congrArg Tables.executions
      (Database.transact_spares (Workflow.spares_update s.now id changes steps) s.db).2 :)
  | deleteWorkflow id => exact h.elim
  | createTrigger workspace workflow name creator =>
    exact (congrArg Tables.executions
      (Database.transact_spares (Trigger.spares_create s.now workspace workflow name creator)
        s.db).2 :)
  | changeTrigger id change =>
    exact (congrArg Tables.executions
      (Database.transact_spares (spares_changeTrigger s.now id change.data) s.db).2 :)
  | deleteTrigger id =>
    exact (congrArg Tables.executions
      (Database.transact_spares (spares_deleteTrigger id) s.db).2 :)
  | execute name controller workflow input triggeredBy => rfl
  | receive name controller url payload signature =>
    rw [step_receive]
    exact (congrArg Tables.executions
      (Database.transact_spares (Trigger.spares_accept s.now url payload signature) s.db).2 :)
  | receiveRaw url signature =>
    exact (congrArg Tables.executions (s.besidesTriggers_receiveRaw url signature) :)
  | cancel controller id => exact h.elim
  | proceed n => exact h.elim
  | release => rfl
  | tick now => rfl

/-- What the steps of a run ask of the store changes neither records nor triggers. -/
theorem besidesTasks_respondRun (s : Server) (id : String) (r : Run.Request) :
    s.db.supply.Before (s.respondRun id r).2.db.supply ∧
      (s.respondRun id r).2.db.tables.besidesTasks = s.db.tables.besidesTasks := by
  cases r with
  | createTask fields =>
    exact Database.transact_spares (Task.spares_create (fun _ _ => rfl) s.now fields) s.db
  | updateTask task fields =>
    exact Database.transact_spares (Task.spares_update (fun _ _ => rfl) s.now task fields) s.db
  | deleteTask task =>
    exact Database.transact_spares (Task.spares_delete (fun _ _ => rfl) task) s.db
  | notify user title message =>
    exact Database.transact_spares (Task.spares_notify s.now user title message) s.db
  | _ => exact ⟨.refl _, rfl⟩

/-- The operations that neither make, change nor delete a trigger, and count no call. -/
def LeavesTriggers : Operation → Prop
  | .createTrigger _ _ _ _ | .changeTrigger _ _ | .deleteTrigger _ | .receive _ _ _ _ _
  | .receiveRaw _ _ => False
  | _ => True

/-- An execution that accepts no call leaves triggers as they are. -/
theorem triggers_move {b : Background} {keepLogs : Bool}
    (hb : b.program.AsksOnly (Request.IsUpright keepLogs)) :
    (s.move b).2.db.tables.triggers = s.db.tables.triggers := by
  have hmoved := moved_move s b
  generalize s.move b = out at hmoved
  cases hmoved with
  | ended _ => rfl
  | @answered r next hp _ =>
    rw [hp] at hb
    have hr := ((Program.asksOnly_ask _ _).mp hb).1
    cases r with
    | accept url payload signature => exact hr.elim
    | start workflow input triggeredBy =>
      exact (congrArg Tables.triggers
        (Database.transact_spares (spares_start s.now workflow input triggeredBy) s.db).2 :)
    | run id request =>
      exact (congrArg Tables.triggers (s.besidesTasks_respondRun id request).2 :)
    | _ => rfl
  | sent _ _ => rfl
  | received _ _ => rfl

theorem triggers_step {keepLogs : Bool}
    (hs : ∀ b ∈ s.background, b.program.AsksOnly (Request.IsUpright keepLogs)) {op : Operation}
    (h : LeavesTriggers op) : (s.step op).db.tables.triggers = s.db.tables.triggers := by
  cases op with
  | createWorkflow draft =>
    exact (congrArg Tables.triggers
      (Database.transact_spares (Workflow.spares_create s.now draft) s.db).2 :)
  | updateWorkflow id changes steps =>
    exact (congrArg Tables.triggers
      (Database.transact_spares (Workflow.spares_update s.now id changes steps) s.db).2 :)
  | deleteWorkflow id =>
    exact (congrArg Tables.triggers
      (Database.transact_spares (Workflow.spares_delete id) s.db).2 :)
  | cancel controller id =>
    show (s.cancel controller id).2.db.tables.triggers = _
    unfold cancel
    split
    · rfl
    · rw [signal_db]
      rfl
  | proceed n =>
    show (s.proceed n).db.tables.triggers = _
    cases hb : s.background[n]? with
    | none => rw [proceed_of_none hb]
    | some b =>
      rw [proceed_of_some hb]
      exact triggers_move (hs b (List.mem_of_getElem? hb))
  | execute name controller workflow input triggeredBy => rfl
  | release => rfl
  | tick now => rfl
  | _ => exact h.elim

/-! ## The supply -/

theorem supply_respond (s : Server) (controller : Controller) (r : Execution.Request) :
    s.db.supply.Before (s.respond controller r).2.db.supply := by
  cases r with
  | accept url payload signature =>
    exact (Database.transact_spares (Trigger.spares_accept s.now url payload signature) s.db).1
  | start workflow input triggeredBy =>
    exact (Database.transact_spares (spares_start s.now workflow input triggeredBy) s.db).1
  | run id r => exact (s.besidesTasks_respondRun id r).1
  | _ => exact .refl _

theorem supply_move (s : Server) (b : Background) :
    s.db.supply.Before (s.move b).2.db.supply := by
  have h := moved_move s b
  generalize s.move b = out at h
  cases h with
  | ended _ => exact .refl _
  | answered _ _ => exact s.supply_respond _ _
  | sent _ _ => exact .refl _
  | received _ _ => exact .refl _

theorem supply_step (s : Server) (op : Operation) :
    s.db.supply.Before (s.step op).db.supply := by
  cases op with
  | createWorkflow draft =>
    exact (Database.transact_spares (Workflow.spares_create s.now draft) s.db).1
  | updateWorkflow id changes steps =>
    exact (Database.transact_spares (Workflow.spares_update s.now id changes steps) s.db).1
  | deleteWorkflow id =>
    exact (Database.transact_spares (Workflow.spares_delete id) s.db).1
  | createTrigger workspace workflow name creator =>
    exact (Database.transact_spares (Trigger.spares_create s.now workspace workflow name creator)
      s.db).1
  | changeTrigger id change =>
    exact (Database.transact_spares (spares_changeTrigger s.now id change.data) s.db).1
  | deleteTrigger id => exact (Database.transact_spares (spares_deleteTrigger id) s.db).1
  | receive name controller url payload signature =>
    rw [step_receive]
    exact (Database.transact_spares (Trigger.spares_accept s.now url payload signature) s.db).1
  | receiveRaw url signature => exact (s.receiveRaw_spares url signature).1
  | cancel controller id =>
    show s.db.supply.Before (s.cancel controller id).2.db.supply
    unfold cancel
    split
    · exact .refl _
    · rw [signal_db]
      exact .refl _
  | proceed n =>
    show s.db.supply.Before (s.proceed n).db.supply
    cases h : s.background[n]? with
    | none =>
      rw [proceed_of_none h]
      exact .refl _
    | some b =>
      rw [proceed_of_some h]
      exact s.supply_move b
  | _ => exact .refl _

end Stepwise.Server
