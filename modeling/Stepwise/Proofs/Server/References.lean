import Mathlib.Tactic.Common
import Stepwise.Proofs.Server.Schedule
import Stepwise.Proofs.Server.Tables
import Stepwise.Proofs.Workflow.Intact

/-!
# References stay intact

Between two operations an execution is suspended at a call or at a delay, or it has ended. A
workflow may be changed or deleted meanwhile, but not between the moment at which an execution looks
it up and the moment at which it records itself. So whatever a server is asked to do, every step and
every execution that is stored belongs to a stored workflow, and no reference leads nowhere.
-/

namespace Stepwise.Server

open Store Execution

/-- An execution can be suspended at this request. -/
def isPause : Request → Bool
  | .run _ (.send _) | .run _ (.wait _) => true
  | _ => false

/-- Answers the requests of an execution up to the next one at which it can be suspended. -/
def respondSoon (controller : Controller) (s : Server) (r : Request) : Option r.Answer × Server :=
  if isPause r then (none, s) else (some (s.respond controller r).1, (s.respond controller r).2)

/-- Lets an execution go on up to its next call or delay. -/
def resume (s : Server) (b : Background) : Background × Server :=
  let (program, s) :=
    Program.advance (I := Execution.surroundings) (respondSoon b.controller) b.program s
  ({ b with program }, s)

/-- Lets the execution of a number go on up to its next call or delay. -/
def resumeAt (s : Server) (n : Nat) : Server :=
  match s.background[n]? with
  | none => s
  | some b => { (s.resume b).2 with background := s.background.set n (s.resume b).1 }

/-- One operation, and what the execution that it sets going does up to its next call or delay. -/
def serveOne (s : Server) (op : Operation) : Server :=
  match op with
  | .execute _ _ _ _ _ | .receive _ _ _ _ _ => (s.step op).resumeAt s.background.length
  | .proceed n => (s.step op).resumeAt n
  | _ => s.step op

/-- Operations one after the other, with executions suspended in between. -/
def serve (s : Server) (operations : List Operation) : Server := operations.foldl serveOne s

/-! ## Suspended executions -/

variable {s : Server} {name : String} {controller : Controller} {pending : Option Pending}
variable {r : Request} {next : r.Answer → Activity (Except Fault Report)}

theorem resume_of_isPause (h : isPause r = true) :
    s.resume ⟨name, controller, .ask r next, pending⟩ =
      (⟨name, controller, .ask r next, pending⟩, s) := by
  simp only [resume, Program.advance, respondSoon, h, if_true]

theorem resume_of_not_isPause (h : ¬ isPause r = true) :
    s.resume ⟨name, controller, .ask r next, pending⟩ =
      (s.respond controller r).2.resume
        ⟨name, controller, next (s.respond controller r).1, pending⟩ := by
  simp only [resume, Program.advance, respondSoon, if_neg h]

/-- Going on does not look at the other executions. -/
theorem resume_background (s : Server) (others : List Background) (b : Background) :
    ({ s with background := others } : Server).resume b =
      ((s.resume b).1, { (s.resume b).2 with background := others }) := by
  obtain ⟨name, controller, program, pending⟩ := b
  induction program generalizing s with
  | done result => rfl
  | ask r next ih =>
    by_cases h : isPause r = true
    · rw [resume_of_isPause h, resume_of_isPause h]
    · rw [resume_of_not_isPause h, resume_of_not_isPause h, respond_background, ih]

theorem isPrompt_of_not_isPause (h : ¬ isPause r = true) : IsPrompt r := by
  cases r with
  | run id request =>
    cases request with
    | send call => exact absurd rfl h
    | _ => trivial
  | _ => trivial

/-- Going on up to a pause is a row of moves. -/
theorem resume_eq_play (n : Nat) (e : Activity (Except Fault Report)) (s : Server)
    {others : List Background} (h : others[n]? = some ⟨name, controller, e, pending⟩) :
    ∃ k, ({ s with background := others } : Server).play (List.replicate k (.proceed n)) =
      { (s.resume ⟨name, controller, e, pending⟩).2 with
        background := others.set n (s.resume ⟨name, controller, e, pending⟩).1 } := by
  induction e generalizing s others with
  | done result =>
    refine ⟨0, ?_⟩
    show { s with background := others } =
      { s with background := others.set n ⟨name, controller, .done result, pending⟩ }
    rw [set_of_some h]
  | ask r next ih =>
    by_cases hr : isPause r = true
    · rw [resume_of_isPause hr, set_of_some h]
      exact ⟨0, rfl⟩
    · obtain ⟨k, hk⟩ := ih (s.respond controller r).1 (s.respond controller r).2
        (getElem?_set_of_some h _)
      rw [List.set_set] at hk
      rw [resume_of_not_isPause hr]
      refine ⟨k + 1, play_move h ?_⟩
      rw [move_of_prompt s name controller (isPrompt_of_not_isPause hr)]
      exact hk

theorem resumeAt_eq_play (s : Server) (n : Nat) :
    ∃ k, s.resumeAt n = s.play (List.replicate k (.proceed n)) := by
  unfold resumeAt
  cases hb : s.background[n]? with
  | none => exact ⟨0, rfl⟩
  | some b =>
    obtain ⟨k, hk⟩ := resume_eq_play n b.program s hb
    exact ⟨k, hk.symm⟩

theorem serveOne_eq_play (s : Server) (op : Operation) :
    ∃ k n, s.serveOne op = s.play (op :: List.replicate k (.proceed n)) := by
  have hresumed (n : Nat) : ∃ k n', (s.step op).resumeAt n =
      s.play (op :: List.replicate k (.proceed n')) := by
    obtain ⟨k, hk⟩ := (s.step op).resumeAt_eq_play n
    exact ⟨k, n, hk⟩
  cases op with
  | execute name controller workflow input triggeredBy => exact hresumed _
  | receive name controller url payload signature => exact hresumed _
  | proceed n => exact hresumed n
  | _ => exact ⟨0, 0, rfl⟩

/-- What a server does in this way is made of moves, as all that it does. -/
theorem serve_eq_play (s : Server) (operations : List Operation) :
    ∃ moves, s.serve operations = s.play moves := by
  induction operations generalizing s with
  | nil => exact ⟨[], rfl⟩
  | cons op rest ih =>
    obtain ⟨k, n, hone⟩ := s.serveOne_eq_play op
    obtain ⟨moves, hrest⟩ := ih (s.serveOne op)
    refine ⟨op :: List.replicate k (.proceed n) ++ moves, ?_⟩
    show (s.serveOne op).serve rest = _
    rw [hrest, hone, play_append]

/-! ## Requests -/

/-- The requests of an execution that has recorded itself, or will not: it looks up no workflow and
makes no record. -/
def IsOwned : Request → Prop
  | .accept _ _ _ | .load _ | .start _ _ _ => False
  | _ => True

theorem owned_afterStart (rules : Rules) (tree : StepTree) (input : Value)
    (started : Except Fault String) :
    (afterStart rules tree input started).AsksOnly IsOwned := by
  refine (late_afterStart rules tree input started).mono fun r hr => ?_
  cases r with
  | accept url payload signature => exact hr
  | load workflow => exact hr
  | start workflow input triggeredBy => exact hr
  | _ => trivial

/-- A record that is written again stays with its workflow. -/
theorem intact_map {tables : Tables} (h : Intact tables) {f : ExecutionRow → ExecutionRow}
    (hf : ∀ row, (f row).workflow = row.workflow) :
    Intact { tables with executions := tables.executions.map f } := by
  refine h.mono rfl (fun w hw => ⟨w, hw, rfl⟩) fun e he => ?_
  obtain ⟨row, hrow, rfl⟩ := List.mem_map.mp he
  rw [hf row]
  exact h.executionOwner row hrow

theorem intact_respond (h : Intact s.db.tables) (hr : IsOwned r) :
    Intact (s.respond controller r).2.db.tables := by
  cases r with
  | accept url payload signature => exact hr.elim
  | load workflow => exact hr.elim
  | start workflow input triggeredBy => exact hr.elim
  | register id => exact h
  | withdraw id => exact h
  | close id since closing =>
    refine intact_map h fun row => ?_
    split_ifs
    · cases closing <;> rfl
    · rfl
  | run id request =>
    have hsame := (s.besidesTasks_respondRun id request).2
    obtain ⟨hworkflows, hsteps, hexecutions, _⟩ := Tables.mk.inj hsame
    exact h.congr hworkflows hsteps hexecutions

/-- References are intact after a move of an execution, which makes no record from then on. -/
def Rested (out : Background × Server) : Prop :=
  Intact out.2.db.tables ∧ out.1.program.AsksOnly IsOwned

theorem rested_move {b : Background} (hb : b.program.AsksOnly IsOwned) (h : Intact s.db.tables) :
    Rested (s.move b) := by
  have hmoved := moved_move s b
  refine ⟨?_, hmoved.asksOnly hb⟩
  generalize s.move b = out at hmoved
  cases hmoved with
  | ended _ => exact h
  | answered hp _ =>
    rw [hp] at hb
    exact intact_respond h ((Program.asksOnly_ask _ _).mp hb).1
  | sent _ _ => exact h
  | received _ _ => exact h

theorem rested_resume {b : Background} (hb : b.program.AsksOnly IsOwned)
    (h : Intact s.db.tables) : Rested (s.resume b) := by
  obtain ⟨name, controller, program, pending⟩ := b
  induction program generalizing s with
  | done result => exact ⟨h, trivial⟩
  | ask r next ih =>
    obtain ⟨hr, hnext⟩ := (Program.asksOnly_ask _ _).mp hb
    by_cases hpause : isPause r = true
    · rw [resume_of_isPause hpause]
      exact ⟨h, hb⟩
    · rw [resume_of_not_isPause hpause]
      exact ih _ (intact_respond h hr) (hnext _)

/-- A record is made for a workflow that is there. -/
theorem intact_start {db : Database} (h : Intact db.tables) {workflow : String}
    (hw : ∃ w ∈ db.tables.workflows, w.id = workflow) (now : Instant) (input : Value)
    (triggeredBy : Option String) :
    Intact (db.transact (start now workflow input triggeredBy)).2.tables := by
  refine Database.intact_transact h fun out tables' supply' hout => ?_
  rw [start_eq] at hout
  split_ifs at hout
  · cases hout
  · cases hout
  · cases hout
    refine h.mono rfl (fun w hmem => ⟨w, hmem, rfl⟩) ?_
    exact List.forall_mem_append.mpr ⟨h.executionOwner, List.forall_mem_singleton.mpr hw⟩

/-- An execution that begins looks its workflow up and records itself before it can be suspended, so
there is a workflow for the record to belong to. -/
theorem rested_resume_execute (rules : Rules) (workflow : String) (input : Value)
    (triggeredBy : Option String) (h : Intact s.db.tables) :
    Rested (s.resume ⟨name, controller, execute rules workflow input triggeredBy, pending⟩) := by
  have hload : ¬ isPause (.load workflow) = true := Bool.false_ne_true
  have hstart : ¬ isPause (.start workflow input triggeredBy) = true := Bool.false_ne_true
  rw [execute_eq, resume_of_not_isPause hload]
  show Rested (s.resume ⟨name, controller,
    afterLoad rules workflow input triggeredBy (Workflow.get? s.db.tables workflow), pending⟩)
  unfold afterLoad
  cases hplan : planned (Workflow.get? s.db.tables workflow) with
  | error fault => exact ⟨h, trivial⟩
  | ok tree =>
    obtain ⟨stored, hget, _, _⟩ := planned_eq_ok_iff.mp hplan
    obtain ⟨row, hfind, _⟩ := Option.map_eq_some_iff.mp hget
    dsimp only
    rw [resume_of_not_isPause hstart]
    exact rested_resume (owned_afterStart _ _ _ _)
      (intact_start h (mem_of_find? hfind) s.now input triggeredBy)

/-! ## Operations -/

/-- References are intact, and no execution is about to record itself. -/
structure Resting (s : Server) : Prop where
  intact : Intact s.db.tables
  owned : ∀ b ∈ s.background, b.program.AsksOnly IsOwned

theorem Resting.set (h : s.Resting) {out : Background × Server} (hout : Rested out) (n : Nat) :
    ({ out.2 with background := s.background.set n out.1 } : Server).Resting := by
  refine ⟨hout.1, fun b hb => ?_⟩
  obtain hmem | rfl := List.mem_or_eq_of_mem_set hb
  · exact h.owned b hmem
  · exact hout.2

theorem Resting.proceed (h : s.Resting) (n : Nat) : (s.proceed n).Resting := by
  cases hb : s.background[n]? with
  | none =>
    rw [proceed_of_none hb]
    exact h
  | some b =>
    rw [proceed_of_some hb]
    exact h.set (rested_move (h.owned b (List.mem_of_getElem? hb)) h.intact) n

/-- Whatever an execution that is suspended does next keeps references intact. -/
theorem Resting.resumeAt (h : s.Resting) (n : Nat) : (s.resumeAt n).Resting := by
  unfold Server.resumeAt
  cases hb : s.background[n]? with
  | none => exact h
  | some b => exact h.set (rested_resume (h.owned b (List.mem_of_getElem? hb)) h.intact) n

/-- So does an execution that begins, up to its first pause. -/
theorem resting_enter {others : List Background}
    (howned : ∀ b ∈ others, b.program.AsksOnly IsOwned) {b : Background}
    (hb : Rested (s.resume b)) :
    (({ s with background := others ++ [b] } : Server).resumeAt others.length).Resting := by
  have hlast : ({ s with background := others ++ [b] } : Server).background[others.length]? =
      some b := getElem?_concat others b
  unfold Server.resumeAt
  rw [hlast]
  dsimp only
  rw [resume_background, List.set_append_right _ _ (Nat.le_refl _), Nat.sub_self]
  exact ⟨hb.1, List.forall_mem_append.mpr ⟨howned, List.forall_mem_singleton.mpr hb.2⟩⟩

/-- What only changes triggers keeps references intact. -/
theorem intact_of_besidesTriggers {tables tables' : Tables} (h : Intact tables)
    (htables : tables'.besidesTriggers = tables.besidesTriggers) : Intact tables' := by
  obtain ⟨hworkflows, hsteps, hexecutions, _⟩ := Tables.mk.inj htables
  exact h.congr hworkflows hsteps hexecutions

theorem Resting.triggers (h : s.Resting) {α : Type} {t : Transaction α}
    (ht : Transaction.Spares Tables.besidesTriggers t) : Intact (s.db.transact t).2.tables :=
  intact_of_besidesTriggers h.intact (Database.transact_spares ht s.db).2

theorem Resting.cancel (h : s.Resting) (controller : Controller) (id : String) :
    (s.cancel controller id).2.Resting := by
  refine ⟨?_, (s.cancel_frame controller id).2 ▸ h.owned⟩
  unfold Server.cancel
  split
  · exact h.intact
  · rw [signal_db]
    refine intact_map h.intact fun row => ?_
    split_ifs
    · rfl
    · rfl

theorem Resting.serveOne (h : s.Resting) (op : Operation) : (s.serveOne op).Resting := by
  cases op with
  | createWorkflow draft => exact ⟨intact_create h.intact s.now draft, h.owned⟩
  | updateWorkflow id changes steps =>
    exact ⟨intact_update h.intact s.now id changes steps, h.owned⟩
  | deleteWorkflow id => exact ⟨intact_delete h.intact id, h.owned⟩
  | createTrigger workspace workflow name creator =>
    exact ⟨h.triggers (Trigger.spares_create s.now workspace workflow name creator), h.owned⟩
  | changeTrigger id change =>
    exact ⟨h.triggers (spares_changeTrigger s.now id change.data), h.owned⟩
  | deleteTrigger id => exact ⟨h.triggers (spares_deleteTrigger id), h.owned⟩
  | execute name controller workflow input triggeredBy =>
    exact resting_enter h.owned
      (rested_resume_execute s.rules workflow input triggeredBy h.intact)
  | receive name controller url payload signature =>
    show ((s.step _).resumeAt s.background.length).Resting
    rw [step_receive]
    have haccepted := h.triggers (Trigger.spares_accept s.now url payload signature)
    refine resting_enter (s := (s.transact (Trigger.accept s.now url payload signature)).2)
      h.owned ?_
    cases (s.transact (Trigger.accept s.now url payload signature)).1 with
    | error fault => exact ⟨haccepted, trivial⟩
    | ok workflow => exact rested_resume_execute s.rules workflow payload _ haccepted
  | receiveRaw url signature =>
    refine ⟨intact_of_besidesTriggers h.intact (s.besidesTriggers_receiveRaw url signature), ?_⟩
    show ∀ b ∈ (s.receiveRaw url signature).2.background, _
    rw [receiveRaw_eq]
    exact h.owned
  | cancel controller id => exact h.cancel controller id
  | proceed n => exact (h.proceed n).resumeAt n
  | release =>
    refine ⟨h.intact, fun b hb => ?_⟩
    obtain ⟨old, hold, rfl⟩ := List.mem_map.mp hb
    exact h.owned old hold
  | tick now => exact ⟨h.intact, h.owned⟩

/-- References are intact whatever a server is asked to do, with executions suspended at their calls
and delays in between. -/
theorem references_intact (rules : Rules) (script : List Outbound.Scripted)
    (operations : List Operation) : Intact ((fresh rules script).serve operations).db.tables := by
  have hserve (operations : List Operation) (s : Server) (h : s.Resting) :
      (s.serve operations).Resting := by
    induction operations generalizing s with
    | nil => exact h
    | cons op rest ih => exact ih _ (h.serveOne op)
  exact (hserve operations _ ⟨intact_empty, fun _ hb => absurd hb List.not_mem_nil⟩).intact

end Stepwise.Server
