import Stepwise.Proofs.Execution.Finality
import Stepwise.Proofs.Execution.Report

/-!
# After an execution

An execution that has ended leaves no record that is still running. Its record has ended too, or it
was taken away with its workflow, and no cancellation can reach the execution any more. The run that
is cancelled writes nothing at its end: it relies on the cancellation, which signals only after it
has written.
-/

namespace Stepwise.Execution

open Store

theorem Closing.write_workflow (c : Closing) (since now : Instant) (row : ExecutionRow) :
    (c.write since now row).workflow = row.workflow := by
  cases c with
  | completed output log => rfl
  | failed error log => rfl

/-- The deletion of a workflow takes away the rows of that workflow only. -/
theorem rowsOf_delete_of_ne (db : Database) {deleted : String} {id : String}
    (h : ∀ row ∈ rowsOf db.tables id, row.workflow ≠ deleted) :
    rowsOf (db.transact (Workflow.delete deleted)).2.tables id = rowsOf db.tables id := by
  unfold Database.transact
  rw [delete_eq]
  split_ifs
  · rfl
  · show (db.tables.executions.filter (·.workflow != deleted)).filter (·.id == id) = _
    rw [List.filter_comm]
    exact List.filter_eq_self.mpr fun row hrow => by simpa using h row hrow

/-- A request to record an execution is one for the workflow. -/
def Request.IsFor (workflow : String) : Request → Prop
  | .start w _ _ => w = workflow
  | .accept _ _ _ | .load _ | .register _ | .withdraw _ | .close _ _ _ | .run _ _ => True

theorem Request.IsLate.isFor {keepLogs : Bool} {r : Request} (h : r.IsLate keepLogs)
    (workflow : String) : r.IsFor workflow := by
  cases r with
  | start w input triggeredBy => exact h.elim
  | _ => trivial

/-- An execution records itself for its workflow only. -/
theorem asksOnly_execute (rules : Rules) (workflow : String) (input : Value)
    (triggeredBy : Option String) :
    (execute rules workflow input triggeredBy).AsksOnly (Request.IsFor workflow) := by
  rw [execute_eq]
  refine ⟨trivial, fun (found : Option Workflow.Stored) _ => ?_⟩
  show (afterLoad rules workflow input triggeredBy found).AsksOnly _
  unfold afterLoad
  split
  · trivial
  · exact ⟨rfl, fun started _ =>
      (late_afterStart rules _ input started).mono fun _ hr => hr.isFor workflow⟩

theorem asksOnly_readClock {α : Type} {allowed : Request → Prop} (now : Instant) {p : Activity α}
    (h : p.AsksOnly allowed) : (readClock now p).AsksOnly allowed := by
  induction p using readClock.induct now with
  | case1 id next ih => exact ih (h.2 now trivial)
  | case2 activity hne =>
    rw [readClock.eq_2 now activity hne]
    exact h

namespace Recorded

variable {closing : Option (Closing × Bool)} {cancels : List Cancel} {row : ExecutionRow}

/-- A record that its execution has tried to close, or that a cancellation has written, has ended.
-/
theorem ended (h : Recorded closing cancels [row]) (hc : closing ≠ none ∨ Written cancels) :
    Ended row := by
  by_contra hn
  obtain ⟨hclosing, hnot⟩ := h.of_not_ended hn
  exact hc.elim (absurd hclosing) hnot

/-- A record that a cancellation has written is cancelled for as long as it is there. -/
theorem status_of_written (h : Recorded closing cancels [row]) (hw : Written cancels) :
    row.status = Status.cancelled.name := by
  cases h with
  | running hs hn hc => exact absurd hw hc
  | cancelled hs hc => exact hs
  | closed hs hn hc => exact absurd hw hc

end Recorded

namespace World

variable {w : World} {a : Account} {workflow : String}

/-! ## At the end -/

/-- An execution that has ended with a record has withdrawn; and it has tried to close the record,
or else a cancellation has signalled to it, which had written the record before. -/
theorem Sound.closing_or_written (h : w.Sound a) {result : Except Fault Report}
    (hend : w.outcome? = some result) {id : String} (hid : a.id = some id) :
    a.reachable = false ∧ (a.closing ≠ none ∨ Written w.cancels) := by
  have htells := h.keeps
  rw [outcome?_eq_some.mp hend] at htells
  obtain fault | report := result
  · by_cases hf : fault = .cancelled
    · subst hf
      obtain ⟨hreachable, _, ⟨htold, _⟩ | ⟨output, log, hclosing⟩⟩ := htells
      · exact ⟨hreachable, .inr (h.told htold).written⟩
      · exact ⟨hreachable, .inl (by simp [hclosing])⟩
    · obtain hinitial | ⟨hreachable, _, log, inTime, hclosing⟩ :=
        (Account.tells_fault hf).mp htells
      · rw [hinitial] at hid
        cases hid
      · exact ⟨hreachable, .inl (by simp [hclosing])⟩
  · obtain ⟨hreachable, _, log, hclosing⟩ := htells
    exact ⟨hreachable, .inl (by simp [hclosing])⟩

/-- So the record that it leaves has ended. -/
theorem Sound.ended (h : w.Sound a) {result : Except Fault Report}
    (hend : w.outcome? = some result) {row : ExecutionRow} (hrow : w.row? = some row) :
    Ended row := by
  obtain ⟨id, hid, _, hrecorded⟩ := h.row?_eq_some hrow
  exact hrecorded.ended (h.closing_or_written hend hid).2

/-- From every moment on the execution comes to its end, if it goes on. -/
theorem ends_if_run (w : World) : ∃ n, (w.play (List.replicate n .run)).outcome?.isSome = true := by
  obtain ⟨n, hdone, _⟩ := w.endsAs_program
  refine ⟨n, ?_⟩
  rw [outcome?_eq_some.mpr hdone]
  rfl

/-- No cancellation reaches an execution that has withdrawn. -/
theorem Sound.running_eq_nil (h : w.Sound a) (hr : a.reachable = false) (controller : Controller) :
    w.server.running controller = [] := by
  have hnone : w.server.registered = [] := by
    refine List.eq_nil_iff_forall_not_mem.mpr fun e he => ?_
    simpa [hr] using (h.registered e).mp he
  simp [Server.running, hnone]

/-! ## The record of a workflow that is not deleted -/

/-- The execution records itself for the workflow only, and a record that it has opened is there. -/
structure Holds (w : World) (workflow : String) : Prop where
  asksOnly : w.program.AsksOnly (Request.IsFor workflow)
  there : ∀ id, w.opened = some id →
    ∃ row, rowsOf w.server.db.tables id = [row] ∧ row.workflow = workflow

/-- The workflow was deleted, and the record, which was there until then, was taken away with it. -/
def Deleted (w : World) (workflow : String) (events : List Event) : Prop :=
  ∃ before later, events = before ++ .delete workflow :: later ∧
    (w.play before).row?.isSome = true ∧ ((w.play before).step (.delete workflow)).row? = none

theorem holds_begin (db : Database) (now : Instant) (rules : Rules)
    (script : List Outbound.Scripted) (workflow : String) (input : Value)
    (triggeredBy : Option String) :
    (begin db now rules script workflow input triggeredBy).Holds workflow :=
  ⟨asksOnly_execute rules workflow input triggeredBy, nofun⟩

theorem Holds.row?_isSome (h : w.Holds workflow) (ho : w.opened.isSome = true) :
    w.row?.isSome = true := by
  obtain ⟨id, hid⟩ := Option.isSome_iff_exists.mp ho
  obtain ⟨row, hrows, _⟩ := h.there id hid
  simp [row?, hid, find?_eq_head?, hrows]

/-- A request of the execution takes no record away. -/
theorem Holds.run (hw : w.Holds workflow) (h : w.Sound a) : w.run.Holds workflow := by
  cases hp : w.program with
  | done result =>
    rw [run_of_done hp]
    exact hw
  | ask r next =>
    have hasks := hw.asksOnly
    rw [hp, Program.asksOnly_ask] at hasks
    obtain ⟨hfor, hnext⟩ := hasks
    have hr := h.may hp
    rw [run_of_ask hp]
    refine ⟨asksOnly_readClock _ (hnext _), fun id hid => ?_⟩
    change (r.opens (w.server.respond .main r).1).or w.opened = some id at hid
    show ∃ row, rowsOf (w.server.respond .main r).2.db.tables id = [row] ∧ _
    cases r with
    | accept url payload signature => exact hr.elim
    | load w' => exact hw.there id hid
    | start w' input triggeredBy =>
      obtain rfl : a = .initial := hr
      obtain rfl : w' = workflow := hfor
      -- No record was opened before, so the id can only be the one that is answered now.
      have hnone : w.opened = none := h.opened
      rw [hnone, Option.or_none] at hid
      exact ⟨_, (transact_start w.server.db w.server.now w' input triggeredBy).2 id
        (ok_of_toOption hid), rfl⟩
    | register id' => exact hw.there id hid
    | withdraw id' => exact hw.there id hid
    | close id' since c =>
      obtain ⟨row, hrows, hrow⟩ := hw.there id hid
      obtain rfl : id' = id := Option.some.inj (hr.1.symm.trans (h.opened.symm.trans hid))
      show ∃ row, rowsOf (close since w.server.now id' c w.server.db.tables).2 id' = [row] ∧ _
      rw [rowsOf_close, hrows]
      refine ⟨_, rfl, ?_⟩
      dsimp only
      split_ifs
      · rw [c.write_workflow, hrow]
      · exact hrow
    | run id' r =>
      show ∃ row, rowsOf (w.server.respondRun id' r).2.db.tables id = [row] ∧ _
      rw [rowsOf_congr (w.server.respondRun_spec id' r).1]
      exact hw.there id hid

theorem advance_keeps (w : World) (n : Nat) :
    (w.advance n).program = w.program ∧ (w.advance n).opened = w.opened := by
  unfold advance
  split
  · exact ⟨rfl, rfl⟩
  · exact ⟨rfl, rfl⟩

/-- Nor does a cancellation. -/
theorem Holds.advance (hw : w.Holds workflow) (n : Nat) : (w.advance n).Holds workflow := by
  obtain ⟨hprogram, hopened⟩ := w.advance_keeps n
  refine ⟨hprogram ▸ hw.asksOnly, fun id hid => ?_⟩
  rw [hopened] at hid
  obtain ⟨row, hrows, hrow⟩ := hw.there id hid
  obtain ⟨hdb, _⟩ | ⟨id', c, row', ho, _, _, _, htables, _⟩ := w.advance_cases n
  · rw [hdb]
    exact ⟨row, hrows, hrow⟩
  · obtain rfl : id' = id := Option.some.inj (ho.symm.trans hid)
    rw [htables, rowsOf_commitCancel, hrows]
    exact ⟨_, rfl, hrow⟩

/-- The deletion of a workflow takes the record away only if it is the workflow of the record. -/
theorem Holds.delete (hw : w.Holds workflow) (deleted : String) :
    (w.step (.delete deleted)).Holds workflow ∨
      deleted = workflow ∧ w.row?.isSome = true ∧ (w.step (.delete deleted)).row? = none := by
  cases ho : w.opened with
  | none => exact .inl ⟨hw.asksOnly, fun id hid => nomatch ho.symm.trans hid⟩
  | some id =>
    obtain ⟨row, hrows, hrow⟩ := hw.there id ho
    have hsub := rowsOf_delete w.server.db deleted id
    rw [hrows, List.sublist_singleton] at hsub
    -- The id has one row only, so the deletion leaves none or that one.
    obtain hgone | hleft := hsub
    · right
      have hdeleted : deleted = workflow := by
        by_contra hne
        have hother : ∀ r ∈ rowsOf w.server.db.tables id, r.workflow ≠ deleted := by
          simp [hrows, hrow, Ne.symm hne]
        rw [rowsOf_delete_of_ne w.server.db hother, hrows] at hgone
        cases hgone
      have hnone : (w.step (.delete deleted)).row? = none := by
        show w.opened.bind (find? (w.server.db.transact (Workflow.delete deleted)).2.tables) = none
        rw [ho, Option.bind_some, find?_eq_head?, hgone, List.head?_nil]
      exact ⟨hdeleted, hw.row?_isSome (by simp [ho]), hnone⟩
    · refine .inl ⟨hw.asksOnly, fun id' hid => ⟨row, ?_, hrow⟩⟩
      obtain rfl : id = id' := Option.some.inj (ho.symm.trans hid)
      exact hleft

/-- One move leaves the record where it is, or deletes its workflow. -/
theorem Holds.step (hw : w.Holds workflow) (h : w.Sound a) (e : Event) :
    (w.step e).Holds workflow ∨
      e = .delete workflow ∧ w.row?.isSome = true ∧ (w.step e).row? = none := by
  cases e with
  | run => exact .inl (hw.run h)
  | arrive controller =>
    left
    obtain hstep | ⟨_, hstep⟩ := w.step_arrive controller
    · rw [hstep]
      exact hw
    · rw [hstep]
      exact ⟨hw.asksOnly, hw.there⟩
  | advance n => exact .inl (hw.advance n)
  | tick now => exact .inl ⟨hw.asksOnly, hw.there⟩
  | delete deleted =>
    obtain hholds | ⟨rfl, hgone⟩ := hw.delete deleted
    · exact .inl hholds
    · exact .inr ⟨rfl, hgone⟩

/-- By induction on the schedule: a record that is no longer there went with its workflow. -/
theorem Holds.play (hw : w.Holds workflow) (h : w.Sound a) (events : List Event) :
    (w.play events).Holds workflow ∨ w.Deleted workflow events := by
  induction events generalizing w a with
  | nil => exact .inl hw
  | cons e rest ih =>
    obtain hstep | ⟨rfl, hthere, hgone⟩ := hw.step h e
    · obtain ⟨a', ha', _⟩ := h.step e
      obtain hplay | ⟨before, later, rfl, hdeleted⟩ := ih hstep ha'
      · exact .inl hplay
      · exact .inr ⟨e :: before, later, rfl, hdeleted⟩
    · exact .inr ⟨[], rest, rfl, hthere, hgone⟩

theorem Holds.deleted (hw : w.Holds workflow) (h : w.Sound a) {events : List Event}
    (ho : (w.play events).opened.isSome = true) (hgone : (w.play events).row? = none) :
    w.Deleted workflow events := by
  obtain hholds | hdeleted := hw.play h events
  · have hthere := hholds.row?_isSome ho
    rw [hgone] at hthere
    cases hthere
  · exact hdeleted

/-! ## The record behind a signal -/

/-- The record was there, and it was cancelled. -/
def WasCancelled (w : World) (events : List Event) : Prop :=
  ∃ before later row, events = before ++ later ∧ (w.play before).row? = some row ∧
    row.status = Status.cancelled.name

/-- The move that makes a cancellation one that has written leaves the record cancelled. -/
theorem written_step (w : World) (e : Event) (hw : Written (w.step e).cancels) :
    Written w.cancels ∨
      ∃ row, (w.step e).row? = some row ∧ row.status = Status.cancelled.name := by
  cases e with
  | run =>
    left
    change Written w.run.cancels at hw
    rwa [cancels_run] at hw
  | arrive controller =>
    left
    obtain hstep | ⟨_, hstep⟩ := w.step_arrive controller
    · rwa [hstep] at hw
    · rw [hstep] at hw
      simpa [Written, Phase.hasWritten] using hw
  | advance n =>
    change Written (w.advance n).cancels at hw
    show _ ∨ ∃ row, (w.advance n).row? = some row ∧ _
    obtain ⟨_, hsame⟩ | ⟨id, c, row, ho, _, _, hrow, htables, _⟩ := w.advance_cases n
    · rw [← writers_pos, hsame, writers_pos] at hw
      exact .inl hw
    · right
      refine ⟨Execution.cancelled w.server.now row, ?_, rfl⟩
      rw [find?_eq_head?] at hrow
      rw [row?, (w.advance_keeps n).2, ho, htables, Option.bind_some, find?_eq_head?,
        rowsOf_commitCancel, List.head?_map, hrow, Option.map_some]
  | tick now => exact .inl hw
  | delete workflow => exact .inl hw

theorem wasCancelled_of_written (w : World) (events : List Event)
    (hw : Written (w.play events).cancels) : Written w.cancels ∨ w.WasCancelled events := by
  induction events generalizing w with
  | nil => exact .inl hw
  | cons e rest ih =>
    obtain hstep | ⟨before, later, row, rfl, hrow⟩ := ih (w.step e) hw
    · obtain hold | ⟨row, hrow⟩ := w.written_step e hstep
      · exact .inl hold
      · exact .inr ⟨[e], rest, row, rfl, hrow⟩
    · exact .inr ⟨e :: before, later, row, rfl, hrow⟩

end World

/-- No execution leaves its record running, in any schedule of its requests, of cancellations in
their own steps, and of deletions. When it has ended, whether it has returned or failed, the record
that it had opened has ended, unless it was taken away with its workflow; and no cancellation can
reach it. It does end, if it goes on. And at every moment a signal belongs to an execution whose
record was there and was cancelled before, and still is for as long as it is there. -/
theorem no_record_left_running (db : Database) (now : Instant) (rules : Rules)
    (script : List Outbound.Scripted) (workflow : String) (input : Value)
    (triggeredBy : Option String) (events : List Event) :
    let w := World.begin db now rules script workflow input triggeredBy
    (∀ result id, (w.play events).outcome? = some result → (w.play events).opened = some id →
      ((w.play events).row? = none ∧ w.Deleted workflow events ∨
        ∃ row, rowsOf (w.play events).server.db.tables id = [row] ∧ Ended row) ∧
      ∀ controller, id ∉ (w.play events).server.running controller) ∧
    (∃ n, (w.play (events ++ List.replicate n .run)).outcome?.isSome = true) ∧
    ∀ id ∈ (w.play events).server.signalled,
      (w.play events).opened = some id ∧ w.WasCancelled events ∧
        ∀ row, (w.play events).row? = some row → row.status = Status.cancelled.name := by
  intro w
  have hbegin : w.Sound .initial :=
    World.sound_begin db now rules script workflow input triggeredBy
  obtain ⟨a, ha, _⟩ := hbegin.play events
  refine ⟨?_, ?_, ?_⟩
  · intro result id hend hopened
    have hid : a.id = some id := ha.opened.symm.trans hopened
    have hreachable := (ha.closing_or_written hend hid).1
    refine ⟨?_, fun controller => by simp [ha.running_eq_nil hreachable controller]⟩
    cases hrow : (w.play events).row? with
    | none =>
      have hholds := World.holds_begin db now rules script workflow input triggeredBy
      exact .inl ⟨rfl, hholds.deleted hbegin (by rw [hopened]; rfl) hrow⟩
    | some row =>
      obtain ⟨id', hid', hrows, _⟩ := ha.row?_eq_some hrow
      obtain rfl : id' = id := Option.some.inj (hid'.symm.trans hid)
      exact .inr ⟨row, hrows, ha.ended hend hrow⟩
  · obtain ⟨n, hn⟩ := (w.play events).ends_if_run
    exact ⟨n, by rwa [World.play_append]⟩
  · intro id hid
    obtain ⟨hopened, hsignalled⟩ := (ha.signalled id).mp hid
    refine ⟨ha.opened.trans hopened, ?_, fun row hrow => ?_⟩
    · exact (w.wasCancelled_of_written events hsignalled.written).resolve_left not_written_nil
    · obtain ⟨_, _, _, hrecorded⟩ := ha.row?_eq_some hrow
      exact hrecorded.status_of_written hsignalled.written

/-- A run that is cancelled while its first step waits for an answer ends with the signal, and the
record that it leaves is the one that the cancellation has written. -/
theorem record_left_by_cancelled_call :
    let w := (World.calling []).play (whileCalling ++ [.run])
    ∃ result id, w.outcome? = some result ∧ w.opened = some id ∧ id ∈ w.server.signalled ∧
      (∃ row, rowsOf w.server.db.tables id = [row] ∧ Ended row) ∧
      id ∉ w.server.running .main ∧ (World.calling []).WasCancelled (whileCalling ++ [.run]) := by
  intro w
  have hend : w.outcome?.isSome = true := by decide +kernel
  have hopened : w.opened = some "r-1" := by decide +kernel
  have hsignalled : "r-1" ∈ w.server.signalled := by decide +kernel
  have hrow : w.row?.isNone = false := by decide +kernel
  obtain ⟨result, hresult⟩ := Option.isSome_iff_exists.mp hend
  obtain ⟨hended, _, hbefore⟩ :=
    no_record_left_running _ _ _ _ _ _ _ (whileCalling ++ [.run])
  obtain ⟨⟨hgone, _⟩ | hleft, hrunning⟩ := hended result "r-1" hresult hopened
  · rw [show w.row? = none from hgone] at hrow
    cases hrow
  · exact ⟨result, "r-1", hresult, hopened, hsignalled, hleft, hrunning .main,
      (hbefore "r-1" hsignalled).2.1⟩

end Stepwise.Execution
