import Stepwise.Proofs.Execution.Invariant

/-!
# The report and the record

What an execution reports when it ends, and what its record says at that moment. They agree in every
schedule, except where a cancellation has written the record and a step fails then: the record stays
cancelled, but the fault of the step is reported.
-/

namespace Stepwise.Execution

open Store

/-- The state that a report stands for. -/
def ending : Except Fault Report → Status
  | .ok _ => .completed
  | .error .cancelled => .cancelled
  | .error _ => .failed

theorem ending_fault {fault : Fault} (h : fault ≠ .cancelled) :
    ending (.error fault) = .failed := by
  unfold ending
  split
  · simp_all
  · simp_all
  · rfl

/-- The report of an execution and its record say the same. -/
structure Agree (result : Except Fault Report) (row : ExecutionRow) : Prop where
  completed : (∃ report, result = .ok report) ↔ row.status = Status.completed.name
  cancelled : result = .error .cancelled ↔ row.status = Status.cancelled.name
  failed : ∀ fault, fault ≠ .cancelled → result = .error fault →
    row.status = Status.failed.name ∧ row.error = some fault.recorded
  of_failed : row.status = Status.failed.name →
    ∃ fault, fault ≠ .cancelled ∧ result = .error fault ∧ row.error = some fault.recorded

theorem Agree.status {result : Except Fault Report} {row : ExecutionRow} (h : Agree result row) :
    row.status = (ending result).name := by
  obtain fault | report := result
  · by_cases hf : fault = .cancelled
    · subst hf
      exact h.cancelled.mp rfl
    · rw [ending_fault hf]
      exact (h.failed fault hf rfl).1
  · exact h.completed.mp ⟨report, rfl⟩

theorem agree_ok (report : Report) {row : ExecutionRow}
    (h : row.status = Status.completed.name) : Agree (.ok report) row where
  completed := ⟨fun _ => h, fun _ => ⟨report, rfl⟩⟩
  cancelled := ⟨nofun, fun hs => absurd (h.symm.trans hs) (by decide)⟩
  failed := nofun
  of_failed := fun hs => absurd (h.symm.trans hs) (by decide)

theorem agree_cancelled {row : ExecutionRow} (h : row.status = Status.cancelled.name) :
    Agree (.error .cancelled) row where
  completed := ⟨nofun, fun hs => absurd (h.symm.trans hs) (by decide)⟩
  cancelled := ⟨fun _ => h, fun _ => rfl⟩
  failed := fun fault hf he => absurd (Except.error.inj he).symm hf
  of_failed := fun hs => absurd (h.symm.trans hs) (by decide)

theorem agree_fault {fault : Fault} (hf : fault ≠ .cancelled) {row : ExecutionRow}
    (h : row.status = Status.failed.name) (he : row.error = some fault.recorded) :
    Agree (.error fault) row where
  completed := ⟨nofun, fun hs => absurd (h.symm.trans hs) (by decide)⟩
  cancelled := ⟨fun hc => absurd (Except.error.inj hc) hf,
    fun hs => absurd (h.symm.trans hs) (by decide)⟩
  failed := by
    intro fault' _ heq
    obtain rfl := Except.error.inj heq
    exact ⟨h, he⟩
  of_failed := fun _ => ⟨fault, hf, rfl, he⟩

/-! ## The record at the end -/

namespace Recorded

variable {closing : Option (Closing × Bool)} {cancels : List Cancel} {row : ExecutionRow}

/-- After a closing as completed that was in time, and before any cancellation. -/
theorem status_of_completed {output : Fields} {log : List Run.Entry}
    (h : Recorded (some (.completed output log, true)) cancels [row]) (hw : ¬ Written cancels) :
    row.status = Status.completed.name := by
  cases h with
  | running hs hn hc => cases hn
  | cancelled hs hc => exact absurd hc hw
  | closed hs hn hc =>
    obtain ⟨rfl, _⟩ := Prod.mk.inj (Option.some.inj hn)
    exact hs.1

/-- After a cancellation that the execution heard of, by its signal or by a closing that came too
late. -/
theorem status_of_cancelled (h : Recorded closing cancels [row])
    (hheard : closing = none ∧ Written cancels ∨
      ∃ output log, closing = some (.completed output log, false)) :
    row.status = Status.cancelled.name := by
  cases h with
  | running hs hn hc =>
    obtain ⟨_, hw⟩ | ⟨output, log, hclosing⟩ := hheard
    · exact absurd hw hc
    · simp [hclosing] at hn
  | cancelled hs hc => exact hs
  | closed hs hn hc =>
    obtain ⟨hclosing, _⟩ | ⟨output, log, hclosing⟩ := hheard
    · simp [hclosing] at hn
    · simp [hclosing] at hn

/-- After a closing as failed, in time or not: the cancellations decide. -/
theorem cases_of_failed {error : String} {log : List Run.Entry} {inTime : Bool}
    (h : Recorded (some (.failed error log, inTime)) cancels [row]) :
    (Written cancels ∧ row.status = Status.cancelled.name) ∨
      ¬ Written cancels ∧ row.status = Status.failed.name ∧ row.error = some error := by
  cases h with
  | running hs hn hc => cases hn
  | cancelled hs hc => exact .inl ⟨hc, hs⟩
  | closed hs hn hc =>
    obtain ⟨rfl, _⟩ := Prod.mk.inj (Option.some.inj hn)
    exact .inr ⟨hc, hs.1, hs.2.1⟩

end Recorded

namespace World

variable {w : World} {a : Account}

/-- At the move that ends the execution, report and record agree, unless a step has failed and a
cancellation has written the record. -/
theorem Sound.agree_iff (h : w.Sound a) (hbefore : w.outcome? = none)
    {result : Except Fault Report} (hend : w.run.outcome? = some result)
    {row : ExecutionRow} (hrow : w.run.row? = some row) :
    Agree result row ↔ ¬ (Written w.cancels ∧ ending result = .failed) := by
  cases hw : w.program with
  | done result' =>
    rw [outcome?_eq_some.mpr hw] at hbefore
    cases hbefore
  | ask r next =>
    have hrun := h.run hw
    obtain ⟨id, hid, _, hrecorded⟩ := hrun.row?_eq_some hrow
    rw [cancels_run] at hrecorded
    have htells := hrun.keeps
    rw [outcome?_eq_some.mp hend] at htells
    obtain fault | report := result
    · by_cases hf : fault = .cancelled
      · subst hf
        obtain ⟨_, _, hcase⟩ := htells
        have hs := hrecorded.status_of_cancelled <| hcase.imp_left fun ⟨htold, hclosing⟩ => by
          refine ⟨hclosing, ?_⟩
          rw [← cancels_run w]
          exact (hrun.told htold).written
        exact iff_of_true (agree_cancelled hs) fun hc => by cases hc.2
      · rw [ending_fault hf]
        obtain hinitial | ⟨_, _, log, inTime, hclosing⟩ := (Account.tells_fault hf).mp htells
        · rw [hinitial] at hid
          cases hid
        · rw [hclosing] at hrecorded
          obtain ⟨hwritten, hs⟩ | ⟨hnot, hs, he⟩ := hrecorded.cases_of_failed
          · have hdisagree : ¬ Agree (.error fault) row := fun hagree => by
              have hstatus := hs.symm.trans hagree.status
              rw [ending_fault hf] at hstatus
              exact absurd hstatus (by decide)
            exact iff_of_false hdisagree fun hn => hn ⟨hwritten, rfl⟩
          · exact iff_of_true (agree_fault hf hs he) fun hc => hnot hc.1
    · obtain ⟨_, _, log, hclosing⟩ := htells
      have hnot := h.not_written_of_closed hw hclosing
      rw [hclosing] at hrecorded
      have hs := hrecorded.status_of_completed hnot
      exact iff_of_true (agree_ok report hs) fun hc => by cases hc.2

end World

/-- When an execution ends and its record is there, its report and its record agree, in every
schedule of its requests and of the moves of its cancellations, except in one case: a cancellation
has written the record, and a step failed. -/
theorem report_agrees_iff (db : Database) (now : Instant) (rules : Rules)
    (script : List Outbound.Scripted) (workflow : String) (input : Value)
    (triggeredBy : Option String) (events : List Event) {result : Except Fault Report}
    {row : ExecutionRow}
    (hbefore : ((World.begin db now rules script workflow input triggeredBy).play
      events).outcome? = none)
    (hend : ((World.begin db now rules script workflow input triggeredBy).play
      (events ++ [.run])).outcome? = some result)
    (hrow : ((World.begin db now rules script workflow input triggeredBy).play
      (events ++ [.run])).row? = some row) :
    Agree result row ↔
      ¬ (Written ((World.begin db now rules script workflow input triggeredBy).play
        events).cancels ∧ ending result = .failed) := by
  obtain ⟨a, ha, _⟩ :=
    (World.sound_begin db now rules script workflow input triggeredBy).play events
  rw [World.play_append] at hend hrow
  exact ha.agree_iff hbefore hend hrow

/-- A cancellation is made while the first step waits for the answer to its call; the run ends but
for its last request. -/
def whileCalling : List Event :=
  List.replicate 4 .run ++ [.arrive .main, .advance 0, .advance 0, .advance 0, .run, .run]

/-- An execution whose call is answered reports the cancellation, which its record shows. -/
theorem report_agrees_of_answered_call : ∃ result row,
    ((World.calling []).play whileCalling).outcome? = none ∧
      ((World.calling []).play (whileCalling ++ [.run])).outcome? = some result ∧
      ((World.calling []).play (whileCalling ++ [.run])).row? = some row ∧
      Agree result row := by
  have hbefore : ((World.calling []).play whileCalling).outcome?.isNone = true := by
    decide +kernel
  have hend : ((World.calling []).play (whileCalling ++ [.run])).outcome?.map ending =
      some .cancelled := by
    decide +kernel
  have hrow : ((World.calling []).play (whileCalling ++ [.run])).row?.isSome = true := by
    decide +kernel
  rw [Option.isNone_iff_eq_none] at hbefore
  obtain ⟨result, hresult, hending⟩ := Option.map_eq_some_iff.mp hend
  obtain ⟨row, hrow⟩ := Option.isSome_iff_exists.mp hrow
  refine ⟨result, row, hbefore, hresult, hrow, ?_⟩
  refine (report_agrees_iff _ _ _ _ _ _ _ whileCalling hbefore hresult hrow).mpr fun h => ?_
  rw [hending] at h
  cases h.2

/-- A script that answers the first call by an error. -/
def refusal : List Outbound.Scripted := [⟨.ok ⟨500, [], ""⟩, 0, false, false⟩]

/-- An execution whose call is answered by an error reports the error, but its record is
cancelled. -/
theorem report_disagrees_of_refused_call : ∃ result row,
    ((World.calling refusal).play whileCalling).outcome? = none ∧
      ((World.calling refusal).play (whileCalling ++ [.run])).outcome? = some result ∧
      ((World.calling refusal).play (whileCalling ++ [.run])).row? = some row ∧
      ¬ Agree result row := by
  have hbefore : ((World.calling refusal).play whileCalling).outcome?.isNone = true := by
    decide +kernel
  have hend : ((World.calling refusal).play (whileCalling ++ [.run])).outcome?.map ending =
      some .failed := by
    decide +kernel
  have hrow : ((World.calling refusal).play (whileCalling ++ [.run])).row?.map (·.status) =
      some Status.cancelled.name := by
    decide +kernel
  rw [Option.isNone_iff_eq_none] at hbefore
  obtain ⟨result, hresult, hending⟩ := Option.map_eq_some_iff.mp hend
  obtain ⟨row, hrow, hstatus⟩ := Option.map_eq_some_iff.mp hrow
  refine ⟨result, row, hbefore, hresult, hrow, fun h => ?_⟩
  have hs := h.status
  rw [hending, hstatus] at hs
  exact absurd hs (by decide)

end Stepwise.Execution
