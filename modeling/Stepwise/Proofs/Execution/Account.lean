import Stepwise.Proofs.Execution.Requests
import Stepwise.Proofs.Run.Discipline

/-!
# The conduct of an execution

An execution opens one record, is reachable from then on until its steps have run, and tries to
close the record at most once, after which it makes no other use of it. What it has done so far is
kept in an account; and what it reports at its end is told by the account alone.
-/

namespace Stepwise.Execution

/-- What an execution has done so far. -/
structure Account where
  /-- The id of its record. -/
  id : Option String
  /-- What it has heard of a cancellation. -/
  leave : Run.Leave
  /-- A cancellation can reach it. -/
  reachable : Bool
  /-- How it tried to close its record, and whether it was in time. -/
  closing : Option (Closing × Bool)

/-- The account of an execution that is to begin. -/
def Account.initial : Account := ⟨none, ⟨false, false⟩, false, none⟩

/-- The account after an answer. -/
def Account.after (a : Account) : (r : Request) → r.Answer → Account
  | .accept _ _ _, _ | .load _, _ => a
  | .start _ _ _, answer => { a with id := (answer : Except Fault String).toOption }
  | .register _, _ => { a with reachable := true }
  | .withdraw _, _ => { a with reachable := false }
  | .close _ _ closing, inTime => { a with closing := some (closing, inTime) }
  | .run _ r, answer => { a with leave := a.leave.after r answer }

/-- What an execution may ask. A closing as completed is the last request of all. -/
def Account.May (a : Account) : Request → Prop
  | .accept _ _ _ => False
  | .load _ | .start _ _ _ => a = .initial
  | .register id => a.id = some id ∧ a.reachable = false ∧ a.closing = none ∧
      a.leave.free = false
  | .withdraw id => a.id = some id ∧ a.reachable = true ∧
      ∀ output log inTime, a.closing ≠ some (.completed output log, inTime)
  | .close id _ closing => a.id = some id ∧ a.closing = none ∧
      (a.reachable = true ↔ closing.status = .failed)
  | .run id r => a.id = some id ∧ a.reachable = true ∧ a.closing = none ∧
      (r.isEffect = true → a.leave.free = true)

/-- A request that may still be made follows no closing as completed. -/
theorem Account.May.closing_ne {a : Account} {r : Request} (h : a.May r) (output : Fields)
    (log : List Run.Entry) (inTime : Bool) :
    a.closing ≠ some (.completed output log, inTime) := by
  have hinitial (ha : a = .initial) : a.closing = none := by
    rw [ha]
    rfl
  have hnone (hn : a.closing = none) : a.closing ≠ some (.completed output log, inTime) := by
    simp [hn]
  cases r with
  | accept url payload signature => exact h.elim
  | load workflow => exact hnone (hinitial h)
  | start workflow input triggeredBy => exact hnone (hinitial h)
  | register id => exact hnone h.2.2.1
  | withdraw id => exact h.2.2 output log inTime
  | close id since closing => exact hnone h.2.1
  | run id r => exact hnone h.2.2.1

/-- The id of the record that a request has opened. -/
def Request.opens : (r : Request) → r.Answer → Option String
  | .start _ _ _, answer => (answer : Except Fault String).toOption
  | .accept _ _ _, _ | .load _, _ | .register _, _ | .withdraw _, _ | .close _ _ _, _
  | .run _ _, _ => none

theorem Account.id_after {a : Account} {r : Request} (h : a.May r) (answer : r.Answer) :
    (a.after r answer).id = (r.opens answer).or a.id := by
  cases r with
  | start workflow input triggeredBy =>
    obtain rfl : a = .initial := h
    exact (Option.or_none).symm
  | accept url payload signature => rfl
  | load workflow => rfl
  | register id => rfl
  | withdraw id => rfl
  | close id since closing => rfl
  | run id r => rfl

/-- A record is opened once. -/
theorem Account.id_after_of_some {a : Account} {r : Request} (h : a.May r) {id : String}
    (hid : a.id = some id) (answer : r.Answer) : (a.after r answer).id = some id := by
  cases r with
  | start workflow input triggeredBy =>
    obtain rfl : a = .initial := h
    cases hid
  | accept url payload signature => exact hid
  | load workflow => exact hid
  | register id => exact hid
  | withdraw id => exact hid
  | close id since closing => exact hid
  | run id r => exact hid

/-- Before there is a record, an execution only reads and tries to open one. -/
theorem Account.after_initial {r : Request} (h : Account.initial.May r) {answer : r.Answer}
    (ho : r.opens answer = none) : Account.initial.after r answer = .initial := by
  cases r with
  | accept url payload signature => rfl
  | load workflow => rfl
  | start workflow input triggeredBy =>
    show { Account.initial with id := (answer : Except Fault String).toOption } = _
    rw [show (answer : Except Fault String).toOption = none from ho]
    rfl
  | register id => cases h.1
  | withdraw id => cases h.1
  | close id since closing => cases h.1
  | run id r => cases h.1

/-- An answer that is not the fault of a cancelled run. -/
def Request.Fair : (r : Request) → r.Answer → Prop
  | .accept _ _ _, answer | .start _ _ _, answer => Uncancelled (answer : Except Fault String)
  | .run _ r, answer => r.Fair answer
  | .load _, _ | .register _, _ | .withdraw _, _ | .close _ _ _, _ => True

/-- One record, and one closing of it. -/
def conduct : Contract surroundings Account where
  may := Account.May
  fair := fun _ r answer => r.Fair answer
  next := Account.after

/-- What an account tells of the report. Success needs a closing in time. A fault other than a
cancellation is recorded, in time or not. A cancelled execution was told so, or came too late to be
completed. -/
def Account.Tells (a : Account) : Except Fault Report → Prop
  | .ok report => a.reachable = false ∧ a.id = some report.id ∧
      ∃ log, a.closing = some (.completed report.output log, true)
  | .error .cancelled => a.reachable = false ∧ a.id.isSome = true ∧
      (a.leave.told = true ∧ a.closing = none ∨
        ∃ output log, a.closing = some (.completed output log, false))
  | .error fault => a = .initial ∨ a.reachable = false ∧ a.id.isSome = true ∧
      ∃ log inTime, a.closing = some (.failed fault.recorded log, inTime)

theorem Account.tells_fault {a : Account} {fault : Fault} (h : fault ≠ .cancelled) :
    a.Tells (.error fault) ↔ a = .initial ∨ a.reachable = false ∧ a.id.isSome = true ∧
      ∃ log inTime, a.closing = some (.failed fault.recorded log, inTime) := by
  unfold Tells
  split
  · simp_all
  · simp_all
  · rename_i heq
    obtain rfl := Except.error.inj heq
    exact Iff.rfl

/-- The account of an execution that runs its steps. -/
structure Account.Runs (a : Account) (id : String) : Prop where
  id_eq : a.id = some id
  reachable : a.reachable = true
  closing : a.closing = none

theorem Account.Runs.after_run {a : Account} {id : String} (h : a.Runs id) (r : Run.Request)
    (answer : r.Answer) : (a.after (.run id r) answer).Runs id :=
  ⟨h.id_eq, h.reachable, h.closing⟩

/-- The run of the steps keeps to the conduct, as the discipline of a run demands. -/
theorem keeps_runSteps (rules : Rules) (id : String) (tree : StepTree) (input : Value)
    {a : Account} (ha : a.Runs id) :
    (runSteps rules id tree input).Keeps conduct
      (fun a' out => a'.Runs id ∧ (out.1 = .error .cancelled → a'.leave.told = true)) a := by
  refine Program.Keeps.lift Account.leave (fun t => t.Runs id) ?_ ?_ ?_ ha
    (Run.keeps_runTree tree rules.limit _ a.leave)
  · exact fun t r ht hr => ⟨ht.id_eq, ht.reachable, ht.closing, hr⟩
  · exact fun t r answer _ hf => hf
  · exact fun t r answer ht => ⟨ht.after_run r answer, rfl⟩

/-- The closing of a failed execution. -/
theorem conclude_fault (rules : Rules) (id : String) (since : Instant) {fault : Fault}
    (h : fault ≠ .cancelled) (context : Run.Context) :
    conclude rules id since (.error fault) context =
      .ask (.close id since
        (.failed fault.recorded (if rules.keepLogs then context.log else []))) fun _ =>
          .ask (.withdraw id) fun _ => .done (.error fault) := by
  unfold conclude
  split
  · simp_all
  · rename_i heq
    obtain rfl := Except.error.inj heq
    rfl
  · simp_all

/-- The end of an execution reports what its closing has come to. -/
theorem keeps_conclude (rules : Rules) (id : String) (since : Instant) (outcome : Except Fault Unit)
    (context : Run.Context) {a : Account} (ha : a.Runs id)
    (hc : outcome = .error .cancelled → a.leave.told = true) :
    (conclude rules id since outcome context).Keeps conduct Account.Tells a := by
  have hid : a.id.isSome = true := by
    rw [ha.id_eq]
    rfl
  have hopen : ∀ output log inTime, a.closing ≠ some (.completed output log, inTime) := by
    simp [ha.closing]
  obtain fault | ⟨⟩ := outcome
  · by_cases hf : fault = .cancelled
    · subst hf
      exact ⟨⟨ha.id_eq, ha.reachable, hopen⟩, fun _ _ => ⟨rfl, hid, .inl ⟨hc rfl, ha.closing⟩⟩⟩
    · rw [conclude_fault rules id since hf]
      refine ⟨⟨ha.id_eq, ha.closing, by simp [ha.reachable, Closing.status]⟩, fun inTime _ => ?_⟩
      refine ⟨⟨ha.id_eq, ha.reachable, by rintro output log late ⟨⟩⟩, fun _ _ => ?_⟩
      exact (Account.tells_fault hf).mpr (.inr ⟨rfl, hid, _, inTime, rfl⟩)
  · refine ⟨⟨ha.id_eq, ha.reachable, ha.closing, nofun⟩, fun (cancelled : Bool) _ => ?_⟩
    refine ⟨⟨ha.id_eq, ha.reachable, hopen⟩, fun _ _ => ?_⟩
    cases cancelled with
    | true => exact ⟨rfl, hid, .inl ⟨Bool.or_true _, ha.closing⟩⟩
    | false =>
      refine ⟨⟨ha.id_eq, ha.closing, by simp [conduct, Account.after, Closing.status]⟩,
        fun (inTime : Bool) _ => ?_⟩
      cases inTime with
      | true => exact ⟨rfl, ha.id_eq, context.log, rfl⟩
      | false => exact ⟨rfl, hid, .inr ⟨context.vars, context.log, rfl⟩⟩

/-- An execution keeps to the conduct, whatever it is answered. -/
theorem keeps_execute (rules : Rules) (workflow : String) (input : Value)
    (triggeredBy : Option String) :
    (execute rules workflow input triggeredBy).Keeps conduct Account.Tells .initial := by
  rw [execute_eq]
  refine ⟨rfl, fun (found : Option Workflow.Stored) _ => ?_⟩
  show (afterLoad rules workflow input triggeredBy found).Keeps conduct Account.Tells .initial
  have hfound := uncancelled_planned found
  unfold afterLoad
  cases hplan : planned found with
  | error fault =>
    rw [hplan, uncancelled_error] at hfound
    exact (Account.tells_fault hfound).mpr (.inl rfl)
  | ok tree =>
    refine ⟨rfl, fun (started : Except Fault String) (hstarted : Uncancelled started) => ?_⟩
    cases started with
    | error fault =>
      exact (Account.tells_fault ((uncancelled_error fault).mp hstarted)).mpr (.inl rfl)
    | ok id =>
      refine ⟨⟨rfl, rfl, rfl, rfl⟩, fun _ _ => ⟨⟨rfl, rfl, rfl, nofun⟩, fun since _ => ?_⟩⟩
      refine (Program.keeps_bind _ _ _).mpr ((keeps_runSteps rules id tree input ?_).mono ?_)
      · exact ⟨rfl, rfl, rfl⟩
      · rintro a ⟨outcome, context⟩ ⟨ha, hc⟩
        exact keeps_conclude rules id since outcome context ha hc

end Stepwise.Execution
