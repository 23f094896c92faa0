import Stepwise.Proofs.Run.BrokenLog
import Stepwise.Proofs.Step.Config

/-!
# What an execution asks, in its order

A call that is accepted leads to an execution, which looks its workflow up, records itself, and then
only runs its steps and closes its record. So there is one moment at which it can open a record, and
what it closes the record with is what a run has come to.
-/

namespace Stepwise.Execution

open Store

/-- What is left of an execution once its record was opened, or could not be. -/
def afterStart (rules : Rules) (tree : StepTree) (input : Value) :
    Except Fault String → Activity (Except Fault Report)
  | .error fault => .done (.error fault)
  | .ok id => .ask (.register id) fun _ => .ask (.run id .now) fun since =>
    (runSteps rules id tree input).bind fun out => conclude rules id since out.1 out.2

/-- The tree that an execution goes through, once its workflow was looked up: the workflow must be
there and active, and its steps must be readable. -/
def planned : Option Workflow.Stored → Except Fault StepTree
  | none => .error .workflowInactive
  | some stored => if stored.row.active then treeOf stored else .error .workflowInactive

theorem planned_eq_ok_iff {found : Option Workflow.Stored} {tree : StepTree} :
    planned found = .ok tree ↔
      ∃ stored, found = some stored ∧ stored.row.active = true ∧ treeOf stored = .ok tree := by
  cases found with
  | none => simp [planned]
  | some stored => by_cases hactive : stored.row.active <;> simp [planned, hactive]

theorem uncancelled_planned (found : Option Workflow.Stored) : Uncancelled (planned found) := by
  cases found with
  | none => simp [planned]
  | some stored =>
    unfold planned
    dsimp only
    split_ifs
    · exact uncancelled_treeOf stored
    · simp

/-- What is left of an execution once its workflow was looked up. -/
def afterLoad (rules : Rules) (workflow : String) (input : Value) (triggeredBy : Option String)
    (found : Option Workflow.Stored) : Activity (Except Fault Report) :=
  match planned found with
  | .error fault => .done (.error fault)
  | .ok tree => .ask (.start workflow input triggeredBy) (afterStart rules tree input)

/-- What is left of an inbound call once it was accepted or refused. -/
def afterAccept (rules : Rules) (tag : String) (payload : Value) :
    Except Fault String → Activity (Except Fault Report)
  | .error fault => .done (.error fault)
  | .ok workflow => execute rules workflow payload (some tag)

theorem execute_eq (rules : Rules) (workflow : String) (input : Value)
    (triggeredBy : Option String) :
    execute rules workflow input triggeredBy =
      .ask (.load workflow) (afterLoad rules workflow input triggeredBy) := by
  refine congrArg (@Program.ask surroundings _ (.load workflow)) ?_
  funext (found : Option Workflow.Stored)
  unfold afterLoad planned
  cases found with
  | none => rfl
  | some stored =>
    show (if (!stored.row.active) = true then _ else _) = _
    dsimp only
    cases stored.row.active with
    | false => rfl
    | true =>
      rw [if_neg (by decide), if_pos rfl]
      cases treeOf stored with
      | error fault => rfl
      | ok tree =>
        refine congrArg (@Program.ask surroundings _ (.start workflow input triggeredBy)) ?_
        funext (started : Except Fault String)
        cases started with
        | error fault => rfl
        | ok id => rfl

theorem executeInbound_eq (rules : Rules) (tag url : String) (payload : Value)
    (signature : Option String) :
    executeInbound rules tag url payload signature =
      .ask (.accept url payload signature) (afterAccept rules tag payload) := by
  refine congrArg (@Program.ask surroundings _ (.accept url payload signature)) ?_
  funext (accepted : Except Fault String)
  cases accepted with
  | error fault => rfl
  | ok workflow => rfl

/-! ## What a record is closed with -/

/-- What is recorded of a run that has ended: whole blocks of a completed one, and an error of a
failed one, with a log only if logs are kept. -/
def Closing.Proper (keepLogs : Bool) : Closing → Prop
  | .completed _ log => Run.Blocks log
  | .failed error log => error ≠ "" ∧ (keepLogs = false → log = [])

/-- A run that has a result has a log of whole blocks, however it is answered. -/
theorem ends_runTree (tree : StepTree) (limit : Int) (input : Value) :
    (Run.runTree tree limit ⟨input, [], []⟩).Ends fun out =>
      out.1 = .ok () → Run.Blocks out.2.log := by
  refine Program.ends_of_run (fun r => (Run.Simulation.respond Run.idle r).1) fun script hok => ?_
  let respond := Program.scripted (I := Run.surroundings)
    fun r => (Run.Simulation.respond Run.idle r).1
  let out := Program.run (I := Run.surroundings) respond
    (Run.runTree tree limit ⟨input, [], []⟩) script
  have hyields : Run.Yields respond
      (Run.Stage.forEach (Run.runAt tree limit 0) tree.roots) ⟨⟨input, [], []⟩, script⟩ ()
      ⟨out.1.2, out.2⟩ := Prod.ext (Prod.ext hok rfl) rfl
  obtain ⟨word, hword⟩ :=
    Run.word_of_forEach (fun step m m' => Run.word_of_runNested limit _) hyields
  have hlog := hword.log_eq
  rw [List.nil_append] at hlog
  show Run.Blocks out.1.2.log
  rw [hlog]
  exact hword.blocks

/-! ## Which requests come when -/

/-- The requests of an execution that has a record: they open no other, and close it properly. -/
def Request.IsLate (keepLogs : Bool) : Request → Prop
  | .accept _ _ _ | .load _ | .start _ _ _ => False
  | .close _ _ closing => closing.Proper keepLogs
  | .register _ | .withdraw _ | .run _ _ => True

/-- The requests of an execution from its beginning: they accept no call. -/
def Request.IsUpright (keepLogs : Bool) : Request → Prop
  | .accept _ _ _ => False
  | .close _ _ closing => closing.Proper keepLogs
  | .load _ | .start _ _ _ | .register _ | .withdraw _ | .run _ _ => True

theorem Request.IsLate.upright {keepLogs : Bool} {r : Request} (h : r.IsLate keepLogs) :
    r.IsUpright keepLogs := by
  cases r with
  | accept url payload signature => exact h.elim
  | load workflow => exact h.elim
  | start workflow input triggeredBy => exact h.elim
  | close id since closing => exact h
  | register id => trivial
  | withdraw id => trivial
  | run id r => trivial

theorem late_conclude (rules : Rules) (id : String) (since : Instant)
    (outcome : Except Fault Unit) (context : Run.Context)
    (h : outcome = .ok () → Run.Blocks context.log) :
    (conclude rules id since outcome context).AsksOnly (Request.IsLate rules.keepLogs) := by
  unfold conclude
  split
  · exact ⟨trivial, fun _ _ => trivial⟩
  · rename_i fault _
    refine ⟨⟨fault.recorded_ne_empty, fun hk => ?_⟩, fun _ _ => ⟨trivial, fun _ _ => trivial⟩⟩
    simp [hk]
  · refine ⟨trivial, fun (cancelled : Bool) _ => ⟨trivial, fun _ _ => ?_⟩⟩
    cases cancelled with
    | true => trivial
    | false => exact ⟨h rfl, fun _ _ => trivial⟩

theorem late_afterStart (rules : Rules) (tree : StepTree) (input : Value)
    (started : Except Fault String) :
    (afterStart rules tree input started).AsksOnly (Request.IsLate rules.keepLogs) := by
  cases started with
  | error fault => trivial
  | ok id =>
    refine ⟨trivial, fun _ _ => ⟨trivial, fun since _ => ?_⟩⟩
    have hsteps : (runSteps rules id tree input).AsksOnly (Request.IsLate rules.keepLogs) :=
      Program.asksOnly_lift (fun _ => trivial) _
    exact hsteps.bind_of_ends (ends_runTree tree rules.limit input).lift fun out hout =>
      late_conclude rules id since out.1 out.2 hout

theorem upright_execute (rules : Rules) (workflow : String) (input : Value)
    (triggeredBy : Option String) :
    (execute rules workflow input triggeredBy).AsksOnly (Request.IsUpright rules.keepLogs) := by
  rw [execute_eq]
  refine ⟨trivial, fun (found : Option Workflow.Stored) _ => ?_⟩
  show (afterLoad rules workflow input triggeredBy found).AsksOnly _
  unfold afterLoad
  split
  · trivial
  · exact ⟨trivial, fun started _ =>
      (late_afterStart rules _ input started).mono fun _ => Request.IsLate.upright⟩

end Stepwise.Execution
