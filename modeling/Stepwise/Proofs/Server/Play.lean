import Mathlib.Data.List.Basic
import Mathlib.Tactic.Common
import Stepwise.Proofs.Execution.Requests
import Stepwise.Proofs.Execution.Response

/-!
# A server that is used

What a server is asked to do comes in any order, and the executions that it has begun go on between
any two operations, each by one request at a time. A call that an execution sends is answered in a
move of its own, so an execution can stay suspended at it, as it can at a delay, for as long as
other operations take.
-/

namespace Stepwise

open Store

/-- The columns of a trigger that its use keeps up to date or that it is found by. -/
def Trigger.bookkept : List String := ["id", "url", "last_triggered", "trigger_count"]

/-- New values for columns of a trigger other than those. -/
structure Trigger.Change where
  data : Fields
  spares : ∀ name ∈ bookkept, data.get? (.text name) = none

/-- Something that a server is asked to do, or that happens to it. -/
inductive Operation
  | createWorkflow (draft : Workflow.Draft)
  | updateWorkflow (id : String) (changes : Workflow.Changes)
      (steps : Option (List Fields))
  | deleteWorkflow (id : String)
  | createTrigger (workspace workflow name creator : Option String)
  | changeTrigger (id : String) (change : Trigger.Change)
  | deleteTrigger (id : String)
  /-- An execution of a workflow begins. -/
  | execute (name : String) (controller : Controller) (workflow : String) (input : Value)
      (triggeredBy : Option String)
  /-- A call comes in, and is accepted or refused. -/
  | receive (name : String) (controller : Controller) (url : String) (payload : Value)
      (signature : Option String)
  /-- A call comes in whose payload is not JSON; its execution fails before it has a record. -/
  | receiveRaw (url : String) (signature : Option String)
  /-- A cancellation, from its check to its signal. -/
  | cancel (controller : Controller) (id : String)
  /-- One of the executions that have begun goes on. -/
  | proceed (n : Nat)
  /-- The answers that are held back are released. -/
  | release
  | tick (now : Instant)

namespace Server

/-- Answers the next request of an execution, if it is answered in this move. -/
def exchange (controller : Controller) :
    Server × Option Pending → (r : Execution.Request) →
      Option r.Answer × (Server × Option Pending)
  | (s, some pending), .run _ (.send _) => (some pending.outcome, (s, none))
  | (s, none), .run _ (.send call) =>
    let (entry, s) := s.send call
    (none, (s, some ⟨entry.outcome, !entry.held⟩))
  | (s, pending), request =>
    let (answer, s) := s.respond controller request
    (some answer, (s, pending))

/-- One move of an execution. -/
def move (s : Server) (b : Background) : Background × Server :=
  match b.program with
  | .done _ => (b, s)
  | .ask r next =>
    match exchange b.controller (s, b.pending) r with
    | (some answer, (s, pending)) => ({ b with program := next answer, pending }, s)
    | (none, (s, pending)) => ({ b with pending }, s)

/-- Lets the execution of a number make a move. -/
def proceed (s : Server) (n : Nat) : Server :=
  match s.background[n]? with
  | none => s
  | some b =>
    let (b, s) := s.move b
    { s with background := s.background.set n b }

/-- Takes an execution in that is to begin. -/
def enter (s : Server) (name : String) (controller : Controller)
    (e : Execution.Activity (Except Fault Execution.Report)) : Server :=
  { s with background := s.background ++ [⟨name, controller, e, none⟩] }

/-- One operation. A call that comes in is accepted or refused at once. -/
def step (s : Server) : Operation → Server
  | .createWorkflow draft => (s.transact (Workflow.create s.now draft)).2
  | .updateWorkflow id changes steps =>
    (s.transact (Workflow.update s.now id changes steps)).2
  | .deleteWorkflow id => (s.transact (Workflow.delete id)).2
  | .createTrigger workspace workflow name creator =>
    (s.transact (Trigger.create s.now workspace workflow name creator)).2
  | .changeTrigger id change => (s.transact (triggerTable.update s.now id change.data)).2
  | .deleteTrigger id => (s.transact (triggerTable.delete id)).2
  | .execute name controller workflow input triggeredBy =>
    s.enter name controller (Execution.execute s.rules workflow input triggeredBy)
  | .receive name controller url payload signature =>
    (s.enter name controller (Execution.executeInbound s.rules Trigger.sourceTag url payload
      signature)).proceed s.background.length
  | .receiveRaw url signature => (s.receiveRaw url signature).2
  | .cancel controller id => (s.cancel controller id).2
  | .proceed n => s.proceed n
  | .release => s.release.2
  | .tick now => { s with now }

/-- Operations one after the other. -/
def play (s : Server) (operations : List Operation) : Server := operations.foldl step s

@[simp] theorem play_nil (s : Server) : s.play [] = s := rfl

@[simp] theorem play_cons (s : Server) (op : Operation) (rest : List Operation) :
    s.play (op :: rest) = (s.step op).play rest := rfl

theorem play_append (s : Server) (operations later : List Operation) :
    s.play (operations ++ later) = (s.play operations).play later :=
  List.foldl_append

/-- What every operation preserves holds after all of them. -/
theorem play_induction {inv : Server → Prop} {s : Server} (h : inv s)
    (hstep : ∀ s op, inv s → inv (s.step op)) (operations : List Operation) :
    inv (s.play operations) := by
  induction operations generalizing s with
  | nil => exact h
  | cons op rest ih => exact ih (hstep s op h)

/-! ## What a move is -/

/-- The requests that are answered when they are made. -/
def IsPrompt : Execution.Request → Prop
  | .run _ (.send _) => False
  | _ => True

theorem send_of_not_prompt {r : Execution.Request} (h : ¬ IsPrompt r) :
    ∃ id call, r = .run id (.send call) := by
  unfold IsPrompt at h
  split at h
  · exact ⟨_, _, rfl⟩
  · exact absurd trivial h

theorem exchange_of_prompt (controller : Controller) (s : Server) (pending : Option Pending)
    {r : Execution.Request} (h : IsPrompt r) :
    exchange controller (s, pending) r =
      (some (s.respond controller r).1, ((s.respond controller r).2, pending)) := by
  cases r with
  | run id request =>
    cases request with
    | send call => exact h.elim
    | _ => cases pending <;> rfl
  | _ => cases pending <;> rfl

theorem move_of_prompt (s : Server) (name : String) (controller : Controller)
    {r : Execution.Request} {next : r.Answer → Execution.Activity (Except Fault Execution.Report)}
    (hr : IsPrompt r) (pending : Option Pending) :
    s.move ⟨name, controller, .ask r next, pending⟩ =
      (⟨name, controller, next (s.respond controller r).1, pending⟩,
        (s.respond controller r).2) := by
  simp only [move, exchange_of_prompt controller s pending hr]

/-- The server after a move of an execution is as it was, as the answer to a request leaves it, or
as the sending of a call leaves it. In the second case the execution goes on with the answer, in
the others it stays where it is, but for the answer of a call. -/
inductive Moved (s : Server) (b : Background) : Background × Server → Prop
  | ended {result : Except Fault Execution.Report} (h : b.program = .done result) :
      Moved s b (b, s)
  | answered {r : Execution.Request}
      {next : r.Answer → Execution.Activity (Except Fault Execution.Report)}
      (h : b.program = .ask r next) (hr : IsPrompt r) :
      Moved s b ({ b with program := next (s.respond b.controller r).1 },
        (s.respond b.controller r).2)
  | sent {id : String} {call : Outbound.Call}
      {next : Outbound.Outcome → Execution.Activity (Except Fault Execution.Report)}
      (h : b.program = .ask (.run id (.send call)) next) (pending : Pending) :
      Moved s b ({ b with pending := some pending }, (s.send call).2)
  | received {id : String} {call : Outbound.Call}
      {next : Outbound.Outcome → Execution.Activity (Except Fault Execution.Report)}
      (h : b.program = .ask (.run id (.send call)) next) (outcome : Outbound.Outcome) :
      Moved s b ({ b with program := next outcome, pending := none }, s)

theorem moved_move (s : Server) (b : Background) : Moved s b (s.move b) := by
  obtain ⟨name, controller, program, pending⟩ := b
  cases program with
  | done result => exact .ended rfl
  | ask r next =>
    by_cases hr : IsPrompt r
    · rw [move_of_prompt s name controller hr]
      exact .answered (b := ⟨name, controller, .ask r next, pending⟩) rfl hr
    · obtain ⟨id, call, rfl⟩ := send_of_not_prompt hr
      cases pending with
      | none => exact .sent rfl _
      | some pending => exact .received rfl pending.outcome

/-- A move keeps to the requests that the execution may make. -/
theorem Moved.asksOnly {s : Server} {b : Background} {out : Background × Server}
    {allowed : Execution.Request → Prop} (h : Moved s b out) (hb : b.program.AsksOnly allowed) :
    out.1.program.AsksOnly allowed := by
  cases h with
  | ended _ => exact hb
  | answered hp _ =>
    rw [hp] at hb
    exact ((Program.asksOnly_ask _ _).mp hb).2 _
  | sent _ _ => exact hb
  | received hp outcome =>
    rw [hp] at hb
    exact ((Program.asksOnly_ask (I := Execution.surroundings) _ _).mp hb).2 outcome

/-! ## What stays as it is -/

@[simp] theorem signal_background (s : Server) (controller : Controller) (id : String) :
    (s.signal controller id).background = s.background := by
  unfold signal
  split_ifs
  · rfl
  · rfl

@[simp] theorem signal_rules (s : Server) (controller : Controller) (id : String) :
    (s.signal controller id).rules = s.rules := by
  unfold signal
  split_ifs
  · rfl
  · rfl

/-- The answer to a request changes neither the rules nor the other executions. -/
theorem respond_frame (s : Server) (controller : Controller) (r : Execution.Request) :
    (s.respond controller r).2.rules = s.rules ∧
      (s.respond controller r).2.background = s.background := by
  cases r with
  | run id request => cases request <;> exact ⟨rfl, rfl⟩
  | _ => exact ⟨rfl, rfl⟩

theorem move_frame (s : Server) (b : Background) :
    (s.move b).2.rules = s.rules ∧ (s.move b).2.background = s.background := by
  have h := moved_move s b
  generalize s.move b = out at h
  cases h with
  | ended _ => exact ⟨rfl, rfl⟩
  | answered _ _ => exact s.respond_frame _ _
  | sent _ _ => exact ⟨rfl, rfl⟩
  | received _ _ => exact ⟨rfl, rfl⟩

theorem cancel_frame (s : Server) (controller : Controller) (id : String) :
    (s.cancel controller id).2.rules = s.rules ∧
      (s.cancel controller id).2.background = s.background := by
  unfold cancel
  split
  · exact ⟨rfl, rfl⟩
  · simp

/-- An execution that fails to be recorded leaves all but the database as it is. -/
theorem executeRaw_eq (s : Server) (workflow : String) :
    (s.executeRaw workflow).2 = { s with db := (s.executeRaw workflow).2.db } := by
  unfold executeRaw
  split
  · rfl
  · split_ifs
    · rfl
    · split
      · rfl
      · rfl

theorem receiveRaw_eq (s : Server) (url : String) (signature : Option String) :
    (s.receiveRaw url signature).2 = { s with db := (s.receiveRaw url signature).2.db } := by
  unfold receiveRaw transact
  obtain ⟨r, db⟩ := s.db.transact (Trigger.accept s.now url none signature)
  cases r with
  | error fault => rfl
  | ok workflow => exact executeRaw_eq { s with db } workflow

/-! ## What an operation is -/

/-- Where there is an execution of the number, the move is its own. -/
theorem proceed_of_some {s : Server} {n : Nat} {b : Background} (h : s.background[n]? = some b) :
    s.proceed n = { (s.move b).2 with background := s.background.set n (s.move b).1 } := by
  rw [proceed, h]
  show { (s.move b).2 with background := (s.move b).2.background.set n (s.move b).1 } = _
  rw [(s.move_frame b).2]

theorem proceed_of_none {s : Server} {n : Nat} (h : s.background[n]? = none) :
    s.proceed n = s := by
  rw [proceed, h]

/-- A call that comes in is counted or not, and leaves an execution or its refusal behind. -/
theorem step_receive (s : Server) (name : String) (controller : Controller) (url : String)
    (payload : Value) (signature : Option String) :
    s.step (.receive name controller url payload signature) =
      { (s.transact (Trigger.accept s.now url payload signature)).2 with
        background := s.background ++ [⟨name, controller, Execution.afterAccept s.rules
          Trigger.sourceTag payload (s.transact (Trigger.accept s.now url payload signature)).1,
          none⟩] } := by
  have hlast : (s.enter name controller (Execution.executeInbound s.rules Trigger.sourceTag url
      payload signature)).background[s.background.length]? = some ⟨name, controller,
        Execution.executeInbound s.rules Trigger.sourceTag url payload signature, none⟩ := by
    simp [enter]
  rw [step, proceed_of_some hlast, Execution.executeInbound_eq]
  simp [move, exchange, enter, respond, transact]

theorem rules_step (s : Server) (op : Operation) : (s.step op).rules = s.rules := by
  cases op with
  | receive name controller url payload signature =>
    rw [step_receive]
    rfl
  | receiveRaw url signature =>
    show (s.receiveRaw url signature).2.rules = s.rules
    rw [receiveRaw_eq]
  | cancel controller id => exact (s.cancel_frame controller id).1
  | proceed n =>
    show (s.proceed n).rules = s.rules
    cases h : s.background[n]? with
    | none => rw [proceed_of_none h]
    | some b =>
      rw [proceed_of_some h]
      exact (s.move_frame b).1
  | _ => rfl

theorem rules_play (s : Server) (operations : List Operation) :
    (s.play operations).rules = s.rules := by
  induction operations generalizing s with
  | nil => rfl
  | cons op rest ih => rw [play_cons, ih, rules_step]

/-- What holds of the executions that begin, and of an execution after each of its moves, holds of
all executions after an operation. -/
theorem forall_program_step {p : Execution.Activity (Except Fault Execution.Report) → Prop}
    {s : Server} (h : ∀ b ∈ s.background, p b.program)
    (hmove : ∀ b, p b.program → p (s.move b).1.program) (hdone : ∀ result, p (.done result))
    (hexecute : ∀ workflow input triggeredBy,
      p (Execution.execute s.rules workflow input triggeredBy)) (op : Operation) :
    ∀ b ∈ (s.step op).background, p b.program := by
  have happend {e : Background} (he : p e.program) : ∀ b ∈ s.background ++ [e], p b.program :=
    List.forall_mem_append.mpr ⟨h, List.forall_mem_singleton.mpr he⟩
  cases op with
  | execute name controller workflow input triggeredBy =>
    exact happend (hexecute workflow input triggeredBy)
  | receive name controller url payload signature =>
    rw [step_receive]
    refine happend ?_
    cases (s.transact (Trigger.accept s.now url payload signature)).1 with
    | error fault => exact hdone _
    | ok workflow => exact hexecute _ _ _
  | receiveRaw url signature =>
    show ∀ b ∈ (s.receiveRaw url signature).2.background, p b.program
    rw [receiveRaw_eq]
    exact h
  | cancel controller id =>
    show ∀ b ∈ (s.cancel controller id).2.background, p b.program
    rw [(s.cancel_frame controller id).2]
    exact h
  | proceed n =>
    show ∀ b ∈ (s.proceed n).background, p b.program
    cases hb : s.background[n]? with
    | none =>
      rw [proceed_of_none hb]
      exact h
    | some b =>
      rw [proceed_of_some hb]
      intro e he
      obtain hmem | rfl := List.mem_or_eq_of_mem_set he
      · exact h e hmem
      · exact hmove b (h b (List.mem_of_getElem? hb))
  | release =>
    intro e he
    obtain ⟨b, hb, rfl⟩ := List.mem_map.mp he
    exact h b hb
  | _ => exact h

end Server

end Stepwise
