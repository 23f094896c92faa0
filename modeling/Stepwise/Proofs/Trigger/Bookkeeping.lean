import Stepwise.Proofs.Execution.WellFormed
import Stepwise.Proofs.Server.Records
import Stepwise.Proofs.Trigger.Changes

/-!
# The books of triggers

The number of calls and the time of the last one that are kept with a trigger are those of the calls
that it has accepted, whatever else a server is asked to do between them and whatever becomes of the
executions that they start. A call that is refused changes nothing. One that is accepted makes one
record if its payload can be written and its workflow is there, active and readable when it is
looked up, and none otherwise. A payload that is not JSON is counted too, but makes no record.
-/

namespace Stepwise

open Store

namespace Trigger

/-- The triggers show the calls that they have accepted, and those to come will too. -/
structure Kept (supply : Supply) (rows : List TriggerRow) (times : String → List Instant) :
    Prop where
  distinct : Distinct rows
  drawn : ∀ row ∈ rows, supply.Drawn row.id
  exact : ∀ row ∈ rows,
    row.count = (times row.id).length ∧ row.lastTriggered = (times row.id).getLast?
  unused : ∀ id, ¬ supply.Drawn id → times id = []

namespace Kept

variable {supply supply' : Supply} {rows rows' : List TriggerRow} {times : String → List Instant}

theorem of_books (h : Kept supply rows times) (hs : supply.row ≤ supply'.row)
    (hb : rows'.map bookOf = rows.map bookOf) : Kept supply' rows' times := by
  have hsame : ∀ row' ∈ rows', ∃ row ∈ rows, bookOf row = bookOf row' := fun row' hrow' =>
    List.mem_map.mp (hb ▸ List.mem_map_of_mem hrow')
  refine ⟨h.distinct.of_books hb, fun row' hrow' => ?_, fun row' hrow' => ?_, fun id hid => ?_⟩
  · obtain ⟨row, hrow, hbook⟩ := hsame row' hrow'
    have hid : row.id = row'.id := congrArg Book.id hbook
    exact hid ▸ (h.drawn row hrow).mono hs
  · obtain ⟨row, hrow, hbook⟩ := hsame row' hrow'
    have hid : row.id = row'.id := congrArg Book.id hbook
    have hcount : row.count = row'.count := congrArg Book.count hbook
    have hlast : row.lastTriggered = row'.lastTriggered := congrArg Book.last hbook
    rw [← hid, ← hcount, ← hlast]
    exact h.exact row hrow
  · exact h.unused id fun hdrawn => hid (hdrawn.mono hs)

theorem sublist (h : Kept supply rows times) (hs : supply.row ≤ supply'.row)
    (hrows : rows'.Sublist rows) : Kept supply' rows' times :=
  ⟨h.distinct.sublist hrows, fun row hrow => (h.drawn row (hrows.subset hrow)).mono hs,
    fun row hrow => h.exact row (hrows.subset hrow),
    fun id hid => h.unused id fun hdrawn => hid (hdrawn.mono hs)⟩

/-- Nothing was ever counted for the id of a new trigger. -/
theorem append (h : Kept supply rows times) (hs : supply'.row = supply.row + 1)
    {row : TriggerRow} (hid : row.id = "r-" ++ toString supply.row)
    (hnew : ∀ old ∈ rows, old.id ≠ row.id ∧ old.url ≠ row.url) (hcount : row.count = 0)
    (hlast : row.lastTriggered = none) : Kept supply' (rows ++ [row]) times := by
  have hle : supply.row ≤ supply'.row := by omega
  refine ⟨h.distinct.append hnew, List.forall_mem_append.mpr ⟨fun old hold => ?_, ?_⟩,
    List.forall_mem_append.mpr ⟨h.exact, ?_⟩, fun id hid' => ?_⟩
  · exact (h.drawn old hold).mono hle
  · exact List.forall_mem_singleton.mpr (hid ▸ Supply.drawn_of_succ hs)
  · have hnone : times row.id = [] := h.unused row.id (hid ▸ supply.not_drawn_next)
    refine List.forall_mem_singleton.mpr ?_
    rw [hcount, hlast, hnone]
    exact ⟨rfl, rfl⟩
  · exact h.unused id fun hdrawn => hid' (hdrawn.mono hle)

/-- A call that is counted is the last one. -/
theorem count (h : Kept supply rows times) {row : TriggerRow} (hr : row ∈ rows) (now : Instant) :
    Kept supply
      (rows.map fun old => if old.id == row.id then
        { old with count := old.count + 1, lastTriggered := some now, updated := now } else old)
      fun id => times id ++ (if id = row.id then some now else none).toList := by
  refine ⟨h.distinct.map fun old => ?_, List.forall_mem_map.mpr fun old hold => ?_,
    List.forall_mem_map.mpr fun old hold => ?_, fun id hid => ?_⟩
  · split_ifs
    · exact ⟨rfl, rfl⟩
    · exact ⟨rfl, rfl⟩
  · split_ifs
    · exact h.drawn old hold
    · exact h.drawn old hold
  · obtain ⟨hcount, hlast⟩ := h.exact old hold
    by_cases hid : old.id = row.id
    · simp [hid, hcount]
    · simp [hid, hcount, hlast]
  · have hne : id ≠ row.id := fun heq => hid (heq ▸ h.drawn row hr)
    rw [if_neg hne, Option.toList_none, List.append_nil]
    exact h.unused id hid

end Kept

end Trigger

namespace Server

open Trigger

variable {s : Server}

/-- The time at which the trigger of an id accepts a call, if the operation is such a call. -/
def acceptedAt (s : Server) (id : String) : Operation → Option Instant
  | .receive _ _ url payload signature =>
    if Accepts s.db.tables.triggers id url (some payload) signature then some s.now else none
  | .receiveRaw url signature =>
    if Accepts s.db.tables.triggers id url none signature then some s.now else none
  | _ => none

/-- The times at which the trigger of an id accepts a call during some operations. -/
def acceptedTimes (id : String) : Server → List Operation → List Instant
  | _, [] => []
  | s, op :: rest => (s.acceptedAt id op).toList ++ acceptedTimes id (s.step op) rest

/-- What is kept with the triggers of a server shows the calls accepted at some times. -/
def Keeps (s : Server) (times : String → List Instant) : Prop :=
  Kept s.db.supply s.db.tables.triggers times

/-! ## One call -/

/-- A call is accepted by the one trigger at its address. -/
theorem accepts_iff_of_welcomes (hd : Distinct s.db.tables.triggers) {row : TriggerRow}
    (hr : row ∈ s.db.tables.triggers) {payload : Option Value} {signature : Option String}
    (hw : Welcomes row payload signature) {id : String} :
    Accepts s.db.tables.triggers id row.url payload signature ↔ id = row.id := by
  constructor
  · exact fun ha => ha.id_eq hd hr
  · rintro rfl
    exact ⟨row, hr, rfl, rfl, hw⟩

/-- A call that no trigger accepts changes nothing, and no execution begins. -/
theorem step_of_refused {url : String} {payload : Value} {signature : Option String}
    (h : ∀ id, ¬ Accepts s.db.tables.triggers id url (some payload) signature) (name : String)
    (controller : Controller) : ∃ fault, Refuses s.db.tables.triggers url (some payload) fault ∧
      s.step (.receive name controller url payload signature) =
        { s with
          background := s.background ++ [⟨name, controller, .done (.error fault), none⟩] } := by
  obtain ⟨fault, hfault, hrefused⟩ := transact_accept_of_refused s.db s.now h
  refine ⟨fault, hfault, ?_⟩
  rw [step_receive, transact, hrefused]
  rfl

/-- A call that is accepted is counted, and an execution of the workflow of its trigger begins. -/
theorem step_of_accepted (hd : Distinct s.db.tables.triggers) {row : TriggerRow}
    (hr : row ∈ s.db.tables.triggers) {payload : Value} {signature : Option String}
    (hw : Welcomes row (some payload) signature) (name : String) (controller : Controller) :
    s.step (.receive name controller row.url payload signature) =
      { s with
        db := { s.db with tables := count s.now row.id s.db.tables }
        background := s.background ++ [⟨name, controller,
          Execution.execute s.rules row.workflow payload (some sourceTag), none⟩] } := by
  rw [step_receive, transact, transact_accept s.db s.now hd hr hw]
  rfl

theorem receiveRaw_of_refused {url : String} {signature : Option String}
    (h : ∀ id, ¬ Accepts s.db.tables.triggers id url none signature) :
    ∃ fault, Refuses s.db.tables.triggers url none fault ∧
      s.receiveRaw url signature = (fault, s) := by
  obtain ⟨fault, hfault, hrefused⟩ := transact_accept_of_refused s.db s.now h
  refine ⟨fault, hfault, ?_⟩
  rw [receiveRaw, transact, hrefused]

/-- A call whose payload is not JSON is counted if it is accepted, and nothing else comes of it. -/
theorem receiveRaw_of_accepted (hd : Distinct s.db.tables.triggers) {row : TriggerRow}
    (hr : row ∈ s.db.tables.triggers) {signature : Option String}
    (hw : Welcomes row none signature) : ∃ fault supply, s.receiveRaw row.url signature =
      (fault, { s with db := { tables := count s.now row.id s.db.tables, supply } }) := by
  have htables : (s.receiveRaw row.url signature).2.db.tables = count s.now row.id s.db.tables := by
    rw [(s.receiveRaw_spares row.url signature).2, transact_accept s.db s.now hd hr hw]
  refine ⟨_, (s.receiveRaw row.url signature).2.db.supply, Prod.ext rfl ?_⟩
  refine (s.receiveRaw_eq row.url signature).trans ?_
  rw [← htables]

/-! ## All operations -/

theorem Keeps.create {times : String → List Instant} (h : s.Keeps times)
    (workspace workflow name creator : Option String) :
    (s.step (.createTrigger workspace workflow name creator)).Keeps times := by
  have hsupply := (s.supply_step (.createTrigger workspace workflow name creator)).row
  have hcases := create_cases s.now workspace workflow name creator s.db.tables s.db.supply
  change s.db.supply.row ≤ (s.db.transact _).2.supply.row at hsupply
  change Kept (s.db.transact _).2.supply (s.db.transact _).2.tables.triggers times
  unfold Database.transact at hsupply ⊢
  generalize Trigger.create s.now workspace workflow name creator s.db.tables s.db.supply = out
    at hcases hsupply ⊢
  obtain ⟨fault, hfault⟩ | ⟨row, supply', rfl, hid, hnext, hnew, hcount, hlast⟩ := hcases
  · obtain ⟨r, supply'⟩ := out
    obtain rfl : r = .error fault := hfault
    exact h.of_books hsupply rfl
  · exact h.append hnext hid hnew hcount hlast

/-- A trigger that welcomes a call counts it, at the time of the call. -/
theorem Keeps.count {times : String → List Instant} (h : s.Keeps times) {row : TriggerRow}
    (hr : row ∈ s.db.tables.triggers) {payload : Option Value} {signature : Option String}
    (hw : Welcomes row payload signature) :
    Kept s.db.supply (Trigger.count s.now row.id s.db.tables).triggers fun id => times id ++
      (if Accepts s.db.tables.triggers id row.url payload signature then some s.now
        else none).toList := by
  simp only [accepts_iff_of_welcomes h.distinct hr hw]
  exact Kept.count h hr s.now

theorem Keeps.receive {times : String → List Instant} (h : s.Keeps times) (name : String)
    (controller : Controller) (url : String) (payload : Value) (signature : Option String) :
    (s.step (.receive name controller url payload signature)).Keeps fun id => times id ++
      (s.acceptedAt id (.receive name controller url payload signature)).toList := by
  by_cases haccepts : ∃ id, Accepts s.db.tables.triggers id url (some payload) signature
  · obtain ⟨_, row, hr, rfl, rfl, hw⟩ := haccepts
    rw [step_of_accepted h.distinct hr hw]
    exact h.count hr hw
  · have hnone (id : String) : ¬ Accepts s.db.tables.triggers id url (some payload) signature :=
      fun ha => haccepts ⟨id, ha⟩
    obtain ⟨fault, _, hstep⟩ := step_of_refused hnone name controller
    rw [hstep]
    simp only [acceptedAt, if_neg (hnone _), Option.toList_none, List.append_nil]
    exact h

theorem Keeps.receiveRaw {times : String → List Instant} (h : s.Keeps times) (url : String)
    (signature : Option String) :
    (s.step (.receiveRaw url signature)).Keeps fun id => times id ++
      (s.acceptedAt id (.receiveRaw url signature)).toList := by
  show (s.receiveRaw url signature).2.Keeps _
  by_cases haccepts : ∃ id, Accepts s.db.tables.triggers id url none signature
  · obtain ⟨_, row, hr, rfl, rfl, hw⟩ := haccepts
    have hsupply := (s.receiveRaw_spares row.url signature).1.row
    obtain ⟨fault, supply, hcounted⟩ := receiveRaw_of_accepted h.distinct hr hw
    rw [hcounted] at hsupply ⊢
    exact (h.count hr hw).of_books hsupply rfl
  · have hnone (id : String) : ¬ Accepts s.db.tables.triggers id url none signature :=
      fun ha => haccepts ⟨id, ha⟩
    obtain ⟨fault, _, hsame⟩ := receiveRaw_of_refused hnone
    rw [hsame]
    simp only [acceptedAt, if_neg (hnone _), Option.toList_none, List.append_nil]
    exact h

theorem Keeps.step {times : String → List Instant} (h : s.Keeps times) (hs : s.Sound)
    (op : Operation) : (s.step op).Keeps fun id => times id ++ (s.acceptedAt id op).toList := by
  have hsupply : s.db.supply.row ≤ (s.step op).db.supply.row :=
    (s.supply_step op).row
  by_cases hleaves : LeavesTriggers op
  · have hnone (id : String) : s.acceptedAt id op = none := by
      cases op with
      | receive name controller url payload signature => exact hleaves.elim
      | receiveRaw url signature => exact hleaves.elim
      | _ => rfl
    simp only [hnone, Option.toList_none, List.append_nil]
    exact h.of_books hsupply (congrArg _ (triggers_step hs.upright hleaves))
  · cases op with
    | createTrigger workspace workflow name creator =>
      simp only [acceptedAt, Option.toList_none, List.append_nil]
      exact h.create workspace workflow name creator
    | changeTrigger id change =>
      simp only [acceptedAt, Option.toList_none, List.append_nil]
      exact h.of_books hsupply (books_change s.db s.now id change)
    | deleteTrigger id =>
      simp only [acceptedAt, Option.toList_none, List.append_nil]
      exact h.sublist hsupply (triggers_delete s.db id)
    | receive name controller url payload signature =>
      exact h.receive name controller url payload signature
    | receiveRaw url signature => exact h.receiveRaw url signature
    | _ => exact absurd trivial hleaves

theorem Keeps.play {times : String → List Instant} (h : s.Keeps times) (hs : s.Sound)
    (operations : List Operation) :
    (s.play operations).Keeps fun id => times id ++ acceptedTimes id s operations := by
  induction operations generalizing s times with
  | nil => simpa [acceptedTimes] using h
  | cons op rest ih =>
    have hrest := ih (h.step hs op) (hs.step op)
    simpa only [acceptedTimes, List.append_assoc, play_cons] using hrest

theorem keeps_fresh (rules : Execution.Rules) (script : List Outbound.Scripted) :
    (fresh rules script).Keeps fun _ => [] :=
  ⟨⟨List.nodup_nil, List.nodup_nil⟩, List.forall_mem_nil _, List.forall_mem_nil _, fun _ _ => rfl⟩

/-- However long the execution of a number waits for its look-up, and whatever comes after: if its
input can be written, and the workflow is there and active and its steps can be read when it is
looked up, the execution makes one record as soon as it goes on, and otherwise none. -/
def RecordsOnce (s : Server) (n : Nat) (workflow : String) (input : Value)
    (triggeredBy : Option String) : Prop :=
  ∀ before after, (∀ op ∈ before, op.moves n = false) →
    ((s.play before).IsReady workflow → Json.isShort input = true → .proceed n ∈ after →
      ∃ record, recordsBy n s (before ++ .proceed n :: after) = [record] ∧
        record.workflow = workflow ∧ record.input = Json.settle input ∧
        record.triggeredBy = triggeredBy) ∧
    (¬ ((s.play before).IsReady workflow ∧ Json.isShort input = true) →
      recordsBy n s (before ++ .proceed n :: after) = [])

theorem recordsOnce_of_execute (h : s.Numbered) {n : Nat} {rules : Execution.Rules}
    {workflow : String} {input : Value} {triggeredBy : Option String}
    (hp : s.programAt n = some (Execution.execute rules workflow input triggeredBy)) :
    s.RecordsOnce n workflow input triggeredBy := by
  intro before after hstill
  have hbefore : (s.play before).Numbered := play_induction h (fun _ op h => h.step op) before
  rw [recordsBy_of_still hstill]
  exact recordsBy_of_execute hbefore (programAt_play hp hstill) after

/-- Whatever a server is asked to do, and however its executions take turns: every trigger shows the
number of the calls that it has accepted and the time of the last one. A call that no trigger
accepts leaves the server as it is, but for its refusal. One that a trigger accepts is counted and
sends nothing, and the execution that it begins makes one record if its payload can be written and
the workflow is there and active and its steps can be read when it is looked up, and none otherwise.
A call whose payload is not JSON is counted in the same way if it is accepted, but nothing else
comes of it. -/
theorem calls_booked_exactly (rules : Execution.Rules) (script : List Outbound.Scripted)
    (operations : List Operation) :
    let s := (fresh rules script).play operations
    (∀ row ∈ s.db.tables.triggers,
      row.count = (acceptedTimes row.id (fresh rules script) operations).length ∧
        row.lastTriggered = (acceptedTimes row.id (fresh rules script) operations).getLast?) ∧
    (∀ name controller url payload signature,
      let called := s.step (.receive name controller url payload signature)
      ((∀ id, ¬ Accepts s.db.tables.triggers id url (some payload) signature) →
        ∃ fault, Refuses s.db.tables.triggers url (some payload) fault ∧ called = { s with
          background := s.background ++ [⟨name, controller, .done (.error fault), none⟩] }) ∧
      ∀ row ∈ s.db.tables.triggers, row.url = url → Welcomes row (some payload) signature →
        called = { s with
          db := { s.db with tables := count s.now row.id s.db.tables }
          background := s.background ++ [⟨name, controller,
            Execution.execute s.rules row.workflow payload (some sourceTag), none⟩] } ∧
        called.RecordsOnce s.background.length row.workflow payload (some sourceTag)) ∧
    ∀ url signature,
      ((∀ id, ¬ Accepts s.db.tables.triggers id url none signature) →
        ∃ fault, Refuses s.db.tables.triggers url none fault ∧
          s.receiveRaw url signature = (fault, s)) ∧
      ∀ row ∈ s.db.tables.triggers, row.url = url → Welcomes row none signature →
        ∃ fault supply, s.receiveRaw url signature =
          (fault, { s with db := { tables := count s.now row.id s.db.tables, supply } }) := by
  intro s
  have hkeeps : s.Keeps fun id => acceptedTimes id (fresh rules script) operations :=
    (keeps_fresh rules script).play (sound_fresh rules script) operations
  have hnumbered : s.Numbered :=
    play_induction (numbered_fresh rules script) (fun _ op h => h.step op) operations
  refine ⟨hkeeps.exact, fun name controller url payload signature => ?_, fun url signature =>
    ⟨receiveRaw_of_refused, ?_⟩⟩
  · intro called
    refine ⟨fun hnone => step_of_refused hnone name controller, ?_⟩
    rintro row hr rfl hw
    have hcalled := step_of_accepted hkeeps.distinct hr hw name controller
    have hprogram : called.programAt s.background.length =
        some (Execution.execute s.rules row.workflow payload (some sourceTag)) := by
      change (s.step _).programAt _ = _
      rw [hcalled]
      exact programAt_enter _ name controller _
    exact ⟨hcalled, recordsOnce_of_execute (hnumbered.step _) hprogram⟩
  · rintro row hr rfl hw
    exact receiveRaw_of_accepted hkeeps.distinct hr hw

/-- A workflow with some steps, a trigger of it, and a call of the trigger. -/
def calling (steps : List Fields) (call : Operation) : List Operation :=
  [.createWorkflow
    { workspace := some "home", name := some "greet", description := none, icon := none
      color := none, trigger := .null, creator := none, steps },
    .createTrigger (some "home") (some "u-1") (some "door") none, .tick ⟨7⟩, call]

/-- An unsigned call of the trigger. -/
def callingOnce : List Operation :=
  calling [] (.receive "first" .main (Signature.address 1) .null none)

/-- The call is counted. One to another address is refused, a second one to the same address makes a
record if the workflow stays, and one whose payload is not JSON is counted, too. -/
theorem books_of_callingOnce : let s := (fresh ⟨false, 5⟩ []).play callingOnce
    ∃ row, s.db.tables.triggers = [row] ∧ row.count = 1 ∧ row.lastTriggered = some ⟨7⟩ ∧
      (∃ fault, Refuses s.db.tables.triggers "elsewhere" (some .null) fault ∧
        s.step (.receive "second" .main "elsewhere" .null none) = { s with
          background := s.background ++ [⟨"second", .main, .done (.error fault), none⟩] }) ∧
      (∃ record, recordsBy 1 (s.step (.receive "second" .main row.url .null none))
        [.proceed 1, .tick ⟨8⟩, .proceed 1] = [record] ∧ record.workflow = "u-1") ∧
      (s.receiveRaw row.url (some "")).2.db.tables.triggers.map (·.count) = [2] := by
  intro s
  have hshape : s.db.tables.triggers.map (fun row => (row.id, row.url, row.workflow, row.active)) =
      [("r-1", Signature.address 1, "u-1", true)] := by
    decide +kernel
  have htimes : acceptedTimes "r-1" (fresh ⟨false, 5⟩ []) callingOnce = [⟨7⟩] := by decide +kernel
  have hready : s.IsReady "u-1" := by
    have hsome : (Execution.planned (Workflow.get? s.db.tables "u-1")).toOption.isSome = true := by
      decide +kernel
    rw [isReady_iff]
    cases hplan : Execution.planned (Workflow.get? s.db.tables "u-1") with
    | error fault =>
      rw [hplan] at hsome
      cases hsome
    | ok tree => exact ⟨tree, rfl⟩
  obtain ⟨row, hrows, hrow⟩ := List.map_eq_singleton_iff.mp hshape
  simp only [Prod.mk.injEq] at hrow
  obtain ⟨hid, hurl, hto, hactive⟩ := hrow
  have hmem : row ∈ s.db.tables.triggers := hrows ▸ List.mem_singleton_self row
  obtain ⟨hbooks, hcalls, hraw⟩ := calls_booked_exactly ⟨false, 5⟩ [] callingOnce
  obtain ⟨hcount, hlast⟩ := hbooks row hmem
  rw [hid, htimes] at hcount hlast
  obtain ⟨hcalled, honce⟩ := (hcalls "second" .main row.url .null none).2 row hmem rfl
    ⟨hactive, .inl rfl⟩
  refine ⟨row, hrows, hcount, hlast, (hcalls "second" .main "elsewhere" .null none).1 ?_, ?_, ?_⟩
  · rintro id ⟨other, hother, -, helsewhere, -⟩
    change other ∈ s.db.tables.triggers at hother
    rw [hrows, List.mem_singleton] at hother
    rw [hother, hurl] at helsewhere
    revert helsewhere
    decide +kernel
  · have hlength : s.background.length = 1 := by decide +kernel
    change RecordsOnce _ s.background.length row.workflow .null (some sourceTag) at honce
    rw [hto, hlength, hcalled] at honce
    obtain ⟨record, hrecord, hof, -, -⟩ := (honce [] [.tick ⟨8⟩, .proceed 1]
      (List.forall_mem_nil _)).1 hready rfl (List.mem_of_getElem? (i := 1) rfl)
    rw [← hcalled] at hrecord
    exact ⟨record, hrecord, hof⟩
  · obtain ⟨fault, supply, hcounted⟩ := (hraw row.url (some "")).2 row hmem rfl
      ⟨hactive, .inr (.inl rfl)⟩
    change s.receiveRaw row.url (some "") = _ at hcounted
    rw [hcounted]
    show (count s.now row.id s.db.tables).triggers.map (·.count) = [2]
    simp only [count, hrows, List.map_cons, List.map_nil, beq_self_eq_true, if_true, hcount]
    rfl

/-- A call is accepted and its workflow is there and active, but no record is made: the first
workflow has a step whose configuration is a number, and the payload of the second call is not
JSON. -/
theorem accepted_without_record :
    let step : Fields := [(.text "name", .text "odd"), (.text "type", .text StepKind.delay.name),
      (.text "config", .int 5)]
    let odd := (fresh ⟨false, 5⟩ []).play
      (calling [step] (.receive "first" .main (Signature.address 1) .null none) ++
        [.proceed 0, .proceed 0])
    let raw := (fresh ⟨false, 5⟩ []).play (calling [] (.receiveRaw (Signature.address 1) none))
    (odd.result? "first").isSome = true ∧ ∀ s ∈ [odd, raw],
      s.db.tables.triggers.map (·.count) = [1] ∧
      (Workflow.get? s.db.tables "u-1").map (·.row.active) = some true ∧
      s.db.tables.executions.length = 0 := by
  decide +kernel

end Server

end Stepwise
