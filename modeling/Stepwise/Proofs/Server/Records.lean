import Stepwise.Proofs.Number.Digits
import Stepwise.Proofs.Server.Tables

/-!
# The records that an execution makes

Ids are drawn from the supply and never given back, so a record that was not there before shows by
its id, and it was made in a move of one execution. An execution makes none before it has looked its
workflow up, at most one in the move after that, and none from then on.
-/

namespace Stepwise

open Store

namespace Store.Supply

/-- An id of a row that was drawn. -/
def Drawn (supply : Supply) (id : String) : Prop := ∃ k < supply.row, id = "r-" ++ toString k

theorem not_drawn_next (supply : Supply) : ¬ supply.Drawn ("r-" ++ toString supply.row) := by
  rintro ⟨k, hk, hid⟩
  exact absurd (Decimal.append_toString_inj "r-" hid) (Nat.ne_of_gt hk)

theorem Drawn.mono {supply supply' : Supply} {id : String} (h : supply.Drawn id)
    (hs : supply.row ≤ supply'.row) : supply'.Drawn id := by
  obtain ⟨k, hk, hid⟩ := h
  exact ⟨k, Nat.lt_of_lt_of_le hk hs, hid⟩

theorem drawn_of_succ {supply supply' : Supply} (h : supply'.row = supply.row + 1) :
    supply'.Drawn ("r-" ++ toString supply.row) := ⟨supply.row, by omega, rfl⟩

end Store.Supply

namespace Operation

/-- The operation is a move of the execution of a number. -/
def moves (n : Nat) : Operation → Bool
  | .proceed m => m == n
  | _ => false

theorem eq_proceed_of_moves {n : Nat} {op : Operation} (h : op.moves n = true) :
    op = .proceed n := by
  cases op with
  | proceed m => rw [beq_iff_eq.mp h]
  | _ => cases h

theorem moves_of_not_mem {n : Nat} {operations : List Operation}
    (h : .proceed n ∉ operations) : ∀ op ∈ operations, op.moves n = false := by
  intro op hop
  by_contra hmove
  exact h (eq_proceed_of_moves (by simpa using hmove) ▸ hop)

theorem moves_proceed (n : Nat) : (proceed n).moves n = true := beq_iff_eq.mpr rfl

end Operation

namespace Server

open Execution

variable {s s' : Server}

/-- The ids of the records. -/
def recordIds (s : Server) : List String := s.db.tables.executions.map (·.id)

/-! ## Where ids come from -/

/-- Only where an execution starts, records come or go. -/
theorem recordIds_respond (s : Server) (controller : Controller) {r : Execution.Request}
    (h : ∀ workflow input triggeredBy, r ≠ .start workflow input triggeredBy) :
    (s.respond controller r).2.recordIds = s.recordIds := by
  cases r with
  | accept url payload signature =>
    exact congrArg (List.map (·.id)) (congrArg Tables.executions
      (Database.transact_spares (Trigger.spares_accept s.now url payload signature) s.db).2 :)
  | start workflow input triggeredBy => exact absurd rfl (h workflow input triggeredBy)
  | close id since closing =>
    refine ids_map (fun row => ?_) s.db.tables.executions
    split_ifs
    · exact closing.write_id since s.now row
    · rfl
  | run id r => exact congrArg (List.map (·.id)) (s.respondRun_spec id r).1
  | _ => rfl

/-- An execution whose input cannot be written gets no record. -/
theorem respond_start_of_long (controller : Controller) {workflow : String} {input : Value}
    (hinput : ¬ Json.isShort input = true) {triggeredBy : Option String} :
    s.respond controller (.start workflow input triggeredBy) =
      (.error (.longInt true), { s with db :=
        { s.db with supply := { s.db.supply with row := s.db.supply.row + 1 } } }) := by
  show s.transact (Execution.start s.now workflow input triggeredBy) = _
  unfold transact Database.transact
  rw [start_eq, if_pos (by simp [hinput])]

/-- The ids of all records were drawn. -/
def Numbered (s : Server) : Prop := ∀ id ∈ s.recordIds, s.db.supply.Drawn id

namespace Numbered

theorem of_subset (h : s.Numbered) (hs : s.db.supply.Before s'.db.supply)
    (hids : s'.recordIds ⊆ s.recordIds) : s'.Numbered :=
  fun id hid => (h id (hids hid)).mono hs.row

/-- An execution whose input can be written gets a record when it starts. -/
theorem start (h : s.Numbered) (controller : Controller) (workflow : String) {input : Value}
    (hinput : Json.isShort input = true) (triggeredBy : Option String) :
    s.respond controller (.start workflow input triggeredBy) =
      (.ok ("r-" ++ toString s.db.supply.row), { s with db :=
        { tables := { s.db.tables with
            executions := s.db.tables.executions ++ [opening s.now workflow input triggeredBy
              ("r-" ++ toString s.db.supply.row)] }
          supply := { s.db.supply with row := s.db.supply.row + 1 } } }) := by
  have hnone : ¬ (find? s.db.tables ("r-" ++ toString s.db.supply.row)).isSome = true := by
    intro hsome
    obtain ⟨row, hrow, hid⟩ := List.find?_isSome.mp hsome
    refine s.db.supply.not_drawn_next ?_
    rw [← beq_iff_eq.mp hid]
    exact h row.id (List.mem_map_of_mem hrow)
  show s.transact (Execution.start s.now workflow input triggeredBy) = _
  unfold transact Database.transact
  rw [start_eq, if_neg (by simp [hinput]), if_neg hnone]

theorem respond (h : s.Numbered) (controller : Controller) (r : Execution.Request) :
    (s.respond controller r).2.Numbered := by
  by_cases hr : ∃ workflow input triggeredBy, r = .start workflow input triggeredBy
  · obtain ⟨workflow, input, triggeredBy, rfl⟩ := hr
    by_cases hinput : Json.isShort input = true
    · rw [h.start controller workflow hinput triggeredBy]
      intro id hid
      change id ∈ (s.db.tables.executions ++ [_]).map ExecutionRow.id at hid
      rw [List.map_append] at hid
      obtain hold | hnew := List.mem_append.mp hid
      · exact (h id hold).mono (Nat.le_succ _)
      · rw [List.mem_singleton.mp hnew]
        exact Supply.drawn_of_succ rfl
    · refine h.of_subset (s.supply_respond controller _) ?_
      rw [recordIds, respond_start_of_long controller hinput]
      exact List.Subset.refl _
  · have hne : ∀ workflow input triggeredBy, r ≠ .start workflow input triggeredBy :=
      fun workflow input triggeredBy heq => hr ⟨workflow, input, triggeredBy, heq⟩
    refine h.of_subset (s.supply_respond controller r) ?_
    rw [recordIds_respond s controller hne]
    exact List.Subset.refl _

theorem move (h : s.Numbered) (b : Background) : (s.move b).2.Numbered := by
  have hmoved := moved_move s b
  generalize s.move b = out at hmoved
  cases hmoved with
  | ended _ => exact h
  | answered _ _ => exact h.respond _ _
  | sent _ _ => exact h
  | received _ _ => exact h

theorem step (h : s.Numbered) (op : Operation) : (s.step op).Numbered := by
  by_cases hleaves : LeavesRecords op
  · refine h.of_subset (s.supply_step op) ?_
    rw [recordIds, executions_step hleaves]
    exact List.Subset.refl _
  · cases op with
    | deleteWorkflow id =>
      refine h.of_subset (s.supply_step _) (List.map_subset _ ?_)
      show (s.db.transact (Workflow.delete id)).2.tables.executions ⊆ _
      unfold Database.transact
      rw [delete_eq]
      split_ifs
      · exact List.Subset.refl _
      · exact List.filter_subset_self _
    | cancel controller id =>
      refine h.of_subset (s.supply_step _) ?_
      have hids : (s.cancel controller id).2.recordIds = s.recordIds := by
        unfold cancel
        split
        · rfl
        · rw [recordIds, signal_db]
          refine ids_map (fun row => ?_) s.db.tables.executions
          split_ifs
          · rfl
          · rfl
      exact hids ▸ List.Subset.refl _
    | proceed n =>
      show (s.proceed n).Numbered
      cases hb : s.background[n]? with
      | none =>
        rw [proceed_of_none hb]
        exact h
      | some b =>
        rw [proceed_of_some hb]
        exact h.move b
    | _ => exact absurd trivial hleaves

end Numbered

theorem numbered_fresh (rules : Rules) (script : List Outbound.Scripted) :
    (fresh rules script).Numbered := List.forall_mem_nil _

/-! ## One execution among others -/

/-- What is left of the execution of a number. -/
def programAt (s : Server) (n : Nat) : Option (Activity (Except Fault Report)) :=
  s.background[n]?.map (·.program)

theorem programAt_enter (s : Server) (name : String) (controller : Controller)
    (e : Activity (Except Fault Report)) :
    (s.enter name controller e).programAt s.background.length = some e := by
  simp [programAt, enter]

theorem programAt_append {n : Nat} {p : Activity (Except Fault Report)}
    (h : s.programAt n = some p) {b : Background} (hs : s'.background = s.background ++ [b]) :
    s'.programAt n = some p := by
  obtain ⟨e, he, hp⟩ := Option.map_eq_some_iff.mp h
  obtain ⟨hn, _⟩ := List.getElem?_eq_some_iff.mp he
  rw [programAt, hs, List.getElem?_append_left hn, he, Option.map_some, hp]

/-- The other operations do not move it. -/
theorem programAt_step {n : Nat} {p : Activity (Except Fault Report)}
    (h : s.programAt n = some p) {op : Operation} (hop : op.moves n = false) :
    (s.step op).programAt n = some p := by
  cases op with
  | execute name controller workflow input triggeredBy => exact programAt_append h rfl
  | receive name controller url payload signature =>
    exact programAt_append h (by rw [step_receive])
  | cancel controller id =>
    show (s.cancel controller id).2.programAt n = _
    rw [programAt, (s.cancel_frame controller id).2]
    exact h
  | proceed m =>
    have hne : m ≠ n := by simpa [Operation.moves] using hop
    show (s.proceed m).programAt n = _
    cases hb : s.background[m]? with
    | none =>
      rw [proceed_of_none hb]
      exact h
    | some b =>
      rw [proceed_of_some hb, programAt, List.getElem?_set_ne hne]
      exact h
  | receiveRaw url signature =>
    show ((s.receiveRaw url signature).2).programAt n = some p
    rw [receiveRaw_eq]
    exact h
  | release =>
    show Option.map _ (s.background.map _)[n]? = _
    rw [List.getElem?_map, Option.map_map]
    exact h
  | _ => exact h

/-- A request that is answered when it is made is answered in the move of its execution. -/
theorem proceed_of_prompt {n : Nat} {r : Execution.Request}
    {next : r.Answer → Activity (Except Fault Report)} (h : s.programAt n = some (.ask r next))
    (hr : IsPrompt r) : ∃ controller,
      (s.proceed n).programAt n = some (next (s.respond controller r).1) ∧
        (s.proceed n).db = (s.respond controller r).2.db := by
  obtain ⟨⟨name, controller, program, pending⟩, hb, rfl⟩ := Option.map_eq_some_iff.mp h
  obtain ⟨hn, _⟩ := List.getElem?_eq_some_iff.mp hb
  rw [proceed_of_some hb, move_of_prompt s name controller hr]
  refine ⟨controller, ?_, rfl⟩
  rw [programAt, List.getElem?_set_self hn]
  rfl

/-- After its start an execution opens no record. -/
theorem proceed_of_late {n : Nat} {p : Activity (Except Fault Report)} {keepLogs : Bool}
    (h : s.programAt n = some p) (hp : p.AsksOnly (Request.IsLate keepLogs)) :
    (∃ p', (s.proceed n).programAt n = some p' ∧ p'.AsksOnly (Request.IsLate keepLogs)) ∧
      (s.proceed n).recordIds = s.recordIds := by
  obtain ⟨b, hb, rfl⟩ := Option.map_eq_some_iff.mp h
  obtain ⟨hn, _⟩ := List.getElem?_eq_some_iff.mp hb
  rw [proceed_of_some hb]
  have hmoved := moved_move s b
  refine ⟨⟨(s.move b).1.program, ?_, hmoved.asksOnly hp⟩, ?_⟩
  · rw [programAt, List.getElem?_set_self hn]
    rfl
  · show (s.move b).2.recordIds = s.recordIds
    generalize s.move b = out at hmoved
    cases hmoved with
    | ended _ => rfl
    | answered hask _ =>
      rw [hask] at hp
      refine recordIds_respond s b.controller fun workflow input triggeredBy hstart => ?_
      subst hstart
      exact ((Program.asksOnly_ask _ _).mp hp).1
    | sent _ _ => rfl
    | received _ _ => rfl

/-! ## New records -/

/-- The records that were not there before. -/
def newRecords (s s' : Server) : List ExecutionRow :=
  s'.db.tables.executions.filter (·.id ∉ s.recordIds)

theorem newRecords_of_ids (h : s'.recordIds = s.recordIds) : s.newRecords s' = [] := by
  refine List.filter_eq_nil_iff.mpr fun row hrow => ?_
  have hmem : row.id ∈ s'.recordIds := List.mem_map_of_mem hrow
  simpa [h] using hmem

theorem newRecords_of_append {row : ExecutionRow}
    (h : s'.db.tables.executions = s.db.tables.executions ++ [row]) (hr : row.id ∉ s.recordIds) :
    s.newRecords s' = [row] := by
  have hold : s.db.tables.executions.filter (·.id ∉ s.recordIds) = [] := newRecords_of_ids rfl
  rw [newRecords, h, List.filter_append, hold, List.nil_append]
  simp [hr]

/-- The records that an execution makes during some operations. -/
def recordsBy (n : Nat) : Server → List Operation → List ExecutionRow
  | _, [] => []
  | s, op :: rest =>
    (if op.moves n then s.newRecords (s.step op) else []) ++ recordsBy n (s.step op) rest

theorem recordsBy_proceed (n : Nat) (s : Server) (rest : List Operation) :
    recordsBy n s (.proceed n :: rest) =
      s.newRecords (s.proceed n) ++ recordsBy n (s.proceed n) rest := by
  rw [recordsBy, if_pos (Operation.moves_proceed n)]
  rfl

/-- An execution that does not move makes no record. -/
theorem recordsBy_of_still {n : Nat} {operations : List Operation}
    (h : ∀ op ∈ operations, op.moves n = false) (later : List Operation) :
    recordsBy n s (operations ++ later) = recordsBy n (s.play operations) later := by
  induction operations generalizing s with
  | nil => rfl
  | cons op rest ih =>
    obtain ⟨hop, hrest⟩ := List.forall_mem_cons.mp h
    rw [List.cons_append, recordsBy, hop, ih hrest]
    rfl

theorem programAt_play {n : Nat} {p : Activity (Except Fault Report)}
    (h : s.programAt n = some p) {operations : List Operation}
    (hs : ∀ op ∈ operations, op.moves n = false) :
    (s.play operations).programAt n = some p := by
  induction operations generalizing s with
  | nil => exact h
  | cons op rest ih =>
    obtain ⟨hop, hrest⟩ := List.forall_mem_cons.mp hs
    exact ih (programAt_step h hop) hrest

/-- After its start an execution makes no record. -/
theorem recordsBy_of_late {n : Nat} {p : Activity (Except Fault Report)} {keepLogs : Bool}
    (h : s.programAt n = some p) (hp : p.AsksOnly (Request.IsLate keepLogs))
    (operations : List Operation) : recordsBy n s operations = [] := by
  induction operations generalizing s p with
  | nil => rfl
  | cons op rest ih =>
    by_cases hop : op.moves n = true
    · obtain rfl := Operation.eq_proceed_of_moves hop
      obtain ⟨⟨p', hp', hlate⟩, hids⟩ := proceed_of_late h hp
      rw [recordsBy_proceed, ih hp' hlate, List.append_nil]
      exact newRecords_of_ids hids
    · rw [recordsBy, if_neg hop]
      exact ih (programAt_step h (by simpa using hop)) hp

/-- An execution that is about to start makes one record, in its next move, if its input can be
written, and none otherwise. -/
theorem recordsBy_of_start {n : Nat} {workflow : String} {input : Value}
    {triggeredBy : Option String}
    {next : Except Fault String → Activity (Except Fault Report)} {keepLogs : Bool}
    (hs : s.Numbered)
    (h : s.programAt n = some (.ask (.start workflow input triggeredBy) next))
    (hnext : ∀ started, (next started).AsksOnly (Request.IsLate keepLogs))
    (operations : List Operation) :
    (Json.isShort input = true → .proceed n ∈ operations →
      ∃ row, recordsBy n s operations = [row] ∧ row.workflow = workflow ∧
        row.input = Json.settle input ∧ row.triggeredBy = triggeredBy) ∧
    (¬ Json.isShort input = true → recordsBy n s operations = []) := by
  by_cases hmoves : .proceed n ∈ operations
  · obtain ⟨before, after, rfl, hbefore⟩ := List.eq_append_cons_of_mem hmoves
    have hstill := Operation.moves_of_not_mem hbefore
    have hnumbered : (s.play before).Numbered := play_induction hs (fun _ op h => h.step op) before
    obtain ⟨controller, hprogram, hdb⟩ := proceed_of_prompt (programAt_play h hstill) trivial
    rw [recordsBy_of_still hstill, recordsBy_proceed, recordsBy_of_late hprogram (hnext _),
      List.append_nil]
    constructor
    · intro hinput _
      rw [hnumbered.start controller workflow hinput triggeredBy] at hdb
      refine ⟨opening (s.play before).now workflow input triggeredBy
        ("r-" ++ toString (s.play before).db.supply.row), ?_, rfl, rfl, rfl⟩
      refine newRecords_of_append (congrArg (·.tables.executions) hdb) fun hmem => ?_
      exact Supply.not_drawn_next _ (hnumbered _ hmem)
    · intro hinput
      rw [respond_start_of_long controller hinput] at hdb
      exact newRecords_of_ids (congrArg (fun db => db.tables.executions.map ExecutionRow.id) hdb)
  · refine ⟨fun _ h => absurd h hmoves, fun _ => ?_⟩
    simpa [recordsBy] using recordsBy_of_still (s := s) (Operation.moves_of_not_mem hmoves) []

/-- There is a workflow of the id, it is active, and its steps can be read. -/
def IsReady (s : Server) (workflow : String) : Prop :=
  ∃ stored, Workflow.get? s.db.tables workflow = some stored ∧ stored.row.active = true ∧
    ∃ tree, treeOf stored = .ok tree

theorem isReady_iff {workflow : String} :
    s.IsReady workflow ↔ ∃ tree, planned (Workflow.get? s.db.tables workflow) = .ok tree := by
  simp only [planned_eq_ok_iff]
  constructor
  · rintro ⟨stored, hstored, hactive, tree, htree⟩
    exact ⟨tree, stored, hstored, hactive, htree⟩
  · rintro ⟨tree, stored, hstored, hactive, htree⟩
    exact ⟨stored, hstored, hactive, tree, htree⟩

/-- An execution makes one record, once it has gone on after its look-up, if its workflow is ready
when it looks it up and its input can be written, and none otherwise. -/
theorem recordsBy_of_execute {n : Nat} {rules : Rules} {workflow : String} {input : Value}
    {triggeredBy : Option String} (hs : s.Numbered)
    (h : s.programAt n = some (execute rules workflow input triggeredBy))
    (operations : List Operation) :
    (s.IsReady workflow → Json.isShort input = true → .proceed n ∈ operations →
      ∃ row, recordsBy n s (.proceed n :: operations) = [row] ∧ row.workflow = workflow ∧
        row.input = Json.settle input ∧ row.triggeredBy = triggeredBy) ∧
    (¬ (s.IsReady workflow ∧ Json.isShort input = true) →
      recordsBy n s (.proceed n :: operations) = []) := by
  rw [execute_eq] at h
  obtain ⟨controller, hprogram, hdb⟩ := proceed_of_prompt h trivial
  have hnone : s.newRecords (s.proceed n) = [] :=
    newRecords_of_ids (congrArg (fun db => db.tables.executions.map ExecutionRow.id) hdb)
  rw [recordsBy_proceed, hnone, List.nil_append]
  change (s.proceed n).programAt n =
    some (afterLoad rules workflow input triggeredBy (Workflow.get? s.db.tables workflow))
    at hprogram
  rw [isReady_iff]
  unfold afterLoad at hprogram
  cases hplan : planned (Workflow.get? s.db.tables workflow) with
  | error fault =>
    rw [hplan] at hprogram
    have hlate : Program.AsksOnly (.done (.error fault) : Activity (Except Fault Report))
      (Request.IsLate false) := trivial
    refine ⟨?_, fun _ => recordsBy_of_late hprogram hlate operations⟩
    rintro ⟨tree, htree⟩
    cases htree
  | ok tree =>
    rw [hplan] at hprogram
    obtain ⟨hone, hno⟩ := recordsBy_of_start (hs.step (.proceed n)) hprogram
      (late_afterStart rules _ input) operations
    exact ⟨fun _ => hone, fun h => hno fun hinput => h ⟨⟨tree, rfl⟩, hinput⟩⟩

end Server

end Stepwise
