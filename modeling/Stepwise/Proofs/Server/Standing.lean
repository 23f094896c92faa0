import Stepwise.Proofs.Execution.World
import Stepwise.Proofs.Server.Notifications

/-!
# What concerns one execution on a server

Executions share a server, but of all that it holds only a part concerns the execution of an id:
the record of that id, who reaches it, and whether it was signalled to. A request or a cancellation
changes that part for its own id by what the part was before, and for no other id. The id itself is
left out, since an execution gets another one when others draw ids before it.
-/

namespace Stepwise

open Store Execution

/-- What concerns the execution of an id, but for the id. -/
structure Standing where
  /-- The rows of its record. -/
  rows : List ExecutionRow
  /-- The controllers whose cancellations reach it. -/
  reachable : Controller → Bool
  /-- A cancellation was signalled to it. -/
  signalled : Bool

namespace Standing

/-- The standing of an id that was never used. -/
def unused : Standing := ⟨[], fun _ => false, false⟩

/-- The execution becomes reachable for a controller. -/
def enter (st : Standing) (controller : Controller) : Standing :=
  { st with reachable := fun c => st.reachable c || decide (c = controller) }

/-- The execution is no longer reachable for a controller. -/
def leave (st : Standing) (controller : Controller) : Standing :=
  { st with reachable := fun c => st.reachable c && !decide (c = controller) }

/-- The record is written. -/
def rewrite (st : Standing) (f : ExecutionRow → ExecutionRow) : Standing :=
  { st with rows := st.rows.map f }

/-- A cancellation signals, if it reaches the execution. -/
def alert (st : Standing) (controller : Controller) : Standing :=
  if st.reachable controller then { st with signalled := true } else st

end Standing

/-- A move of a cancellation leaves the server as it is, writes the record or signals. -/
theorem Execution.Cancel.server_next (c : Cancel) (id : String) (s : Server) :
    (c.next id s).2 = s ∨
      (c.next id s).2 = { s with db := { s.db with tables := commitCancel s.now id s.db.tables } } ∨
      (c.next id s).2 = s.signal c.controller id := by
  obtain ⟨controller, phase⟩ := c
  cases phase with
  | asked =>
    dsimp only [Cancel.next]
    split
    · exact .inl rfl
    · exact .inl rfl
  | checked =>
    dsimp only [Cancel.next]
    split_ifs
    · exact .inl rfl
    · exact .inr (.inl rfl)
  | committed => exact .inr (.inr rfl)
  | returned live => exact .inl rfl
  | refused fault => exact .inl rfl
  | lost => exact .inl rfl

/-- A signal changes nothing but who was signalled to. -/
theorem Server.signal_eq (s : Server) (controller : Controller) (id : String) :
    s.signal controller id = { s with signalled := (s.signal controller id).signalled } := by
  unfold Server.signal
  split_ifs
  · rfl
  · rfl

/-- A record without its id. -/
def Execution.unnamed (row : ExecutionRow) : ExecutionRow := { row with id := "" }

namespace Server

variable {s : Server} {id id' : String}

/-- What concerns the execution of an id on a server. -/
def standing (s : Server) (id : String) : Standing where
  rows := (rowsOf s.db.tables id).map unnamed
  reachable := fun controller => s.registered.contains (controller, id)
  signalled := s.signalled.contains id

/-- The record as it is found. -/
theorem head?_rows_standing (s : Server) (id : String) :
    (s.standing id).rows.head? = (find? s.db.tables id).map unnamed := by
  rw [find?_eq_head?]
  exact List.head?_map

/-- A write that does not look at the id changes what concerns the execution by what it was. -/
theorem map_unnamed_comm {f : ExecutionRow → ExecutionRow}
    (hf : ∀ row, unnamed (f row) = f (unnamed row)) (rows : List ExecutionRow) :
    (rows.map f).map unnamed = (rows.map unnamed).map f := by
  rw [List.map_map, List.map_map]
  exact List.map_congr_left fun row _ => hf row

/-! ## The requests of the execution itself -/

theorem standing_register (s : Server) (controller : Controller) (id : String) :
    (s.respond controller (.register id)).2.standing id = (s.standing id).enter controller := by
  simp [standing, Standing.enter, respond]

theorem standing_withdraw (s : Server) (controller : Controller) (id : String) :
    (s.respond controller (.withdraw id)).2.standing id = (s.standing id).leave controller := by
  simp [standing, Standing.leave, respond]

/-- The end of a run as it is written to a record that is still open. -/
def closeIfOpen (since now : Instant) (closing : Closing) (row : ExecutionRow) : ExecutionRow :=
  if isOpen row then closing.write since now row else row

theorem unnamed_closeIfOpen (since now : Instant) (closing : Closing) (row : ExecutionRow) :
    unnamed (closeIfOpen since now closing row) = closeIfOpen since now closing (unnamed row) := by
  unfold closeIfOpen
  rw [show isOpen (unnamed row) = isOpen row from rfl]
  split_ifs
  · cases closing with
    | completed output log => rfl
    | failed error log => rfl
  · rfl

theorem standing_close (s : Server) (controller : Controller) (id : String) (since : Instant)
    (closing : Closing) :
    (s.respond controller (.close id since closing)).2.standing id =
      (s.standing id).rewrite (closeIfOpen since s.now closing) := by
  have hrows : (rowsOf (close since s.now id closing s.db.tables).2 id).map unnamed =
      ((rowsOf s.db.tables id).map unnamed).map (closeIfOpen since s.now closing) := by
    rw [rowsOf_close]
    exact map_unnamed_comm (unnamed_closeIfOpen since s.now closing) _
  exact congrArg (fun rows => (⟨rows, _, _⟩ : Standing)) hrows

/-- Whether a record is closed in time depends on the record alone. -/
theorem closed_respond (s : Server) (controller : Controller) (id : String) (since : Instant)
    (closing : Closing) :
    (s.respond controller (.close id since closing)).1 = (s.standing id).rows.any isOpen := by
  show (close since s.now id closing s.db.tables).1 = _
  rw [fst_close]
  exact (List.any_map (f := unnamed) (p := isOpen)).symm

/-- What the steps of a run ask concerns the standing of no execution. -/
theorem standing_respondRun (s : Server) (id' : String) (r : Run.Request) (id : String) :
    (s.respondRun id' r).2.standing id = s.standing id := by
  obtain ⟨hexecutions, hregistered, hsignalled, _⟩ := s.respondRun_spec id' r
  unfold standing
  rw [rowsOf_congr hexecutions, hregistered, hsignalled]

/-! ## Cancellations -/

theorem standing_commitCancel (s : Server) (id : String) :
    ({ s with db := { s.db with tables := commitCancel s.now id s.db.tables } } : Server).standing
      id = (s.standing id).rewrite (cancelled s.now) := by
  have hrows : (rowsOf (commitCancel s.now id s.db.tables) id).map unnamed =
      ((rowsOf s.db.tables id).map unnamed).map (cancelled s.now) := by
    rw [rowsOf_commitCancel]
    exact map_unnamed_comm (f := cancelled s.now) (fun _ => rfl) _
  exact congrArg (fun rows => (⟨rows, _, _⟩ : Standing)) hrows

theorem standing_signal (s : Server) (controller : Controller) (id : String) :
    (s.signal controller id).standing id = (s.standing id).alert controller := by
  unfold signal Standing.alert
  rw [show (s.standing id).reachable controller = s.registered.contains (controller, id) from rfl]
  split_ifs
  · simp [standing]
  · rfl

/-! ## The requests of other executions, and their cancellations -/

/-- A write to the record of another id. -/
theorem rowsOf_map_of_ne {f : ExecutionRow → ExecutionRow} (hf : ∀ row, (f row).id = row.id)
    (hother : ∀ row, row.id = id → f row = row) (rows : List ExecutionRow) :
    (rows.map f).filter (·.id == id) = rows.filter (·.id == id) := by
  rw [filter_id_map hf, map_filter_id (g := fun row => row) hother]
  exact List.map_id _

theorem standing_of_rows {s' : Server} (hrows : rowsOf s'.db.tables id = rowsOf s.db.tables id)
    (hregistered : s'.registered = s.registered) (hsignalled : s'.signalled = s.signalled) :
    s'.standing id = s.standing id := by
  unfold standing
  rw [hrows, hregistered, hsignalled]

/-- What another execution asks does not concern an id that was drawn before and is not its own. -/
theorem standing_respond_of_ne {a : Account} {r : Execution.Request} (h : a.May r)
    (hs : s.Numbered) (hid : s.db.supply.Drawn id) (hne : a.id ≠ some id) :
    (s.respond .main r).2.standing id = s.standing id := by
  cases r with
  | accept url payload signature => exact h.elim
  | load workflow => rfl
  | start workflow input triggeredBy =>
    by_cases hinput : Json.isShort input = true
    · rw [hs.start .main workflow hinput]
      refine standing_of_rows ?_ rfl rfl
      have hnew : "r-" ++ toString s.db.supply.row ≠ id := by
        rintro rfl
        exact s.db.supply.not_drawn_next hid
      show (s.db.tables.executions ++ [opening s.now workflow input triggeredBy
        ("r-" ++ toString s.db.supply.row)]).filter (·.id == id) = _
      rw [List.filter_append, List.filter_cons_of_neg (by simpa [opening] using hnew)]
      exact List.append_nil _
    · rw [respond_start_of_long .main hinput]
      rfl
  | register id' =>
    have hother : id' ≠ id := fun heq => hne (heq ▸ h.1)
    simp [standing, respond, hother.symm]
  | withdraw id' =>
    have hother : id' ≠ id := fun heq => hne (heq ▸ h.1)
    simp [standing, respond, hother.symm]
  | close id' since closing =>
    have hother : id' ≠ id := fun heq => hne (heq ▸ h.1)
    refine standing_of_rows (rowsOf_map_of_ne (fun row => ?_) (fun row hrow => ?_) _) rfl rfl
    · split_ifs
      · exact closing.write_id since s.now row
      · rfl
    · rw [if_neg]
      simp [hrow, hother.symm]
  | run id' r => exact s.standing_respondRun id' r id

/-- The cancellation of another execution does not concern an id. -/
theorem standing_next_of_ne (c : Cancel) (s : Server) (hne : id' ≠ id) :
    (c.next id' s).2.standing id = s.standing id := by
  obtain heq | heq | heq := c.server_next id' s
  · rw [heq]
  · rw [heq]
    refine standing_of_rows (rowsOf_map_of_ne (fun row => ?_) (fun row hrow => ?_) _) rfl rfl
    · split_ifs
      · rfl
      · rfl
    · rw [if_neg]
      simp [hrow, hne.symm]
  · rw [heq]
    unfold signal
    split_ifs
    · simp [standing, hne.symm]
    · rfl

/-! ## What every execution sees -/

/-- What a server shows to every execution. -/
structure Outlook where
  stored : String → Option Workflow.Stored
  now : Instant

/-- What executions see of a server besides what concerns one of them. -/
def outlook (s : Server) : Outlook := ⟨Workflow.get? s.db.tables, s.now⟩

theorem outlook_of_tables {s' : Server} (hw : s'.db.tables.workflows = s.db.tables.workflows)
    (hs : s'.db.tables.steps = s.db.tables.steps) (hn : s'.now = s.now) :
    s'.outlook = s.outlook := by
  unfold outlook Workflow.get? Workflow.find? Workflow.stepsOf
  rw [hw, hs, hn]

/-- No request changes a workflow or the time. -/
theorem outlook_respond (s : Server) (controller : Controller) (r : Execution.Request) :
    (s.respond controller r).2.outlook = s.outlook := by
  cases r with
  | accept url payload signature =>
    obtain ⟨_, htables⟩ :=
      Database.transact_spares (Trigger.spares_accept s.now url payload signature) s.db
    exact outlook_of_tables (congrArg Tables.workflows htables :)
      (congrArg Tables.steps htables :) rfl
  | start workflow input triggeredBy =>
    obtain ⟨_, htables⟩ :=
      Database.transact_spares (spares_start s.now workflow input triggeredBy) s.db
    exact outlook_of_tables (congrArg Tables.workflows htables :)
      (congrArg Tables.steps htables :) rfl
  | run id r =>
    obtain ⟨_, htables⟩ := s.besidesTasks_respondRun id r
    obtain ⟨_, _, _, hnow, _⟩ := s.respondRun_spec id r
    exact outlook_of_tables (congrArg Tables.workflows htables :)
      (congrArg Tables.steps htables :) hnow
  | _ => rfl

theorem outlook_next (c : Cancel) (id : String) (s : Server) :
    (c.next id s).2.outlook = s.outlook := by
  obtain heq | heq | heq := c.server_next id s
  · rw [heq]
  · rw [heq]
    rfl
  · rw [heq, signal_eq]
    rfl

/-- A cancellation uses up no outbound answer. -/
theorem script_next (c : Cancel) (id : String) (s : Server) :
    (c.next id s).2.script = s.script := by
  obtain heq | heq | heq := c.server_next id s
  · rw [heq]
  · rw [heq]
  · rw [heq, signal_eq]

/-- A cancellation draws no id. -/
theorem supply_next (c : Cancel) (id : String) (s : Server) :
    (c.next id s).2.db.supply = s.db.supply := by
  obtain heq | heq | heq := c.server_next id s
  · rw [heq]
  · rw [heq]
  · rw [heq, signal_db]

/-! ## Ids in use -/

/-- An execution that starts gets the id that is drawn next. -/
theorem Numbered.answer_start (h : s.Numbered) (controller : Controller) (workflow : String)
    {input : Value} (hinput : Json.isShort input = true) (triggeredBy : Option String) :
    (s.respond controller (.start workflow input triggeredBy)).1 =
      .ok (Table.nextRowId s.db.supply) := by
  rw [h.start controller workflow hinput]
  rfl

theorem Numbered.drawn_start (h : s.Numbered) (controller : Controller) (workflow : String)
    {input : Value} (hinput : Json.isShort input = true) (triggeredBy : Option String) :
    (s.respond controller (.start workflow input triggeredBy)).2.db.supply.Drawn
      (Table.nextRowId s.db.supply) := by
  rw [h.start controller workflow hinput]
  exact Supply.drawn_of_succ rfl

/-- Every id in use was drawn. -/
structure Orderly (s : Server) : Prop where
  numbered : s.Numbered
  notified : s.Notified
  registered : ∀ e ∈ s.registered, s.db.supply.Drawn e.2
  signalled : ∀ id ∈ s.signalled, s.db.supply.Drawn id

namespace Orderly

/-- Nothing concerns the id that is drawn next. -/
theorem standing_next (h : s.Orderly) :
    s.standing (Table.nextRowId s.db.supply) = .unused := by
  have hnot := s.db.supply.not_drawn_next
  have hrows : rowsOf s.db.tables (Table.nextRowId s.db.supply) = [] := by
    refine List.filter_eq_nil_iff.mpr fun row hrow heq => hnot ?_
    rw [← show row.id = "r-" ++ toString s.db.supply.row from beq_iff_eq.mp heq]
    exact h.numbered row.id (List.mem_map_of_mem hrow)
  have hregistered (controller : Controller) :
      (controller, Table.nextRowId s.db.supply) ∉ s.registered :=
    fun hmem => hnot (h.registered _ hmem)
  have hsignalled : Table.nextRowId s.db.supply ∉ s.signalled :=
    fun hmem => hnot (h.signalled _ hmem)
  simp [standing, hrows, hregistered, hsignalled, Standing.unused]

/-- An execution that starts has one record, and no more concerns it yet. -/
theorem standing_start (h : s.Orderly) (controller : Controller) (workflow : String)
    {input : Value} (hinput : Json.isShort input = true) (triggeredBy : Option String) :
    (s.respond controller (.start workflow input triggeredBy)).2.standing
        (Table.nextRowId s.db.supply) =
      { Standing.unused with rows := [opening s.now workflow input triggeredBy ""] } := by
  have hunused := h.standing_next
  have hrows : rowsOf s.db.tables (Table.nextRowId s.db.supply) = [] :=
    List.map_eq_nil_iff.mp (congrArg Standing.rows hunused)
  have hopened : (rowsOf (s.respond controller (.start workflow input triggeredBy)).2.db.tables
      (Table.nextRowId s.db.supply)).map unnamed =
        [opening s.now workflow input triggeredBy ""] := by
    rw [h.numbered.start controller workflow hinput]
    show ((s.db.tables.executions ++ [opening s.now workflow input triggeredBy
      (Table.nextRowId s.db.supply)]).filter (·.id == Table.nextRowId s.db.supply)).map unnamed = _
    rw [List.filter_append, show s.db.tables.executions.filter
      (·.id == Table.nextRowId s.db.supply) = [] from hrows]
    simp [opening, unnamed]
  have hreachable : (s.standing (Table.nextRowId s.db.supply)).reachable = fun _ => false :=
    congrArg Standing.reachable hunused
  have hsignalled : (s.standing (Table.nextRowId s.db.supply)).signalled = false :=
    congrArg Standing.signalled hunused
  exact Standing.mk.injEq .. ▸ ⟨hopened, hreachable, hsignalled⟩

/-- Requests keep ids in order, if only ids that were drawn are registered. -/
theorem respond (h : s.Orderly) (controller : Controller) {r : Execution.Request}
    (hr : ∀ id, r = .register id → s.db.supply.Drawn id) :
    (s.respond controller r).2.Orderly := by
  have hrow := (s.supply_respond controller r).row
  refine ⟨h.numbered.respond controller r, h.notified.respond controller r, ?_, ?_⟩
  · intro e he
    refine Supply.Drawn.mono ?_ hrow
    cases r with
    | register id =>
      obtain hold | hnew := List.mem_append.mp he
      · exact h.registered e hold
      · obtain rfl := List.mem_singleton.mp hnew
        exact hr id rfl
    | withdraw id => exact h.registered e (List.mem_of_mem_filter he)
    | run id r =>
      rw [show (s.respond controller (.run id r)).2.registered = s.registered from
        (s.respondRun_spec id r).2.1] at he
      exact h.registered e he
    | _ => exact h.registered e he
  · intro id hid
    rw [signalled_respond] at hid
    exact (h.signalled id hid).mono hrow

/-- Cancellations keep ids in order, since they signal only to an execution that they reach. -/
theorem next (h : s.Orderly) (c : Cancel) (id : String) : (c.next id s).2.Orderly := by
  obtain heq | heq | heq := c.server_next id s
  · rw [heq]
    exact h
  · rw [heq]
    have hids : ({ s with db := { s.db with tables := commitCancel s.now id s.db.tables } } :
        Server).recordIds = s.recordIds := by
      refine ids_map (fun row => ?_) s.db.tables.executions
      split_ifs
      · rfl
      · rfl
    refine ⟨h.numbered.of_subset (.refl _) ?_, h.notified, h.registered, h.signalled⟩
    rw [hids]
    exact List.Subset.refl _
  · rw [heq]
    unfold signal
    split_ifs with hreached
    · refine ⟨h.numbered, h.notified, h.registered, fun id' hid' => ?_⟩
      obtain hold | hnew := List.mem_append.mp hid'
      · exact h.signalled id' hold
      · obtain rfl := List.mem_singleton.mp hnew
        exact h.registered (c.controller, id') (by simpa using hreached)
    · exact h

theorem tick (h : s.Orderly) (now : Instant) : ({ s with now } : Server).Orderly :=
  ⟨h.numbered, h.notified, h.registered, h.signalled⟩

end Orderly

end Server

end Stepwise
