import Stepwise.Proofs.Server.Records
import Stepwise.Proofs.Store.Columns
import Stepwise.Proofs.Store.Wording

/-!
# Notifications beside other notifications

A notification is refused for what it holds, or because another one has its id. Ids are drawn, so on
a server that is used the second never happens: what a run is answered when it asks for a
notification does not depend on what else is stored, but for the id that a refusal quotes.
-/

namespace Stepwise

open Store

namespace Store

namespace Table

variable {ρ : Type} {t : Table ρ} {now : Instant} {data : Fields} {c : Column ρ}

/-- The id of the next row. -/
def nextRowId (supply : Supply) : String := rowId supply.row

/-- What a column that is not an id is filled with does not depend on what is stored. -/
theorem exists_fillingOf_eq (hc : c.default ≠ .rowId) :
    ∃ filling, fillingOf now data c = pure filling := by
  unfold fillingOf
  dsimp only
  split
  · exact ⟨_, rfl⟩
  · split
    · exact ⟨_, rfl⟩
    · exact ⟨_, rfl⟩
    · contradiction
    · exact ⟨_, rfl⟩

/-- An insertion puts the row that it makes behind the others. -/
theorem insert_of_fillings (hname : t.unknownName? data = none) {tables : Tables}
    {supply supply' : Supply} {fillings : List Filling}
    (h : t.columns.mapM (fillingOf now data) tables supply =
      (.ok (fillings, tables), supply')) :
    t.insert now data tables supply = ((t.place (t.rows tables) fillings).map fun row =>
      (row, t.setRows (t.rows tables ++ [row]) tables), supply') := by
  unfold insert place
  rw [hname]
  refine (Transaction.bind_of_ok h).trans ?_
  cases t.newCells fillings with
  | error fault => rfl
  | ok cells =>
    refine (Transaction.bind_of_ok (a := cells) rfl).trans ?_
    refine (Transaction.bind_of_ok (a := tables) rfl).trans ?_
    generalize hv : t.violation? (t.rows tables) _ cells = clash
    cases clash with
    | some complaint =>
      simp only [bind, Except.bind, hv]
      rfl
    | none =>
      simp only [bind, Except.bind, hv]
      rfl

end Table

end Store

namespace Task

open Table

/-- What the columns of a notification are filled with. -/
def fillingsOf (user type title message read : Filling) (now : Instant) (id : String) :
    List Filling :=
  [user, type, title, message, read, .supplied (.text id), .supplied (.time now),
    .supplied (.time now)]

variable {user type title message read : Filling} {now : Instant}

theorem id_of_newCells {id : String} {cells : List (Column NotificationRow × Cell)}
    (h : notificationTable.newCells (fillingsOf user type title message read now id) =
      .ok cells) : (fill notificationTable.blank cells).id = id := by
  have hcolumn : ∃ c ∈ notificationTable.columns, c.sort = .text ∧
      (∀ row, c.read row = .text row.id) ∧ (c, .supplied (.text id)) ∈
        notificationTable.columns.zip (fillingsOf user type title message read now id) := by
    refine ⟨notificationTable.columns[5], List.getElem_mem _, rfl, fun _ => rfl, ?_⟩
    simp [notificationTable, fillingsOf]
  obtain ⟨c, hc, hsort, hread, hmem⟩ := hcolumn
  obtain ⟨content, hcell, _, hcontent⟩ := exists_cell_of_filling h hmem
  cases hcontent
  have hfilled := lawful_notificationTable.read_fill_newCells h (Nat.le_refl _) hcell
    (.inl (hsort ▸ .text id)) notificationTable.blank
  rw [hread] at hfilled
  exact Cell.text.inj hfilled

/-- Where no notification has its id yet, what becomes of a notification does not depend on the
others. -/
theorem place_of_fresh {others : List NotificationRow} {id : String}
    (h : ∀ row ∈ others, row.id ≠ id) :
    notificationTable.place others (fillingsOf user type title message read now id) =
      notificationTable.place [] (fillingsOf user type title message read now id) := by
  unfold place
  cases hcells : notificationTable.newCells (fillingsOf user type title message read now id) with
  | error fault => rfl
  | ok cells =>
    have hapart : ∀ c ∈ notificationTable.columns, c.unique = true → ∀ other ∈ others,
        sameCell (c.read other) (c.read (fill notificationTable.blank cells)) = false := by
      intro c hc hunique other hother
      have hread : ∀ row, c.read row = .text row.id := by
        revert c
        simp [notificationTable]
      rw [hread, hread, id_of_newCells hcells]
      exact beq_eq_false_iff_ne.mpr (h other hother)
    simp only [bind, Except.bind, violation?_of_apart hapart]

/-- The fault that a notification is refused with, or the notification that is stored, depends on
the notification, the time and the drawn id alone. -/
theorem exists_draft (now : Instant) (user title message : Value) :
    ∃ draft : String → Except Fault NotificationRow,
      (∀ n n', ResultsAlike (fun _ _ => True) (draft (rowId n)) (draft (rowId n'))) ∧
      (∀ id row, draft id = .ok row → row.id = id) ∧
      ∀ tables supply, (∀ row ∈ tables.notifications, row.id ≠ nextRowId supply) →
        notify now user title message tables supply =
          ((draft (nextRowId supply)).map fun row => ((), { tables with notifications :=
            tables.notifications ++ [row] }), { supply with row := supply.row + 1 }) := by
  let data : Fields :=
    [(.text "user_id", user), (.text "title", title), (.text "message", message)]
  have hfilling (c : Column NotificationRow) (hc : c.default ≠ .rowId) :
      ∃ filling, fillingOf now data c = pure filling := exists_fillingOf_eq hc
  obtain ⟨user', huser⟩ := hfilling (notificationTable.columns[0]) nofun
  obtain ⟨type, htype⟩ := hfilling (notificationTable.columns[1]) nofun
  obtain ⟨title', htitle⟩ := hfilling (notificationTable.columns[2]) nofun
  obtain ⟨message', hmessage⟩ := hfilling (notificationTable.columns[3]) nofun
  obtain ⟨read, hread⟩ := hfilling (notificationTable.columns[4]) nofun
  refine ⟨fun id => notificationTable.place [] (fillingsOf user' type title' message' read now id),
    fun n n' => alike_place ?_, fun id row hrow => ?_, fun tables supply hfresh => ?_⟩
  · have hsame (fillings : List Filling) : List.Forall₂ Filling.Alike fillings fillings :=
      List.forall₂_same.mpr fun filling _ => .same filling
    exact .cons (.same _) (.cons (.same _) (.cons (.same _) (.cons (.same _) (.cons (.same _)
      (.cons (.drawn n n') (hsame _))))))
  · obtain ⟨cells, hcells, hrow⟩ := Except.ok_of_bind hrow
    dsimp only at hrow
    split at hrow
    · cases hrow
    · cases hrow
      exact id_of_newCells hcells
  · have hfillings : notificationTable.columns.mapM (fillingOf now data) tables supply =
        (.ok (fillingsOf user' type title' message' read now (nextRowId supply), tables),
          { supply with row := supply.row + 1 }) := by
      refine (Transaction.bind_of_ok (congrFun (congrFun huser tables) supply)).trans ?_
      refine (Transaction.bind_of_ok (congrFun (congrFun htype tables) supply)).trans ?_
      refine (Transaction.bind_of_ok (congrFun (congrFun htitle tables) supply)).trans ?_
      refine (Transaction.bind_of_ok (congrFun (congrFun hmessage tables) supply)).trans ?_
      refine (Transaction.bind_of_ok (congrFun (congrFun hread tables) supply)).trans ?_
      rfl
    have hinsert := insert_of_fillings (t := notificationTable) rfl hfillings
    rw [show notificationTable.rows tables = tables.notifications from rfl, place_of_fresh hfresh]
      at hinsert
    dsimp only
    generalize notificationTable.place [] _ = draft at hinsert ⊢
    cases draft with
    | error fault => exact Transaction.bind_of_error hinsert
    | ok row => exact (Transaction.bind_of_ok hinsert).trans rfl

/-- Where no notification has the next id, the answer depends on the notification and the time
alone, but for the id that is quoted if it is refused. -/
theorem alike_notify (now : Instant) (user title message : Value) {db db' : Database}
    (h : ∀ row ∈ db.tables.notifications, row.id ≠ nextRowId db.supply)
    (h' : ∀ row ∈ db'.tables.notifications, row.id ≠ nextRowId db'.supply) :
    ResultsAlike (· = ·) (db.transact (notify now user title message)).1
      (db'.transact (notify now user title message)).1 := by
  obtain ⟨draft, hdraft, -, hnotify⟩ := exists_draft now user title message
  have hanswer (db : Database) (h : ∀ row ∈ db.tables.notifications, row.id ≠ nextRowId db.supply) :
      (db.transact (notify now user title message)).1 =
        (draft (nextRowId db.supply)).map fun _ => () := by
    unfold Database.transact
    rw [hnotify db.tables db.supply h]
    cases draft (nextRowId db.supply) with
    | error fault => rfl
    | ok row => rfl
  rw [hanswer db h, hanswer db' h']
  exact (hdraft db.supply.row db'.supply.row).bind fun _ _ _ => .ok rfl

end Task

namespace Server

/-- The ids of the notifications. -/
def notificationIds (s : Server) : List String := s.db.tables.notifications.map (·.id)

/-- The ids of all notifications were drawn. -/
def Notified (s : Server) : Prop := ∀ id ∈ s.notificationIds, s.db.supply.Drawn id

variable {s s' : Server}

theorem Notified.of_eq (h : s.Notified) (hs : s.db.supply.Before s'.db.supply)
    (hn : s'.db.tables.notifications = s.db.tables.notifications) : s'.Notified := by
  intro id hid
  rw [notificationIds, hn] at hid
  exact (h id hid).mono hs.row

/-- No notification has the id that is drawn next. -/
theorem Notified.fresh (h : s.Notified) :
    ∀ row ∈ s.db.tables.notifications, row.id ≠ Table.nextRowId s.db.supply := by
  intro row hrow hid
  refine s.db.supply.not_drawn_next ?_
  rw [← show row.id = "r-" ++ toString s.db.supply.row from hid]
  exact h row.id (List.mem_map_of_mem hrow)

/-- What the steps of a run ask of tasks leaves notifications as they are. -/
theorem notifications_respondRun (s : Server) (id : String) {r : Run.Request}
    (h : ∀ user title message, r ≠ .notify user title message) :
    (s.respondRun id r).2.db.tables.notifications = s.db.tables.notifications := by
  cases r with
  | createTask fields =>
    exact (Database.transact_spares (Task.spares_create (fun _ _ => rfl) s.now fields) s.db).2
  | updateTask task fields =>
    exact (Database.transact_spares (Task.spares_update (fun _ _ => rfl) s.now task fields) s.db).2
  | deleteTask task =>
    exact (Database.transact_spares (Task.spares_delete (fun _ _ => rfl) task) s.db).2
  | notify user title message => exact absurd rfl (h user title message)
  | _ => rfl

theorem Notified.respondRun (h : s.Notified) (id : String) (r : Run.Request) :
    (s.respondRun id r).2.Notified := by
  by_cases hr : ∃ user title message, r = .notify user title message
  · obtain ⟨user, title, message, rfl⟩ := hr
    obtain ⟨draft, -, hnamed, hnotify⟩ := Task.exists_draft s.now user title message
    show Server.Notified { s with db := (s.db.transact (Task.notify s.now user title message)).2 }
    unfold Database.transact
    rw [hnotify s.db.tables s.db.supply h.fresh]
    cases hdraft : draft (Table.nextRowId s.db.supply) with
    | error fault => exact fun id hid => (h id hid).mono (Nat.le_succ _)
    | ok row =>
      intro id hid
      change id ∈ (s.db.tables.notifications ++ [_]).map NotificationRow.id at hid
      rw [List.map_append] at hid
      obtain hold | hnew := List.mem_append.mp hid
      · exact (h id hold).mono (Nat.le_succ _)
      · rw [List.mem_singleton.mp hnew, hnamed _ row hdraft]
        exact Supply.drawn_of_succ rfl
  · refine h.of_eq (s.besidesTasks_respondRun id r).1 (s.notifications_respondRun id ?_)
    exact fun user title message heq => hr ⟨user, title, message, heq⟩

theorem Notified.respond (h : s.Notified) (controller : Controller) (r : Execution.Request) :
    (s.respond controller r).2.Notified := by
  cases r with
  | run id r => exact h.respondRun id r
  | accept url payload signature =>
    exact h.of_eq (s.supply_respond controller _) (congrArg Tables.notifications
      (Database.transact_spares (Trigger.spares_accept s.now url payload signature) s.db).2 :)
  | start workflow input triggeredBy =>
    exact h.of_eq (s.supply_respond controller _) (congrArg Tables.notifications
      (Database.transact_spares (Execution.spares_start s.now workflow input triggeredBy) s.db).2 :)
  | _ => exact h

theorem Notified.move (h : s.Notified) (b : Background) : (s.move b).2.Notified := by
  have hmoved := moved_move s b
  generalize s.move b = out at hmoved
  cases hmoved with
  | ended _ => exact h
  | answered _ _ => exact h.respond _ _
  | sent _ _ => exact h
  | received _ _ => exact h

theorem Notified.step (h : s.Notified) (op : Operation) : (s.step op).Notified := by
  have hsupply := s.supply_step op
  cases op with
  | createWorkflow draft =>
    exact h.of_eq hsupply (congrArg Tables.notifications
      (Database.transact_spares (Workflow.spares_create s.now draft) s.db).2 :)
  | updateWorkflow id changes steps =>
    exact h.of_eq hsupply (congrArg Tables.notifications
      (Database.transact_spares (Workflow.spares_update s.now id changes steps) s.db).2 :)
  | deleteWorkflow id =>
    exact h.of_eq hsupply (congrArg Tables.notifications
      (Database.transact_spares (Workflow.spares_delete id) s.db).2 :)
  | createTrigger workspace workflow name creator =>
    exact h.of_eq hsupply (congrArg Tables.notifications (Database.transact_spares
      (Trigger.spares_create s.now workspace workflow name creator) s.db).2 :)
  | changeTrigger id change =>
    exact h.of_eq hsupply (congrArg Tables.notifications
      (Database.transact_spares (spares_changeTrigger s.now id change.data) s.db).2 :)
  | deleteTrigger id =>
    exact h.of_eq hsupply (congrArg Tables.notifications
      (Database.transact_spares (spares_deleteTrigger id) s.db).2 :)
  | receive name controller url payload signature =>
    refine h.of_eq hsupply ?_
    rw [step_receive]
    exact (congrArg Tables.notifications
      (Database.transact_spares (Trigger.spares_accept s.now url payload signature) s.db).2 :)
  | receiveRaw url signature =>
    exact h.of_eq hsupply
      (congrArg Tables.notifications (s.besidesTriggers_receiveRaw url signature) :)
  | cancel controller id =>
    refine h.of_eq hsupply ?_
    show (s.cancel controller id).2.db.tables.notifications = _
    unfold cancel
    split
    · rfl
    · rw [signal_db]
      rfl
  | proceed n =>
    show (s.proceed n).Notified
    cases hb : s.background[n]? with
    | none =>
      rw [proceed_of_none hb]
      exact h
    | some b =>
      rw [proceed_of_some hb]
      exact h.move b
  | _ => exact h

theorem notified_fresh (rules : Execution.Rules) (script : List Outbound.Scripted) :
    (fresh rules script).Notified := List.forall_mem_nil _

end Server

end Stepwise
