import Stepwise.Proofs.Execution.Response

/-!
# What holds between an execution and its cancellations

At every moment of every schedule the record is gone, running, cancelled or closed, as the account
of the execution and the phases of the cancellations tell; a signal comes from a cancellation that
has returned; and the execution is reachable as its account says.
-/

namespace Stepwise.Execution

open Store

/-- Some cancellation has written the record. -/
def Written (cancels : List Cancel) : Prop := ∃ c ∈ cancels, c.phase.hasWritten = true

/-- Some cancellation has signalled to the execution. -/
def Signalled (cancels : List Cancel) : Prop := ∃ c ∈ cancels, c.phase = .returned true

theorem Signalled.written {cancels : List Cancel} (h : Signalled cancels) : Written cancels := by
  obtain ⟨c, hc, hphase⟩ := h
  exact ⟨c, hc, by rw [hphase]; rfl⟩

/-- A cancellation that moves on stays in its place among the others. -/
theorem exists_split_set {cancels : List Cancel} {n : Nat} {c : Cancel}
    (h : cancels[n]? = some c) :
    ∃ before later, cancels = before ++ c :: later ∧
      ∀ c', cancels.set n c' = before ++ c' :: later := by
  obtain ⟨hn, hc⟩ := List.getElem?_eq_some_iff.mp h
  refine ⟨cancels.take n, cancels.drop (n + 1), ?_, fun c' => ?_⟩
  · rw [← hc, List.getElem_cons_drop, List.take_append_drop]
  · rw [List.set_eq_take_append_cons_drop, if_pos hn]

theorem written_iff_of_move {before later : List Cancel} {c c' : Cancel}
    (h : c'.phase.hasWritten = c.phase.hasWritten) :
    Written (before ++ c' :: later) ↔ Written (before ++ c :: later) := by
  simp [Written, or_and_right, exists_or, h]

theorem signalled_iff_of_move {before later : List Cancel} {c c' : Cancel}
    (h : c'.phase = .returned true ↔ c.phase = .returned true) :
    Signalled (before ++ c' :: later) ↔ Signalled (before ++ c :: later) := by
  simp [Signalled, or_and_right, exists_or, h]

theorem not_written_nil : ¬ Written [] := by simp [Written]

theorem not_signalled_nil : ¬ Signalled [] := by simp [Signalled]

/-- What the rows of the execution are, by how it tried to close them and by its cancellations. -/
inductive Recorded (closing : Option (Closing × Bool)) (cancels : List Cancel) :
    List ExecutionRow → Prop
  | gone : Recorded closing cancels []
  | running {row : ExecutionRow} (hs : row.status = Status.running.name) (hn : closing = none)
      (hc : ¬ Written cancels) : Recorded closing cancels [row]
  | cancelled {row : ExecutionRow} (hs : row.status = Status.cancelled.name)
      (hc : Written cancels) : Recorded closing cancels [row]
  | closed {row : ExecutionRow} {c : Closing} (hs : c.Shown row) (hn : closing = some (c, true))
      (hc : ¬ Written cancels) : Recorded closing cancels [row]

namespace Recorded

variable {closing : Option (Closing × Bool)} {cancels cancels' : List Cancel}
  {rows rows' : List ExecutionRow}

/-- A row may be taken away. -/
theorem sublist (h : Recorded closing cancels rows) (hr : rows'.Sublist rows) :
    Recorded closing cancels rows' := by
  cases h with
  | gone =>
    rw [List.sublist_nil.mp hr]
    exact .gone
  | running hs hn hc =>
    obtain rfl | rfl := List.sublist_singleton.mp hr
    · exact .gone
    · exact .running hs hn hc
  | cancelled hs hc =>
    obtain rfl | rfl := List.sublist_singleton.mp hr
    · exact .gone
    · exact .cancelled hs hc
  | closed hs hn hc =>
    obtain rfl | rfl := List.sublist_singleton.mp hr
    · exact .gone
    · exact .closed hs hn hc

/-- Only the writes of the cancellations matter. -/
theorem congr_written (h : Recorded closing cancels rows)
    (hw : Written cancels' ↔ Written cancels) : Recorded closing cancels' rows := by
  cases h with
  | gone => exact .gone
  | running hs hn hc => exact .running hs hn (mt hw.mp hc)
  | cancelled hs hc => exact .cancelled hs (hw.mpr hc)
  | closed hs hn hc => exact .closed hs hn (mt hw.mp hc)

/-- After the write of a cancellation the row is cancelled, whatever it was. -/
theorem overwritten (h : Recorded closing cancels rows) (hw : Written cancels') (now : Instant) :
    Recorded closing cancels' (rows.map (Execution.cancelled now)) := by
  cases h with
  | gone => exact .gone
  | running hs hn hc => exact .cancelled rfl hw
  | cancelled hs hc => exact .cancelled rfl hw
  | closed hs hn hc => exact .cancelled rfl hw

/-- The end of the run closes the row if it is still running. -/
theorem closes (h : Recorded none cancels rows) (c : Closing) (since now : Instant) :
    Recorded (some (c, rows.any isOpen)) cancels
      (rows.map fun row => if isOpen row then c.write since now row else row) := by
  cases h with
  | gone => exact .gone
  | running hs hn hc =>
    rename_i row
    have hopen : isOpen row = true := by simp [isOpen, hs]
    simp only [List.any_cons, List.any_nil, List.map_cons, List.map_nil, hopen]
    exact .closed (c.shown_write since now row) rfl hc
  | cancelled hs hc =>
    rename_i row
    have hopen : isOpen row = false := by
      rw [isOpen, hs]
      rfl
    simp only [List.any_cons, List.any_nil, List.map_cons, List.map_nil, hopen]
    exact .cancelled hs hc
  | closed hs hn hc => cases hn

/-- A row that is still running was written by no cancellation. -/
theorem not_written_of_open (h : Recorded closing cancels rows) (ho : rows.any isOpen = true) :
    ¬ Written cancels := by
  cases h with
  | gone => cases ho
  | running hs hn hc => exact hc
  | cancelled hs hc => simp [isOpen, hs, Status.name] at ho
  | closed hs hn hc => exact hc

/-- A row that has not ended is what neither the execution nor a cancellation has written. -/
theorem of_not_ended {row : ExecutionRow} (h : Recorded closing cancels [row])
    (he : ¬ Ended row) : closing = none ∧ ¬ Written cancels := by
  cases h with
  | running hs hn hc => exact ⟨hn, hc⟩
  | cancelled hs hc => exact absurd ⟨.cancelled, rfl, hs⟩ he
  | closed hs hn hc =>
    rename_i c
    exact absurd ⟨c.status, by cases c <;> rfl, hs.status⟩ he

/-- A cancelled row was written by a cancellation. -/
theorem written_of_cancelled {row : ExecutionRow} (h : Recorded closing cancels [row])
    (hs : row.status = Status.cancelled.name) : Written cancels := by
  cases h with
  | running hr hn hc => exact absurd (hr.symm.trans hs) (by decide)
  | cancelled hr hc => exact hc
  | closed hr hn hc =>
    rename_i c
    exact absurd (hr.status.symm.trans hs) c.status_ne_cancelled

/-- There is one row at most. -/
theorem eq_singleton (h : Recorded closing cancels rows) {row : ExecutionRow}
    (hr : rows.head? = some row) : rows = [row] := by
  cases h with
  | gone => cases hr
  | running hs hn hc => rw [Option.some.inj hr]
  | cancelled hs hc => rw [Option.some.inj hr]
  | closed hs hn hc => rw [Option.some.inj hr]

end Recorded

/-- The world and the account of its execution fit together. -/
structure World.Sound (w : World) (a : Account) : Prop where
  /-- What is left of the execution keeps to the conduct. -/
  keeps : w.program.Keeps conduct Account.Tells a
  /-- It has read the clock as far as it can. -/
  settled : ∀ id (next : Instant → Activity (Except Fault Report)),
    w.program ≠ .ask (.run id .now) next
  opened : w.opened = a.id
  /-- Without a record nothing has happened. -/
  unopened : a.id = none → a = .initial ∧ w.cancels = []
  registered : ∀ e, e ∈ w.server.registered ↔ a.reachable = true ∧ e.1 = .main ∧ a.id = some e.2
  signalled : ∀ id, id ∈ w.server.signalled ↔ a.id = some id ∧ Signalled w.cancels
  told : a.leave.told = true → Signalled w.cancels
  recorded : ∀ id, a.id = some id →
    Recorded a.closing w.cancels (rowsOf w.server.db.tables id)

theorem ok_of_toOption {α : Type} {r : Except Fault α} {a : α} (h : r.toOption = some a) :
    r = .ok a := by
  cases r with
  | ok b => rw [Option.some.inj h]
  | error fault => cases h

theorem keeps_readClock {α : Type} {post : Account → α → Prop} (now : Instant) {p : Activity α}
    {a : Account} (h : p.Keeps conduct post a) : (readClock now p).Keeps conduct post a := by
  induction p using readClock.induct now with
  | case1 id next ih => exact ih (h.2 now trivial)
  | case2 activity hne =>
    rw [readClock.eq_2 now activity hne]
    exact h

namespace World

variable {w : World} {a : Account}

theorem sound_begin (db : Database) (now : Instant) (rules : Rules)
    (script : List Outbound.Scripted) (workflow : String) (input : Value)
    (triggeredBy : Option String) :
    (begin db now rules script workflow input triggeredBy).Sound .initial where
  keeps := keeps_execute rules workflow input triggeredBy
  settled := nofun
  opened := rfl
  unopened := fun _ => ⟨rfl, rfl⟩
  registered := by simp [begin, Server.fresh, Account.initial]
  signalled := by simp [begin, Server.fresh, Account.initial]
  told := nofun
  recorded := nofun

/-- The execution asks what it may. -/
theorem Sound.may (h : w.Sound a) {r : Request} {next : r.Answer → Activity (Except Fault Report)}
    (hw : w.program = .ask r next) : a.May r := by
  have hkeeps := h.keeps
  rw [hw] at hkeeps
  exact hkeeps.1

/-- What the execution is told of a cancellation was signalled by one. -/
theorem Sound.told_after (h : w.Sound a) {r : Request} (hr : a.May r)
    (ht : (a.after r (w.server.respond .main r).1).leave.told = true) : Signalled w.cancels := by
  cases r with
  | accept url payload signature => exact hr.elim
  | load workflow => exact h.told ht
  | start workflow input triggeredBy => exact h.told ht
  | register id => exact h.told ht
  | withdraw id => exact h.told ht
  | close id since closing => exact h.told ht
  | run id r =>
    have hcontains (hc : w.server.signalled.contains id = true) : Signalled w.cancels :=
      ((h.signalled id).mp (by simpa using hc)).2
    cases r with
    | cancelled =>
      rcases Bool.or_eq_true_iff.mp ht with hold | hnew
      · exact h.told hold
      · exact hcontains hnew
    | wait micros =>
      rcases Bool.or_eq_true_iff.mp ht with hold | hnew
      · exact h.told hold
      · exact hcontains (Bool.and_eq_true_iff.mp hnew).1
    | now => exact h.told ht
    | send call => exact h.told ht
    | createTask fields => exact h.told ht
    | updateTask task fields => exact h.told ht
    | deleteTask task => exact h.told ht
    | notify user title message => exact h.told ht

/-- The record after a request. -/
theorem Sound.recorded_after (h : w.Sound a) {r : Request} (hr : a.May r) (id : String)
    (hid : (a.after r (w.server.respond .main r).1).id = some id) :
    Recorded (a.after r (w.server.respond .main r).1).closing w.cancels
      (rowsOf (w.server.respond .main r).2.db.tables id) := by
  cases r with
  | accept url payload signature => exact hr.elim
  | load workflow => exact h.recorded id hid
  | start workflow input triggeredBy =>
    obtain rfl : a = .initial := hr
    have hstart := ok_of_toOption hid
    have hrows := (transact_start w.server.db w.server.now workflow input triggeredBy).2 id hstart
    have hcancels := (h.unopened rfl).2
    show Recorded none w.cancels _
    refine hrows ▸ .running rfl rfl ?_
    rw [hcancels]
    exact not_written_nil
  | register id' => exact h.recorded id hid
  | withdraw id' => exact h.recorded id hid
  | close id' since c =>
    obtain ⟨hid', hclosing, _⟩ := hr
    obtain rfl : id' = id := Option.some.inj (hid'.symm.trans hid)
    have hrecorded := h.recorded id' hid'
    rw [hclosing] at hrecorded
    show Recorded (some (c, (close since w.server.now id' c w.server.db.tables).1)) w.cancels
      (rowsOf (close since w.server.now id' c w.server.db.tables).2 id')
    rw [fst_close, rowsOf_close]
    exact hrecorded.closes c since w.server.now
  | run id' r =>
    have hrows := rowsOf_congr (w.server.respondRun_spec id' r).1 id
    show Recorded a.closing w.cancels (rowsOf (w.server.respondRun id' r).2.db.tables id)
    rw [hrows]
    exact h.recorded id hid

/-- A record that is closed in time was not written by a cancellation before. -/
theorem Sound.not_written_of_closed (h : w.Sound a) {r : Request}
    {next : r.Answer → Activity (Except Fault Report)} (hw : w.program = .ask r next)
    {output : Fields} {log : List Run.Entry}
    (hc : (a.after r (w.server.respond .main r).1).closing = some (.completed output log, true)) :
    ¬ Written w.cancels := by
  have hr := h.may hw
  have hold := hr.closing_ne output log true
  cases r with
  | close id since closing =>
    obtain ⟨hid, hnone, _⟩ := hr
    have hrecorded := h.recorded id hid
    rw [hnone] at hrecorded
    have hopen : (rowsOf w.server.db.tables id).any isOpen = true := by
      rw [← fst_close since w.server.now id closing]
      exact congrArg Prod.snd (Option.some.inj hc)
    exact hrecorded.not_written_of_open hopen
  | accept url payload signature => exact absurd hc hold
  | load workflow => exact absurd hc hold
  | start workflow input triggeredBy => exact absurd hc hold
  | register id => exact absurd hc hold
  | withdraw id => exact absurd hc hold
  | run id r => exact absurd hc hold

/-- A request of the execution. -/
theorem Sound.run (h : w.Sound a) {r : Request}
    {next : r.Answer → Activity (Except Fault Report)} (hw : w.program = .ask r next) :
    w.run.Sound (a.after r (w.server.respond .main r).1) := by
  have hkeeps := h.keeps
  rw [hw] at hkeeps
  obtain ⟨hr, hnext⟩ := hkeeps
  rw [run_of_ask hw]
  exact {
    keeps := keeps_readClock _ (hnext _ (w.server.fair_respond hr))
    settled := readClock_ne _ _
    opened := by rw [Account.id_after hr, h.opened]
    unopened := by
      intro hid
      rw [Account.id_after hr, Option.or_eq_none_iff] at hid
      obtain ⟨rfl, hcancels⟩ := h.unopened hid.2
      exact ⟨Account.after_initial hr hid.1, hcancels⟩
    registered := w.server.mem_registered_respond hr h.registered
    signalled := by
      intro id
      show id ∈ (w.server.respond .main r).2.signalled ↔ _
      rw [w.server.signalled_respond, h.signalled id]
      cases hid : a.id with
      | none =>
        have hnot : ¬ Signalled w.cancels := by
          rw [(h.unopened hid).2]
          exact not_signalled_nil
        simp [hnot]
      | some i => rw [Account.id_after_of_some hr hid]
    told := h.told_after hr
    recorded := h.recorded_after hr }

/-- A change to the records and to the cancellations, which is not the execution's own. -/
theorem Sound.change (h : w.Sound a) {server : Server} {cancels : List Cancel}
    (hopen : a.id ≠ none) (hregistered : server.registered = w.server.registered)
    (hsignalled : ∀ id, id ∈ server.signalled ↔ a.id = some id ∧ Signalled cancels)
    (hkept : Signalled w.cancels → Signalled cancels)
    (hrecorded : ∀ id, a.id = some id →
      Recorded a.closing cancels (rowsOf server.db.tables id)) :
    { w with server, cancels }.Sound a where
  keeps := h.keeps
  settled := h.settled
  opened := h.opened
  unopened := fun hid => absurd hid hopen
  registered := by
    intro e
    show e ∈ server.registered ↔ _
    rw [hregistered]
    exact h.registered e
  signalled := hsignalled
  told := fun ht => hkept (h.told ht)
  recorded := hrecorded

/-- Someone asks for a cancellation. -/
theorem Sound.arrive (h : w.Sound a) (controller : Controller) :
    (w.step (.arrive controller)).Sound a := by
  obtain hstep | ⟨hopened, hstep⟩ := w.step_arrive controller
  · rw [hstep]
    exact h
  · have hopen : a.id ≠ none := by
      rw [← h.opened]
      exact Option.isSome_iff_ne_none.mp hopened
    have hwritten : Written (w.cancels ++ [⟨controller, .asked⟩]) ↔ Written w.cancels := by
      simp [Written, Phase.hasWritten]
    have hsignalled : Signalled (w.cancels ++ [⟨controller, .asked⟩]) ↔ Signalled w.cancels := by
      simp [Signalled]
    rw [hstep]
    refine h.change hopen rfl ?_ hsignalled.mpr ?_
    · intro id
      rw [hsignalled]
      exact h.signalled id
    · intro id hid
      exact (h.recorded id hid).congr_written hwritten

/-- A move of a cancellation that neither writes nor signals. -/
theorem Sound.move (h : w.Sound a) {n : Nat} {c : Cancel} (hc : w.cancels[n]? = some c)
    {phase : Phase} (hw : phase.hasWritten = c.phase.hasWritten)
    (hs : phase = .returned true ↔ c.phase = .returned true) :
    { w with cancels := w.cancels.set n { c with phase } }.Sound a := by
  obtain ⟨before, later, hold, hset⟩ := exists_split_set hc
  have hopen : a.id ≠ none := fun hid => by simp [(h.unopened hid).2] at hc
  have hwritten : Written (w.cancels.set n { c with phase }) ↔ Written w.cancels := by
    rw [hset, hold]
    exact written_iff_of_move hw
  have hsignalled : Signalled (w.cancels.set n { c with phase }) ↔ Signalled w.cancels := by
    rw [hset, hold]
    exact signalled_iff_of_move hs
  refine h.change hopen rfl ?_ hsignalled.mpr ?_
  · intro id
    rw [hsignalled]
    exact h.signalled id
  · intro id hid
    exact (h.recorded id hid).congr_written hwritten

/-- The write of a cancellation. -/
theorem Sound.writes (h : w.Sound a) {n : Nat} {controller : Controller}
    (hc : w.cancels[n]? = some ⟨controller, .checked⟩) {id : String} (hid : a.id = some id) :
    { w with
      server := { w.server with db := { w.server.db with
        tables := commitCancel w.server.now id w.server.db.tables } }
      cancels := w.cancels.set n ⟨controller, .committed⟩ }.Sound a := by
  obtain ⟨before, later, hold, hset⟩ := exists_split_set hc
  have hwritten : Written (w.cancels.set n ⟨controller, .committed⟩) :=
    ⟨⟨controller, .committed⟩, by simp [hset], rfl⟩
  have hsignalled :
      Signalled (w.cancels.set n ⟨controller, .committed⟩) ↔ Signalled w.cancels := by
    rw [hset, hold]
    exact signalled_iff_of_move (by simp)
  refine h.change (by simp [hid]) rfl ?_ hsignalled.mpr ?_
  · intro id'
    rw [hsignalled]
    exact h.signalled id'
  · intro id' hid'
    obtain rfl : id = id' := Option.some.inj (hid.symm.trans hid')
    show Recorded a.closing _ (rowsOf (commitCancel w.server.now id w.server.db.tables) id)
    rw [rowsOf_commitCancel]
    exact (h.recorded id hid).overwritten hwritten w.server.now

/-- The signal of a cancellation, which is made if the execution is found. -/
theorem Sound.signals (h : w.Sound a) {n : Nat} {controller : Controller}
    (hc : w.cancels[n]? = some ⟨controller, .committed⟩) {id : String} (hid : a.id = some id) :
    { w with
      server := w.server.signal controller id
      cancels := w.cancels.set n
        ⟨controller, .returned (w.server.registered.contains (controller, id))⟩ }.Sound a := by
  by_cases hfound : w.server.registered.contains (controller, id) = true
  · obtain ⟨before, later, hold, hset⟩ := exists_split_set hc
    have hwritten :
        Written (w.cancels.set n ⟨controller, .returned true⟩) ↔ Written w.cancels := by
      rw [hset, hold]
      exact written_iff_of_move rfl
    have hsignalled : Signalled (w.cancels.set n ⟨controller, .returned true⟩) :=
      ⟨⟨controller, .returned true⟩, by simp [hset], rfl⟩
    rw [Server.signal, if_pos hfound, hfound]
    refine h.change (by simp [hid]) rfl ?_ (fun _ => hsignalled) ?_
    · intro id'
      show id' ∈ w.server.signalled ++ [id] ↔ _
      rw [List.mem_append, h.signalled id', List.mem_singleton, hid]
      constructor
      · rintro (⟨hid', _⟩ | rfl)
        · exact ⟨hid', hsignalled⟩
        · exact ⟨rfl, hsignalled⟩
      · rintro ⟨hid', _⟩
        exact .inr (Option.some.inj hid').symm
    · intro id' hid'
      exact (h.recorded id' hid').congr_written hwritten
  · have hlost : w.server.registered.contains (controller, id) = false := by simpa using hfound
    rw [Server.signal, if_neg hfound, hlost]
    exact h.move hc rfl (by simp)

/-- A cancellation moves on. -/
theorem Sound.advance (h : w.Sound a) (n : Nat) : (w.advance n).Sound a := by
  unfold World.advance
  split
  · rename_i id c ho hc
    have hid : a.id = some id := h.opened.symm.trans ho
    obtain ⟨controller, phase⟩ := c
    cases phase with
    | asked =>
      dsimp only [Cancel.next]
      split
      · exact h.move hc rfl (by simp)
      · exact h.move hc rfl (by simp)
    | checked =>
      dsimp only [Cancel.next]
      split_ifs
      · exact h.move hc rfl (by simp)
      · exact h.writes hc hid
    | committed => exact h.signals hc hid
    | returned live => exact h.move hc rfl Iff.rfl
    | refused fault => exact h.move hc rfl Iff.rfl
    | lost => exact h.move hc rfl Iff.rfl
  · exact h

/-- Time passes. -/
theorem Sound.tick (h : w.Sound a) (now : Instant) : (w.step (.tick now)).Sound a :=
  ⟨h.keeps, h.settled, h.opened, h.unopened, h.registered, h.signalled, h.told, h.recorded⟩

/-- A workflow is deleted, perhaps that of the execution. -/
theorem Sound.delete (h : w.Sound a) (workflow : String) :
    (w.step (.delete workflow)).Sound a := by
  refine ⟨h.keeps, h.settled, h.opened, h.unopened, h.registered, h.signalled, h.told, ?_⟩
  intro id hid
  exact (h.recorded id hid).sublist (rowsOf_delete w.server.db workflow id)

/-- Every move keeps the world sound, and the execution keeps its record. -/
theorem Sound.step (h : w.Sound a) (e : Event) :
    ∃ a', (w.step e).Sound a' ∧ ∀ id, a.id = some id → a'.id = some id := by
  cases e with
  | run =>
    cases hw : w.program with
    | done result =>
      refine ⟨a, ?_, fun _ hid => hid⟩
      show (World.run w).Sound a
      rw [run_of_done hw]
      exact h
    | ask r next =>
      exact ⟨_, h.run hw, fun id hid => Account.id_after_of_some (h.may hw) hid _⟩
  | arrive controller => exact ⟨a, h.arrive controller, fun _ hid => hid⟩
  | advance n => exact ⟨a, h.advance n, fun _ hid => hid⟩
  | tick now => exact ⟨a, h.tick now, fun _ hid => hid⟩
  | delete workflow => exact ⟨a, h.delete workflow, fun _ hid => hid⟩

/-- By induction on the schedule: whatever comes when, the world is sound. -/
theorem Sound.play (h : w.Sound a) (events : List Event) :
    ∃ a', (w.play events).Sound a' ∧ ∀ id, a.id = some id → a'.id = some id := by
  induction events generalizing w a with
  | nil => exact ⟨a, h, fun _ hid => hid⟩
  | cons e rest ih =>
    obtain ⟨a', ha', hid'⟩ := h.step e
    obtain ⟨a'', ha'', hid''⟩ := ih ha'
    exact ⟨a'', ha'', fun id hid => hid'' id (hid' id hid)⟩

/-- The record as it is found. -/
theorem Sound.row?_eq_some (h : w.Sound a) {row : ExecutionRow} (hrow : w.row? = some row) :
    ∃ id, a.id = some id ∧ rowsOf w.server.db.tables id = [row] ∧
      Recorded a.closing w.cancels [row] := by
  unfold row? at hrow
  rw [h.opened, Option.bind_eq_some_iff] at hrow
  obtain ⟨id, hid, hfound⟩ := hrow
  rw [find?_eq_head?] at hfound
  have hrecorded := h.recorded id hid
  have hrows := hrecorded.eq_singleton hfound
  rw [hrows] at hrecorded
  exact ⟨id, hid, hrows, hrecorded⟩

end World

end Stepwise.Execution
