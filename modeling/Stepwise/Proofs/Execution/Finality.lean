import Stepwise.Proofs.Execution.Invariant

/-!
# Closed records

A record that is no longer running stays as it is, and at most one call has made it so, in every
schedule in which no cancellation writes a record that has ended since it was read; and in those
schedules only. The write of a cancellation does not look at the record again, so nothing in the
system excludes the others.
-/

namespace Stepwise.Execution

open Store

/-- What of a record is final once it has ended: its state, the time, the output, the error and the
log. -/
def finalFacts (row : ExecutionRow) :
    String × Option Instant × Value × Option String × Value :=
  (row.status, row.completed, row.output, row.error, row.log)

/-- How many cancellations have written the record, each of which reports that it did. -/
def writers (cancels : List Cancel) : Nat := cancels.countP (·.phase.hasWritten)

theorem writers_pos {cancels : List Cancel} : 0 < writers cancels ↔ Written cancels :=
  List.countP_pos_iff

theorem writers_set {cancels : List Cancel} {n : Nat} {c c' : Cancel}
    (h : cancels[n]? = some c) (hw : c'.phase.hasWritten = c.phase.hasWritten) :
    writers (cancels.set n c') = writers cancels := by
  obtain ⟨before, later, hold, hset⟩ := exists_split_set h
  rw [hset, hold]
  simp [writers, List.countP_append, List.countP_cons, hw]

theorem writers_set_succ {cancels : List Cancel} {n : Nat} {c c' : Cancel}
    (h : cancels[n]? = some c) (hc : c.phase.hasWritten = false)
    (hc' : c'.phase.hasWritten = true) :
    writers (cancels.set n c') = writers cancels + 1 := by
  obtain ⟨before, later, hold, hset⟩ := exists_split_set h
  rw [hset, hold]
  simp [writers, List.countP_append, hc, hc']
  omega

/-- The closing of an execution that reports success, counted. -/
def successes : Option (Closing × Bool) → Nat
  | some (.completed _ _, true) => 1
  | _ => 0

theorem successes_cases (closing : Option (Closing × Bool)) :
    successes closing = 0 ∨ successes closing = 1 ∧
      ∃ output log, closing = some (.completed output log, true) := by
  unfold successes
  split
  · exact .inr ⟨rfl, _, _, rfl⟩
  · exact .inl rfl

namespace World

variable {w : World} {a : Account}

/-- How many calls report that they made the record what it is: cancellations, and the execution
if it succeeded. -/
def winners (w : World) : Nat :=
  writers w.cancels + match w.outcome? with
    | some (.ok _) => 1
    | _ => 0

/-- The move is the write of a cancellation on a record that has ended since it was read. -/
def Overwrites (w : World) (e : Event) : Prop :=
  ∃ n c row, e = .advance n ∧ w.cancels[n]? = some c ∧ c.phase = .checked ∧
    w.row? = some row ∧ Ended row

/-- A record that has ended stays as it is, for as long as it is there. -/
def Frozen (w : World) (events : List Event) : Prop :=
  ∀ before between later, events = before ++ between ++ later →
    ∀ row row', (w.play before).row? = some row → Ended row →
      (w.play (before ++ between)).row? = some row' → finalFacts row' = finalFacts row

/-- No cancellation writes a record that has ended. -/
def Clean (w : World) (events : List Event) : Prop :=
  ∀ before e later, events = before ++ e :: later → ¬ (w.play before).Overwrites e

theorem Clean.tail {e : Event} {events : List Event} (h : w.Clean (e :: events)) :
    (w.step e).Clean events := by
  intro before e' later he
  exact h (e :: before) e' later (by rw [he, List.cons_append])

theorem Clean.drop {before events : List Event} (h : w.Clean (before ++ events)) :
    (w.play before).Clean events := by
  induction before generalizing w with
  | nil => exact h
  | cons e rest ih => exact ih h.tail

theorem Clean.take {events later : List Event} (h : w.Clean (events ++ later)) :
    w.Clean events := by
  intro before e rest he
  exact h before e (rest ++ later) (by rw [he, List.append_assoc, List.cons_append])

/-! ## Moves of cancellations -/

/-- A move of a cancellation writes no record, or the one that it has read as running. -/
theorem advance_cases (w : World) (n : Nat) :
    ((w.advance n).server.db = w.server.db ∧
        writers (w.advance n).cancels = writers w.cancels) ∨
      ∃ id c row, w.opened = some id ∧ w.cancels[n]? = some c ∧ c.phase = .checked ∧
        find? w.server.db.tables id = some row ∧
        (w.advance n).server.db.tables = commitCancel w.server.now id w.server.db.tables ∧
        writers (w.advance n).cancels = writers w.cancels + 1 := by
  unfold advance
  split
  · rename_i id c ho hc
    obtain ⟨controller, phase⟩ := c
    cases phase with
    | asked =>
      left
      dsimp only [Cancel.next]
      split
      · exact ⟨rfl, writers_set hc rfl⟩
      · exact ⟨rfl, writers_set hc rfl⟩
    | checked =>
      dsimp only [Cancel.next]
      split_ifs with hfound
      · exact .inl ⟨rfl, writers_set hc rfl⟩
      · rw [Option.isNone_iff_eq_none] at hfound
        obtain ⟨row, hrow⟩ := Option.ne_none_iff_exists'.mp hfound
        exact .inr ⟨id, _, row, ho, hc, rfl, hrow, rfl, writers_set_succ hc rfl rfl⟩
    | committed =>
      left
      exact ⟨w.server.signal_db controller id, writers_set hc rfl⟩
    | returned live => exact .inl ⟨rfl, writers_set hc rfl⟩
    | refused fault => exact .inl ⟨rfl, writers_set hc rfl⟩
    | lost => exact .inl ⟨rfl, writers_set hc rfl⟩
  · exact .inl ⟨rfl, rfl⟩

/-- A writer stays one. -/
theorem writers_step (w : World) (e : Event) : writers w.cancels ≤ writers (w.step e).cancels := by
  cases e with
  | run =>
    have hsame : writers w.run.cancels = writers w.cancels := by rw [cancels_run]
    exact Nat.le_of_eq hsame.symm
  | arrive controller =>
    obtain hstep | ⟨_, hstep⟩ := w.step_arrive controller
    · exact Nat.le_of_eq (by rw [hstep])
    · rw [hstep, writers, writers, List.countP_append]
      omega
  | advance n =>
    show _ ≤ writers (w.advance n).cancels
    obtain ⟨_, h⟩ | ⟨_, _, _, _, _, _, _, _, h⟩ := w.advance_cases n
    · omega
    · omega
  | tick now => exact Nat.le_refl _
  | delete workflow => exact Nat.le_refl _

theorem writers_play (w : World) (events : List Event) :
    writers w.cancels ≤ writers (w.play events).cancels := by
  induction events generalizing w with
  | nil => exact Nat.le_refl _
  | cons e rest ih => exact Nat.le_trans (w.writers_step e) (ih (w.step e))

/-! ## A record that has ended -/

/-- The execution itself changes no row that has ended. -/
theorem Sound.rowsOf_run (h : w.Sound a) {id : String} (hid : a.id = some id)
    (hrows : ∀ row ∈ rowsOf w.server.db.tables id, Ended row) :
    rowsOf w.run.server.db.tables id = rowsOf w.server.db.tables id := by
  cases hw : w.program with
  | done result => rw [run_of_done hw]
  | ask r next =>
    have hr := h.may hw
    rw [run_of_ask hw]
    cases r with
    | accept url payload signature => exact hr.elim
    | load workflow => rfl
    | start workflow input triggeredBy =>
      obtain rfl : a = .initial := hr
      cases hid
    | register id => rfl
    | withdraw id => rfl
    | close id' since c =>
      obtain rfl : id' = id := Option.some.inj (hr.1.symm.trans hid)
      show rowsOf (close since w.server.now id' c w.server.db.tables).2 id' = _
      rw [rowsOf_close]
      refine (List.map_congr_left fun row hrow => ?_).trans (List.map_id _)
      rw [(hrows row hrow).not_isOpen]
      rfl
    | run id' r => exact rowsOf_congr (w.server.respondRun_spec id' r).1 id

/-- The rows of the execution have ended, and only some of them are left after a move that does not
overwrite. -/
theorem Sound.rowsOf_step (h : w.Sound a) {id : String} (hid : a.id = some id)
    (hrows : ∀ row ∈ rowsOf w.server.db.tables id, Ended row) {e : Event}
    (he : ¬ w.Overwrites e) :
    (rowsOf (w.step e).server.db.tables id).Sublist (rowsOf w.server.db.tables id) := by
  cases e with
  | run =>
    show (rowsOf w.run.server.db.tables id).Sublist _
    rw [h.rowsOf_run hid hrows]
  | arrive controller =>
    obtain hstep | ⟨_, hstep⟩ := w.step_arrive controller
    · rw [hstep]
    · rw [hstep]
  | advance n =>
    show (rowsOf (w.advance n).server.db.tables id).Sublist _
    obtain ⟨hdb, _⟩ | ⟨id', c, row, ho, hc, hphase, hrow, _⟩ := w.advance_cases n
    · rw [hdb]
    · obtain rfl : id' = id := by
        rw [h.opened, hid] at ho
        exact (Option.some.inj ho).symm
      have hmem : row ∈ rowsOf w.server.db.tables id' := by
        rw [find?_eq_head?] at hrow
        exact List.mem_of_head? hrow
      exact absurd ⟨n, c, row, rfl, hc, hphase, by simp [row?, ho, hrow], hrows row hmem⟩ he
  | tick now => exact List.Sublist.refl _
  | delete workflow => exact rowsOf_delete w.server.db workflow id

/-- By induction on the schedule: what has ended stays, or is taken away. -/
theorem Sound.rowsOf_play (h : w.Sound a) {id : String} (hid : a.id = some id)
    (hrows : ∀ row ∈ rowsOf w.server.db.tables id, Ended row) {events : List Event}
    (hclean : w.Clean events) :
    (rowsOf (w.play events).server.db.tables id).Sublist (rowsOf w.server.db.tables id) := by
  induction events generalizing w a with
  | nil => exact List.Sublist.refl _
  | cons e rest ih =>
    have hstep := h.rowsOf_step hid hrows (hclean [] e rest rfl)
    obtain ⟨a', ha', hid'⟩ := h.step e
    have hrest := ih ha' (hid' id hid) (fun row hrow => hrows row (hstep.subset hrow)) hclean.tail
    exact hrest.trans hstep

/-! ## One writer -/

/-- A record that is not yet written by anyone is what a call writes in a move that does not
overwrite; so there is one such call at most. -/
theorem Sound.wins_step (h : w.Sound a) (hwins : writers w.cancels + successes a.closing ≤ 1)
    {e : Event} (he : ¬ w.Overwrites e) :
    ∃ a', (w.step e).Sound a' ∧
      writers (w.step e).cancels + successes a'.closing ≤ 1 := by
  cases e with
  | run =>
    show ∃ a', (World.run w).Sound a' ∧ writers (World.run w).cancels + successes a'.closing ≤ 1
    rw [cancels_run]
    cases hw : w.program with
    | done result =>
      rw [run_of_done hw]
      exact ⟨a, h, hwins⟩
    | ask r next =>
      refine ⟨_, h.run hw, ?_⟩
      obtain hzero | ⟨hone, output, log, hclosing⟩ :=
        successes_cases (a.after r (w.server.respond .main r).1).closing
      · omega
      · have hnot := mt writers_pos.mp (h.not_written_of_closed hw hclosing)
        omega
  | arrive controller =>
    refine ⟨a, h.arrive controller, ?_⟩
    obtain hstep | ⟨_, hstep⟩ := w.step_arrive controller
    · rw [hstep]
      exact hwins
    · rw [hstep, writers, List.countP_append]
      exact hwins
  | advance n =>
    refine ⟨a, h.advance n, ?_⟩
    show writers (w.advance n).cancels + _ ≤ 1
    obtain ⟨_, hsame⟩ | ⟨id, c, row, ho, hc, hphase, hrow, _, hmore⟩ := w.advance_cases n
    · omega
    · have hrow' : w.row? = some row := by simp [row?, ho, hrow]
      have hended : ¬ Ended row := fun hn => he ⟨n, c, row, rfl, hc, hphase, hrow', hn⟩
      obtain ⟨_, _, _, hrecorded⟩ := h.row?_eq_some hrow'
      obtain ⟨hclosing, hnot⟩ := hrecorded.of_not_ended hended
      have hzero : successes a.closing = 0 := by
        rw [hclosing]
        rfl
      have hnone := mt writers_pos.mp hnot
      omega
  | tick now => exact ⟨a, h.tick now, hwins⟩
  | delete workflow => exact ⟨a, h.delete workflow, hwins⟩

theorem Sound.wins_play (h : w.Sound a) (hwins : writers w.cancels + successes a.closing ≤ 1)
    {events : List Event} (hclean : w.Clean events) :
    ∃ a', (w.play events).Sound a' ∧
      writers (w.play events).cancels + successes a'.closing ≤ 1 := by
  induction events generalizing w a with
  | nil => exact ⟨a, h, hwins⟩
  | cons e rest ih =>
    obtain ⟨a', ha', hwins'⟩ := h.wins_step hwins (hclean [] e rest rfl)
    exact ih ha' hwins' hclean.tail

/-- A report of success tells of a closing in time. -/
theorem Sound.winners_le (h : w.Sound a) :
    w.winners ≤ writers w.cancels + successes a.closing := by
  unfold winners
  split
  · rename_i report hend
    have htells := h.keeps
    rw [outcome?_eq_some.mp hend] at htells
    obtain ⟨_, _, log, hclosing⟩ := htells
    rw [hclosing]
    exact Nat.le_refl _
  · omega

/-! ## The exact condition -/

theorem Sound.frozen (h : w.Sound a) {events : List Event} (hclean : w.Clean events) :
    w.Frozen events := by
  intro before between later he row row' hrow hended hrow'
  obtain ⟨b, hb, _⟩ := h.play before
  obtain ⟨id, hid, hrows, _⟩ := hb.row?_eq_some hrow
  have hbetween : (w.play before).Clean between := by
    rw [he] at hclean
    exact hclean.take.drop
  have hsub := hb.rowsOf_play hid (by simpa [hrows] using hended) hbetween
  rw [play_append] at hrow'
  obtain ⟨b', hb', hid'⟩ := hb.play between
  obtain ⟨id', hid'', hrows', _⟩ := hb'.row?_eq_some hrow'
  obtain rfl : id = id' := Option.some.inj ((hid' id hid).symm.trans hid'')
  rw [hrows, hrows', List.sublist_singleton] at hsub
  obtain hnil | hone := hsub
  · cases hnil
  · rw [(List.cons.inj hone).1]

/-- A write on a record that has ended makes it cancelled, and adds to the writers. -/
theorem Sound.overwritten (h : w.Sound a) {e : Event} (he : w.Overwrites e) :
    ∃ row row', w.row? = some row ∧ Ended row ∧ (w.step e).row? = some row' ∧
      row'.status = Status.cancelled.name ∧
      writers (w.step e).cancels = writers w.cancels + 1 := by
  obtain ⟨n, c, row, rfl, hc, hphase, hrow, hended⟩ := he
  obtain ⟨id, hid, hrows, _⟩ := h.row?_eq_some hrow
  have ho : w.opened = some id := h.opened.trans hid
  have hfound : find? w.server.db.tables id = some row := by
    rw [find?_eq_head?, hrows]
    rfl
  have hstep : w.step (.advance n) = { w with
      server := { w.server with db := { w.server.db with
        tables := commitCancel w.server.now id w.server.db.tables } }
      cancels := w.cancels.set n { c with phase := .committed } } := by
    show w.advance n = _
    rw [World.advance, ho, hc]
    simp [Cancel.next, hphase, hfound]
  refine ⟨row, Execution.cancelled w.server.now row, hrow, hended, ?_, rfl, ?_⟩
  · rw [hstep, row?, ho]
    show find? (commitCancel w.server.now id w.server.db.tables) id = _
    rw [find?_eq_head?, rowsOf_commitCancel, hrows]
    rfl
  · rw [hstep]
    exact writers_set_succ hc (by rw [hphase]; rfl) rfl

/-- If the record stays what it was and one call at most reports that it made it so, then no
cancellation has written a record that had ended. -/
theorem Sound.clean (h : w.Sound a) {events : List Event} (hfrozen : w.Frozen events)
    (hone : (w.play events).winners ≤ 1) : w.Clean events := by
  intro before e later he hover
  obtain ⟨b, hb, _⟩ := h.play before
  obtain ⟨row, row', hrow, hended, hrow', hstatus, hmore⟩ := hb.overwritten hover
  have hsplit : events = before ++ [e] ++ later := by simp [he]
  have hfacts := hfrozen before [e] later hsplit row row' hrow hended
    (by rw [play_append]; exact hrow')
  have hcancelled : row.status = Status.cancelled.name :=
    (congrArg Prod.fst hfacts).symm.trans hstatus
  obtain ⟨_, _, _, hrecorded⟩ := hb.row?_eq_some hrow
  have hpos := writers_pos.mpr (hrecorded.written_of_cancelled hcancelled)
  have hlater := writers_play ((w.play before).step e) later
  have hplay : w.play events = ((w.play before).step e).play later := by
    rw [he, play_append, play_cons]
  rw [← hplay] at hlater
  have hle : writers (w.play events).cancels ≤ (w.play events).winners := Nat.le_add_right _ _
  omega

end World

/-- A record that has ended keeps its state, its time, its output, its error and its log, and one
call at most reports that it ended it, in exactly those schedules in which no cancellation writes a
record that has ended since it was read. -/
theorem record_final_iff (db : Database) (now : Instant) (rules : Rules)
    (script : List Outbound.Scripted) (workflow : String) (input : Value)
    (triggeredBy : Option String) (events : List Event) :
    (World.begin db now rules script workflow input triggeredBy).Frozen events ∧
        ((World.begin db now rules script workflow input triggeredBy).play events).winners ≤ 1 ↔
      (World.begin db now rules script workflow input triggeredBy).Clean events := by
  have h := World.sound_begin db now rules script workflow input triggeredBy
  constructor
  · rintro ⟨hfrozen, hone⟩
    exact h.clean hfrozen hone
  · intro hclean
    obtain ⟨a, ha, hwins⟩ := h.wins_play (Nat.zero_le 1) hclean
    exact ⟨h.frozen hclean, Nat.le_trans ha.winners_le hwins⟩

/-- A cancellation reads the record while the first step waits for the answer to its call, and then
the execution goes on to its end. -/
def readWhileCalling : List Event :=
  List.replicate 4 .run ++ [.arrive .main, .advance 0] ++ List.replicate 4 .run

/-- The cancellation writes the record that was completed since: the record changes, and both the
execution and the cancellation report that they ended it. -/
theorem record_rewritten :
    ¬ (World.calling []).Frozen (readWhileCalling ++ [.advance 0]) ∧
      ((World.calling []).play (readWhileCalling ++ [.advance 0])).winners = 2 := by
  have hbefore : ((World.calling []).play readWhileCalling).row?.map (·.status) =
      some Status.completed.name := by
    decide +kernel
  have hafter : ((World.calling []).play (readWhileCalling ++ [.advance 0])).row?.map (·.status) =
      some Status.cancelled.name := by
    decide +kernel
  constructor
  · intro hfrozen
    obtain ⟨row, hrow, hs⟩ := Option.map_eq_some_iff.mp hbefore
    obtain ⟨row', hrow', hs'⟩ := Option.map_eq_some_iff.mp hafter
    have hfacts := hfrozen readWhileCalling [.advance 0] [] (List.append_nil _).symm row row' hrow
      ⟨.completed, rfl, hs⟩ hrow'
    have hstatus : row'.status = row.status := congrArg Prod.fst hfacts
    rw [hs, hs'] at hstatus
    exact absurd hstatus (by decide)
  · decide +kernel

end Stepwise.Execution
