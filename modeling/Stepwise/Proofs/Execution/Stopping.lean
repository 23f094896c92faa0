import Stepwise.Proofs.Execution.Invariant

/-!
# Stopping a run

A cancellation that has found the execution stops it: no step starts after it, and nothing is begun.
A cancellation that looks the execution up before it has registered finds nothing and stops nothing,
although it returns like any other.
-/

namespace Stepwise.Execution

open Store

/-- Some cancellation has returned. -/
def Returned (cancels : List Cancel) : Prop := ∃ c ∈ cancels, ∃ live, c.phase = .returned live

namespace World

variable {w : World} {a : Account}

/-- The execution looks for a cancellation before a step. The look after the last step, which is
followed by the withdrawal, is none of these. -/
def AtStep (w : World) : Prop :=
  ∃ id next, w.program = .ask (.run id .cancelled) next ∧
    ∀ after, next false ≠ .ask (.withdraw id) after

/-- The next move of the execution starts a step: it looks before the step, and finds nothing. -/
def Starts (w : World) : Prop :=
  ∃ id next, w.program = .ask (.run id .cancelled) next ∧
    (∀ after, next false ≠ .ask (.withdraw id) after) ∧
    (w.server.respond .main (.run id .cancelled)).1 = false

/-- The execution waits for an effect: a call, or an operation of the store. -/
def isAtEffect (w : World) : Bool :=
  match w.program with
  | .ask (.run _ r) _ => r.isEffect
  | _ => false

/-- The next move of the execution begins an effect. -/
def Begins (w : World) : Prop := w.run.isAtEffect = true

theorem isAtEffect_eq_true {w : World} :
    w.isAtEffect = true ↔ ∃ id r next, w.program = .ask (.run id r) next ∧ r.isEffect = true := by
  unfold isAtEffect
  constructor
  · intro h
    split at h
    · rename_i id r next hw
      exact ⟨id, r, next, hw, h⟩
    · cases h
  · rintro ⟨id, r, next, hw, h⟩
    rw [hw]
    exact h

/-- What a look finds. -/
theorem Sound.look_iff (h : w.Sound a) {id : String}
    {next : Bool → Activity (Except Fault Report)}
    (hw : w.program = .ask (.run id .cancelled) next) :
    (w.server.respond .main (.run id .cancelled)).1 = false ↔ ¬ Signalled w.cancels := by
  have hid : a.id = some id := (h.may hw).1
  have hmem := h.signalled id
  show w.server.signalled.contains id = false ↔ _
  rw [List.contains_eq_mem, decide_eq_false_iff_not, hmem]
  simp [hid]

/-- A step starts where no cancellation has found the execution. -/
theorem Sound.starts_iff (h : w.Sound a) : w.Starts ↔ w.AtStep ∧ ¬ Signalled w.cancels := by
  constructor
  · rintro ⟨id, next, hw, hstep, hfalse⟩
    exact ⟨⟨id, next, hw, hstep⟩, (h.look_iff hw).mp hfalse⟩
  · rintro ⟨⟨id, next, hw, hstep⟩, hnot⟩
    exact ⟨id, next, hw, hstep, (h.look_iff hw).mpr hnot⟩

/-- An effect follows a look that has found nothing, and a reading of the clock at most. -/
theorem Sound.look_of_free (h : w.Sound a) {r : Request}
    {next : r.Answer → Activity (Except Fault Report)} (hw : w.program = .ask r next)
    {id : String} {r' : Run.Request} (he : r'.isEffect = true)
    (hr : (a.after r (w.server.respond .main r).1).May (.run id r')) :
    r = .run id .cancelled ∧ (w.server.respond .main (.run id .cancelled)).1 = false := by
  have hmay := h.may hw
  obtain ⟨hid, hreachable, hclosing, hfree⟩ := hr
  have hfree := hfree he
  cases r with
  | accept url payload signature => exact hmay.elim
  | load workflow =>
    obtain rfl : a = .initial := hmay
    cases hid
  | start workflow input triggeredBy =>
    obtain rfl : a = .initial := hmay
    cases hfree
  | register id' => exact absurd hfree (by simp [Account.after, hmay.2.2.2])
  | withdraw id' => cases hreachable
  | close id' since closing => cases hclosing
  | run id' r =>
    obtain rfl : id' = id := Option.some.inj (hmay.1.symm.trans hid)
    cases r with
    | now => exact absurd hw (h.settled id' next)
    | cancelled =>
      have hnone : (!(w.server.respond .main (.run id' .cancelled)).1) = true := hfree
      exact ⟨rfl, Bool.not_eq_true' _ ▸ hnone⟩
    | wait micros => cases hfree
    | send call => cases hfree
    | createTask fields => cases hfree
    | updateTask task fields => cases hfree
    | deleteTask task => cases hfree
    | notify user title message => cases hfree

/-- An effect is begun only as a step starts. -/
theorem Sound.starts_of_begins (h : w.Sound a) (hb : w.Begins) : w.Starts := by
  obtain ⟨id, r', next', hnext, he⟩ := isAtEffect_eq_true.mp hb
  cases hw : w.program with
  | done result =>
    rw [run_of_done hw, hw] at hnext
    cases hnext
  | ask r next =>
    have hmay := (h.run hw).may hnext
    obtain ⟨rfl, hfalse⟩ := h.look_of_free hw he hmay
    refine ⟨id, next, hw, fun after hafter => ?_, hfalse⟩
    rw [run_of_ask hw, hfalse] at hnext
    change readClock _ (next false) = _ at hnext
    rw [hafter] at hnext
    cases hnext

/-- A cancellation that has found the execution has found it for good. -/
theorem signalled_step (w : World) (e : Event) (h : Signalled w.cancels) :
    Signalled (w.step e).cancels := by
  cases e with
  | run =>
    show Signalled w.run.cancels
    rwa [cancels_run]
  | arrive controller =>
    obtain hstep | ⟨_, hstep⟩ := w.step_arrive controller
    · rw [hstep]
      exact h
    · obtain ⟨c, hc, hphase⟩ := h
      rw [hstep]
      exact ⟨c, List.mem_append_left _ hc, hphase⟩
  | advance n =>
    show Signalled (w.advance n).cancels
    unfold advance
    split
    · rename_i id c _ hc
      obtain ⟨before, later, hold, hset⟩ := exists_split_set hc
      obtain ⟨c', hc', hphase⟩ := h
      rw [hold, List.mem_append, List.mem_cons] at hc'
      show Signalled (w.cancels.set n { c with phase := (c.next id w.server).1 })
      rw [hset]
      rcases hc' with hbefore | rfl | hlater
      · exact ⟨c', by simp [hbefore], hphase⟩
      · exact ⟨_, List.mem_append_right _ List.mem_cons_self,
          c'.next_of_returned hphase id w.server⟩
      · exact ⟨c', by simp [hlater], hphase⟩
    · exact h
  | tick now => exact h
  | delete workflow => exact h

theorem signalled_play (w : World) (events : List Event) (h : Signalled w.cancels) :
    Signalled (w.play events).cancels := by
  induction events generalizing w with
  | nil => exact h
  | cons e rest ih => exact ih (w.step e) (w.signalled_step e h)

end World

/-- A cancellation that has returned stops the run, in that no later move of the execution starts a
step or begins an effect, in exactly those schedules in which some cancellation has found the
execution whenever it comes to a step after one has returned. And once a cancellation has found it,
nothing starts and nothing begins, whatever comes. -/
theorem returned_stops_iff (db : Database) (now : Instant) (rules : Rules)
    (script : List Outbound.Scripted) (workflow : String) (input : Value)
    (triggeredBy : Option String) (events : List Event) :
    let w := World.begin db now rules script workflow input triggeredBy
    ((∀ before later, events = before ++ .run :: later → Returned (w.play before).cancels →
        ¬ (w.play before).Starts ∧ ¬ (w.play before).Begins) ↔
      ∀ before later, events = before ++ .run :: later → Returned (w.play before).cancels →
        (w.play before).AtStep → Signalled (w.play before).cancels) ∧
    (Signalled (w.play events).cancels → ∀ later,
      ¬ (w.play (events ++ later)).Starts ∧ ¬ (w.play (events ++ later)).Begins) := by
  intro w
  have h : w.Sound .initial :=
    World.sound_begin db now rules script workflow input triggeredBy
  constructor
  · constructor
    · intro hstops before later he hreturned hstep
      by_contra hnot
      obtain ⟨a, ha, _⟩ := h.play before
      exact (hstops before later he hreturned).1 (ha.starts_iff.mpr ⟨hstep, hnot⟩)
    · intro hfound before later he hreturned
      obtain ⟨a, ha, _⟩ := h.play before
      have hnot : ¬ (w.play before).Starts := by
        intro hstarts
        obtain ⟨hstep, hnone⟩ := ha.starts_iff.mp hstarts
        exact hnone (hfound before later he hreturned hstep)
      exact ⟨hnot, fun hbegins => hnot (ha.starts_of_begins hbegins)⟩
  · intro hsignalled later
    obtain ⟨a, ha, _⟩ := h.play (events ++ later)
    have hlater : Signalled (w.play (events ++ later)).cancels := by
      rw [World.play_append]
      exact World.signalled_play _ later hsignalled
    have hnot : ¬ (w.play (events ++ later)).Starts :=
      fun hstarts => (ha.starts_iff.mp hstarts).2 hlater
    exact ⟨hnot, fun hbegins => hnot (ha.starts_of_begins hbegins)⟩

/-- A cancellation is made between the opening of the record and the registration. -/
def beforeRegistration : List Event :=
  [.run, .run, .arrive .main, .advance 0, .advance 0, .advance 0, .run]

/-- It returns, but the first step starts after it, and its call begins. -/
theorem returned_does_not_stop :
    Returned ((World.calling []).play beforeRegistration).cancels ∧
      ((World.calling []).play beforeRegistration).Starts ∧
      ((World.calling []).play beforeRegistration).Begins := by
  have hreturned : ((World.calling []).play beforeRegistration).cancels.any
      (fun c => c.phase matches .returned _) = true := by
    decide +kernel
  have hbegins : ((World.calling []).play beforeRegistration).Begins := by
    show ((World.calling []).play beforeRegistration).run.isAtEffect = true
    decide +kernel
  obtain ⟨a, ha, _⟩ := (World.sound_begin _ _ _ _ _ _ _).play beforeRegistration
  refine ⟨?_, ha.starts_of_begins hbegins, hbegins⟩
  obtain ⟨c, hc, hphase⟩ := List.any_eq_true.mp hreturned
  refine ⟨c, hc, ?_⟩
  split at hphase
  · exact ⟨_, ‹_›⟩
  · cases hphase

end Stepwise.Execution
