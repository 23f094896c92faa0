import Stepwise.Proofs.Execution.Likeness

/-!
# Executions side by side do not interfere

Any number of executions on one server, with their cancellations, move in any order: at every turn
one of them has a request answered, or one of its cancellations moves on. One that has come to an
outbound call or a delay stays there while others have turns. Each gets outbound answers of its own.
An execution whose workflow has no step that changes tasks then reports and records the same as if
it were alone on the server, with the same turns of its own and the clock set at the same moments;
so a cancellation of one execution shows in no other. The single exception are ids: the others draw
some too, and an id that was drawn for a notification is quoted if the database refuses it.
-/

namespace Stepwise.Execution

open Store

/-- What is to be executed, with the outbound answers that it will get. -/
structure Order where
  workflow : String
  input : Value
  triggeredBy : Option String
  script : List Outbound.Scripted

/-- One of the executions on a server. -/
structure Member where
  program : Activity (Except Fault Report)
  /-- The id of its record, once there is one. -/
  opened : Option String
  cancels : List Cancel
  /-- The outbound answers that are left for it. -/
  script : List Outbound.Scripted

/-- The world of an execution on a server that it shares. -/
def Member.on (m : Member) (s : Server) : World :=
  ⟨{ s with script := m.script }, m.program, m.opened, m.cancels⟩

/-- What belongs to the execution of a world alone. -/
def World.member (w : World) : Member := ⟨w.program, w.opened, w.cancels, w.server.script⟩

/-- A server with executions. The outbound answers are kept with the executions. -/
structure Crowd where
  server : Server
  members : List Member

/-- A turn of an execution or of a cancellation of it. -/
inductive Turn
  /-- The execution has its request answered. -/
  | run
  /-- Someone asks for its cancellation. -/
  | arrive (controller : Controller)
  /-- One of its cancellations moves on. -/
  | advance (n : Nat)

/-- The turn as a move in the world of the execution. -/
def Turn.event : Turn → Event
  | .run => .run
  | .arrive controller => .arrive controller
  | .advance n => .advance n

/-- The turn is one of a cancellation. -/
def Turn.isCancel : Turn → Bool
  | .run => false
  | .arrive _ | .advance _ => true

/-- A move of the executions on a server. -/
inductive Bustle
  /-- The execution of a number has a turn. -/
  | turn (n : Nat) (t : Turn)
  /-- Time passes. -/
  | tick (now : Instant)

/-- What a move is to the execution of a number. -/
def Bustle.event? (n : Nat) : Bustle → Option Event
  | .turn m t => if m = n then some t.event else none
  | .tick now => some (.tick now)

theorem Bustle.event?_turn (n : Nat) (t : Turn) : event? n (.turn n t) = some t.event := if_pos rfl

theorem Bustle.event?_turn_of_ne {m n : Nat} (h : m ≠ n) (t : Turn) :
    event? n (.turn m t) = none := if_neg h

theorem Bustle.event?_tick (n : Nat) (now : Instant) :
    event? n (.tick now) = some (.tick now) := rfl

/-- The move belongs to a cancellation of the execution of a number. -/
def Bustle.cancels (n : Nat) : Bustle → Bool
  | .turn m t => m == n && t.isCancel
  | .tick _ => false

/-- An order that is carried out by an execution alone on a server. -/
def Order.alone (o : Order) (db : Database) (now : Instant) (rules : Rules) : World :=
  .begin db now rules o.script o.workflow o.input o.triggeredBy

namespace Crowd

/-- One move. -/
def step (c : Crowd) : Bustle → Crowd
  | .turn n t =>
    match c.members[n]? with
    | none => c
    | some m =>
      let w := (m.on c.server).step t.event
      ⟨w.server, c.members.set n w.member⟩
  | .tick now => { c with server := { c.server with now } }

/-- Moves one after the other. -/
def play (c : Crowd) (moves : List Bustle) : Crowd := moves.foldl step c

/-- Orders that are to be carried out on a server that runs nothing else. -/
def begin (db : Database) (now : Instant) (rules : Rules) (orders : List Order) : Crowd where
  server := { Server.fresh rules [] with db, now }
  members := orders.map fun o => (o.alone db now rules).member

/-- The world of the execution of a number. -/
def world? (c : Crowd) (n : Nat) : Option World := c.members[n]?.map (·.on c.server)

/-- What the execution of a number has reported, if it has ended. -/
def outcome? (c : Crowd) (n : Nat) : Option (Except Fault Report) :=
  (c.world? n).bind World.outcome?

/-- The record of the execution of a number. -/
def row? (c : Crowd) (n : Nat) : Option ExecutionRow := (c.world? n).bind World.row?

variable {c : Crowd} {n : Nat}

theorem step_of_some {m : Member} (hm : c.members[n]? = some m) (t : Turn) :
    c.step (.turn n t) = ⟨((m.on c.server).step t.event).server,
      c.members.set n ((m.on c.server).step t.event).member⟩ := by
  rw [step, hm]

theorem step_of_none (hm : c.members[n]? = none) (t : Turn) : c.step (.turn n t) = c := by
  rw [step, hm]

end Crowd

/-! ## What a turn leaves alone -/

/-- A world in which ids are in order and the execution keeps to its conduct. -/
structure World.Proper (w : World) : Prop where
  orderly : w.server.Orderly
  keeps : ∃ a, w.program.Keeps conduct Account.Tells a ∧ a.id = w.opened
  drawn : ∀ id, w.opened = some id → w.server.db.supply.Drawn id

/-- Between two worlds nothing was changed that concerns other executions. -/
structure World.Discreet (w w' : World) : Prop where
  outlook : w'.server.outlook = w.server.outlook
  supply : w.server.db.supply.row ≤ w'.server.db.supply.row
  /-- What concerns another id is the same. -/
  standing : ∀ id, w.server.db.supply.Drawn id → w.opened ≠ some id →
    w'.server.standing id = w.server.standing id
  /-- A new id was not drawn before. -/
  opened : ∀ id, w'.opened = some id → w.opened = some id ∨ ¬ w.server.db.supply.Drawn id

namespace World

variable {w : World}

theorem Discreet.refl (w : World) : w.Discreet w :=
  ⟨rfl, Nat.le_refl _, fun _ _ _ => rfl, fun _ h => .inl h⟩

/-- The id of a record that is opened was not drawn before, and is drawn then. -/
theorem new_id_respond (h : w.server.Orderly) {r : Request} {id : String}
    (hid : r.opens (w.server.respond .main r).1 = some id) :
    ¬ w.server.db.supply.Drawn id ∧ (w.server.respond .main r).2.db.supply.Drawn id := by
  cases r with
  | start workflow input triggeredBy =>
    by_cases hinput : Json.isShort input = true
    · rw [h.numbered.answer_start .main workflow hinput] at hid
      obtain rfl := Option.some.inj hid
      exact ⟨w.server.db.supply.not_drawn_next, h.numbered.drawn_start .main _ hinput _⟩
    · rw [Server.respond_start_of_long .main hinput] at hid
      cases hid
  | _ => cases hid

theorem Proper.run (h : w.Proper) : w.run.Proper ∧ w.Discreet w.run := by
  obtain ⟨a, hkeeps, ha⟩ := h.keeps
  cases hw : w.program with
  | done result =>
    rw [run_of_done hw]
    exact ⟨h, .refl w⟩
  | ask r next =>
    rw [hw] at hkeeps
    obtain ⟨hmay, hnext⟩ := hkeeps
    have hrow := (w.server.supply_respond .main r).row
    have hregister (id : String) (hr : r = .register id) : w.server.db.supply.Drawn id := by
      subst hr
      exact h.drawn id (ha.symm.trans hmay.1)
    rw [run_of_ask hw]
    refine ⟨⟨h.orderly.respond .main hregister, ?_, fun id hid => ?_⟩,
      w.server.outlook_respond .main r, hrow, fun id hid hne => ?_, fun id hid => ?_⟩
    · refine ⟨_, keeps_readClock _ (hnext _ (w.server.fair_respond hmay)), ?_⟩
      rw [← ha]
      exact Account.id_after hmay _
    · obtain hnew | ⟨_, hold⟩ := Option.or_eq_some_iff.mp hid
      · exact (new_id_respond h.orderly hnew).2
      · exact (h.drawn id hold).mono hrow
    · exact Server.standing_respond_of_ne hmay h.orderly.numbered hid (ha.symm ▸ hne)
    · obtain hnew | ⟨_, hold⟩ := Option.or_eq_some_iff.mp hid
      · exact .inr (new_id_respond h.orderly hnew).1
      · exact .inl hold

theorem Proper.advance (h : w.Proper) (n : Nat) :
    (w.advance n).Proper ∧ w.Discreet (w.advance n) := by
  cases hc : w.cancels[n]? with
  | none =>
    rw [advance_of_none hc]
    exact ⟨h, .refl w⟩
  | some c =>
    cases hopened : w.opened with
    | none =>
      rw [advance_of_unopened hopened]
      exact ⟨h, .refl w⟩
    | some id =>
      have hsupply := Server.supply_next c id w.server
      rw [advance_of_some hopened hc]
      refine ⟨⟨h.orderly.next c id, h.keeps, fun id' hid' => ?_⟩, Server.outlook_next c id w.server,
        ?_, fun id' _ hne => ?_, fun id' hid' => .inl hid'⟩
      · rw [hsupply]
        exact h.drawn id' hid'
      · rw [hsupply]
      · exact Server.standing_next_of_ne c w.server fun heq => hne (heq ▸ hopened)

/-- A turn keeps the world proper, and leaves alone what concerns other executions. -/
theorem Proper.turn (h : w.Proper) (t : Turn) :
    (w.step t.event).Proper ∧ w.Discreet (w.step t.event) := by
  cases t with
  | run => exact h.run
  | arrive controller =>
    obtain heq | ⟨_, heq⟩ := w.step_arrive controller
    · rw [Turn.event, heq]
      exact ⟨h, .refl w⟩
    · rw [Turn.event, heq]
      exact ⟨⟨h.orderly, h.keeps, h.drawn⟩, rfl, Nat.le_refl _, fun _ _ _ => rfl,
        fun _ hid => .inl hid⟩
  | advance n => exact h.advance n

end World

/-! ## Executions that share a server -/

namespace Crowd

variable {c : Crowd} {n : Nat}

/-- The executions of a crowd have different ids, and each keeps to its conduct. -/
structure Sound (c : Crowd) : Prop where
  orderly : c.server.Orderly
  proper : ∀ m ∈ c.members, (m.on c.server).Proper
  /-- No two executions have one id. -/
  apart : ∀ (i j : Nat) (m m' : Member) (id : String), c.members[i]? = some m →
    c.members[j]? = some m' → m.opened = some id → m'.opened = some id → i = j

/-- The world of a member that does not move stays proper. -/
theorem proper_on {m : Member} {s s' : Server} (h : (m.on s).Proper) (ho : s'.Orderly)
    (hrow : s.db.supply.row ≤ s'.db.supply.row) : (m.on s').Proper :=
  ⟨⟨ho.numbered, ho.notified, ho.registered, ho.signalled⟩, h.keeps,
    fun id hid => (h.drawn id hid).mono hrow⟩

theorem getElem?_set_cases {members : List Member} {m m' : Member} {i : Nat}
    (h : (members.set n m')[i]? = some m) : i = n ∧ m = m' ∨ i ≠ n ∧ members[i]? = some m := by
  by_cases hi : n = i
  · subst hi
    obtain ⟨hn, heq⟩ := List.getElem?_eq_some_iff.mp h
    rw [List.getElem_set_self] at heq
    exact .inl ⟨rfl, heq.symm⟩
  · rw [List.getElem?_set_ne hi] at h
    exact .inr ⟨Ne.symm hi, h⟩

/-- After a turn the executions still have different ids: the one that has moved may have a new one,
which no other has. -/
theorem Sound.turn (h : c.Sound) (n : Nat) (t : Turn) : (c.step (.turn n t)).Sound := by
  cases hm : c.members[n]? with
  | none =>
    rw [step_of_none hm]
    exact h
  | some m =>
    have hold := h.proper m (List.mem_of_getElem? hm)
    obtain ⟨hproper, hdiscreet⟩ := hold.turn t
    rw [step_of_some hm]
    generalize (m.on c.server).step t.event = w at hproper hdiscreet
    have hother {j : Nat} {m' : Member} {id : String} (hj : c.members[j]? = some m')
        (hne : j ≠ n) (hid : m'.opened = some id) : w.opened ≠ some id := by
      intro hw
      have hdrawn := (h.proper m' (List.mem_of_getElem? hj)).drawn id hid
      obtain hsame | hnew := hdiscreet.opened id hw
      · exact hne (h.apart j n m' m id hj hm hid hsame)
      · exact hnew hdrawn
    refine ⟨hproper.orderly, fun m' hm' => ?_, fun i j m₁ m₂ id hi hj hid₁ hid₂ => ?_⟩
    · obtain hmem | rfl := List.mem_or_eq_of_mem_set hm'
      · exact proper_on (h.proper m' hmem) hproper.orderly hdiscreet.supply
      · exact hproper
    · obtain ⟨rfl, rfl⟩ | ⟨hin, hi'⟩ := getElem?_set_cases hi
      · obtain ⟨rfl, rfl⟩ | ⟨hjn, hj'⟩ := getElem?_set_cases hj
        · rfl
        · exact absurd hid₁ (hother hj' hjn hid₂)
      · obtain ⟨rfl, rfl⟩ | ⟨hjn, hj'⟩ := getElem?_set_cases hj
        · exact absurd hid₂ (hother hi' hin hid₁)
        · exact h.apart i j m₁ m₂ id hi' hj' hid₁ hid₂

theorem Sound.step (h : c.Sound) (move : Bustle) : (c.step move).Sound := by
  cases move with
  | turn n t => exact h.turn n t
  | tick now =>
    exact ⟨h.orderly.tick now, fun m hm => proper_on (h.proper m hm) (h.orderly.tick now)
      (Nat.le_refl _), h.apart⟩

/-- The execution of a number has come as far as the one of a world, and is the same but for its
id. -/
def Follows (c : Crowd) (n : Nat) (alone : World) : Prop :=
  ∃ w, c.world? n = some w ∧ w.Twins alone

theorem world?_eq_some {w : World} (h : c.world? n = some w) :
    ∃ m, c.members[n]? = some m ∧ w = m.on c.server := by
  obtain ⟨m, hm, hw⟩ := Option.map_eq_some_iff.mp h
  exact ⟨m, hm, hw.symm⟩

/-- A turn of the execution itself is one of the execution that is alone. -/
theorem Follows.own {alone : World} (h : c.Follows n alone) (t : Turn) :
    (c.step (.turn n t)).Follows n (alone.step t.event) := by
  obtain ⟨w, hw, htwins⟩ := h
  obtain ⟨m, hm, rfl⟩ := world?_eq_some hw
  obtain ⟨hn, _⟩ := List.getElem?_eq_some_iff.mp hm
  refine ⟨(m.on c.server).step t.event, ?_, htwins.step fun workflow => ?_⟩
  · rw [step_of_some hm, world?, List.getElem?_set_self hn]
    rfl
  · cases t <;> nofun

/-- A turn of another execution changes nothing that concerns an execution. -/
theorem Sound.unmoved (hc : c.Sound) {w : World} (hw : c.world? n = some w) {k : Nat} (hk : k ≠ n)
    (t : Turn) : ∃ server, (c.step (.turn k t)).world? n = some { w with server } ∧
      w.Unmoved server := by
  obtain ⟨m, hm, rfl⟩ := world?_eq_some hw
  have hproper := hc.proper m (List.mem_of_getElem? hm)
  cases hmoves : c.members[k]? with
  | none =>
    rw [step_of_none hmoves]
    exact ⟨_, hw, hproper.orderly, rfl, rfl, Nat.le_refl _, fun _ _ => rfl⟩
  | some mover =>
    obtain ⟨hmoved, hdiscreet⟩ := (hc.proper mover (List.mem_of_getElem? hmoves)).turn t
    rw [step_of_some hmoves]
    generalize (mover.on c.server).step t.event = after at hmoved hdiscreet
    refine ⟨{ after.server with script := m.script }, ?_, ?_⟩
    · rw [world?, List.getElem?_set_ne hk, hm]
      rfl
    · refine ⟨(proper_on hproper hmoved.orderly hdiscreet.supply).orderly, hdiscreet.outlook, rfl,
        hdiscreet.supply, fun id hid => ?_⟩
      refine hdiscreet.standing id (hproper.drawn id hid) ?_
      exact fun hmover => hk (hc.apart k n mover m id hmoves hm hmover hid)

/-- A turn of another execution does not show. -/
theorem Follows.other (hc : c.Sound) {alone : World} (h : c.Follows n alone) {k : Nat}
    (hk : k ≠ n) (t : Turn) : (c.step (.turn k t)).Follows n alone := by
  obtain ⟨w, hw, htwins⟩ := h
  obtain ⟨server, hserver, hunmoved⟩ := hc.unmoved hw hk t
  exact ⟨_, hserver, htwins.overlook hunmoved⟩

theorem Follows.tick {alone : World} (h : c.Follows n alone) (now : Instant) :
    (c.step (.tick now)).Follows n (alone.step (.tick now)) := by
  obtain ⟨w, hw, htwins⟩ := h
  obtain ⟨m, hm, rfl⟩ := world?_eq_some hw
  refine ⟨m.on { c.server with now }, ?_, htwins.step (e := .tick now) nofun⟩
  exact congrArg (Option.map _) hm

/-- By induction on the moves: the execution that is alone makes those that it sees. -/
theorem Follows.play (hc : c.Sound) {alone : World} (h : c.Follows n alone)
    (moves : List Bustle) :
    (c.play moves).Follows n (alone.play (moves.filterMap (Bustle.event? n))) := by
  induction moves generalizing c alone with
  | nil => exact h
  | cons move rest ih =>
    have hnext := hc.step move
    cases move with
    | turn k t =>
      by_cases hk : k = n
      · subst hk
        rw [List.filterMap_cons_some (Bustle.event?_turn k t)]
        exact ih hnext (h.own t)
      · rw [List.filterMap_cons_none (Bustle.event?_turn_of_ne hk t)]
        exact ih hnext (h.other hc hk t)
    | tick now =>
      rw [List.filterMap_cons_some (Bustle.event?_tick n now)]
      exact ih hnext (h.tick now)

/-! ## From the beginning -/

/-- On a server that is used ids are in order. -/
theorem orderly_begin (rules : Rules) (script : List Outbound.Scripted)
    (operations : List Operation) (now : Instant) (left : List Outbound.Scripted) :
    ({ Server.fresh rules left with
      db := ((Server.fresh rules script).play operations).db, now } : Server).Orderly where
  numbered := (Server.play_induction (Server.numbered_fresh rules script)
    (fun _ op h => h.step op) operations : Server.Numbered _)
  notified := (Server.play_induction (Server.notified_fresh rules script)
    (fun _ op h => h.step op) operations : Server.Notified _)
  registered := nofun
  signalled := nofun

theorem sound_begin {db : Database} {now : Instant} {rules : Rules} (orders : List Order)
    (h : ∀ left, ({ Server.fresh rules left with db, now } : Server).Orderly) :
    (begin db now rules orders).Sound where
  orderly := h []
  proper := by
    intro m hm
    obtain ⟨o, _, rfl⟩ := List.mem_map.mp hm
    exact ⟨h o.script, ⟨_, keeps_execute rules o.workflow o.input o.triggeredBy, rfl⟩, nofun⟩
  apart := by
    intro i j m m' id hi _ hid
    obtain ⟨o, _, rfl⟩ := List.mem_map.mp (List.mem_of_getElem? hi)
    cases hid

/-- An execution of the workflow goes through no step that changes tasks. -/
def LeavesTasks (db : Database) (workflow : String) : Prop :=
  ∀ tree, planned (Workflow.get? db.tables workflow) = .ok tree →
    ∀ step ∈ tree.steps, step.changesTasks = false

instance (db : Database) (workflow : String) : Decidable (LeavesTasks db workflow) :=
  decidable_of_iff (∀ tree ∈ (planned (Workflow.get? db.tables workflow)).toOption.toList,
    ∀ step ∈ tree.steps, step.changesTasks = false) (by
      unfold LeavesTasks
      cases planned (Workflow.get? db.tables workflow) <;> simp [Except.toOption])

theorem world?_begin {db : Database} {now : Instant} {rules : Rules} {orders : List Order}
    {order : Order} (horder : orders[n]? = some order) :
    (begin db now rules orders).world? n = some (order.alone db now rules) := by
  show Option.map _ (orders.map fun o => (o.alone db now rules).member)[n]? = _
  rw [List.getElem?_map, horder]
  rfl

theorem follows_begin {db : Database} {now : Instant} {rules : Rules} {orders : List Order}
    (h : ∀ left, ({ Server.fresh rules left with db, now } : Server).Orderly) {order : Order}
    (horder : orders[n]? = some order) (htasks : LeavesTasks db order.workflow) :
    (begin db now rules orders).Follows n (order.alone db now rules) :=
  ⟨_, world?_begin horder, h _, h _, rfl, rfl, rfl,
    .loading rules order.workflow order.input order.triggeredBy htasks⟩

/-- Two reports are the same, but for ids. -/
abbrev ReportsAlike : Except Fault Report → Except Fault Report → Prop :=
  ResultsAlike fun report report' => report.output = report'.output

theorem Follows.outcome {alone : World} (h : c.Follows n alone) :
    Option.Rel ReportsAlike (c.outcome? n) alone.outcome? := by
  obtain ⟨w, hw, htwins⟩ := h
  rw [outcome?, hw]
  exact htwins.outcome

theorem Follows.row {alone : World} (h : c.Follows n alone) :
    Option.Rel RecordsAlike (c.row? n) alone.row? := by
  obtain ⟨w, hw, htwins⟩ := h
  rw [row?, hw]
  exact htwins.row

/-- An execution has come as far in one crowd as in another, and is the same but for ids. -/
def Abreast (c c' : Crowd) (n : Nat) : Prop := ∃ w, c'.world? n = some w ∧ c.Follows n w

/-- The cancellations of one execution make no difference to another one: by induction on the moves,
of which the second crowd sees those that are none. -/
theorem Abreast.play {c c' : Crowd} (hc : c.Sound) (hc' : c'.Sound) (h : Abreast c c' n) {m : Nat}
    (hm : m ≠ n) (moves : List Bustle) :
    Abreast (c.play (moves.filter fun move => !move.cancels m)) (c'.play moves) n := by
  induction moves generalizing c c' with
  | nil => exact h
  | cons move rest ih =>
    obtain ⟨w, hw, hfollows⟩ := h
    have hnext' := hc'.step move
    cases move with
    | turn k t =>
      by_cases hk : k = n
      · subst hk
        have hown : (!(Bustle.turn k t).cancels m) = true := by
          simp [Bustle.cancels, Ne.symm hm]
        rw [List.filter_cons, if_pos hown]
        refine ih (hc.step _) hnext' ⟨w.step t.event, ?_, hfollows.own t⟩
        obtain ⟨member, hmember, rfl⟩ := world?_eq_some hw
        rw [step_of_some hmember, world?,
          List.getElem?_set_self (List.getElem?_eq_some_iff.mp hmember).1]
        rfl
      · obtain ⟨server, hserver, hunmoved⟩ := hc'.unmoved hw hk t
        obtain ⟨w₀, hw₀, htwins⟩ := hfollows
        have hbeside : Abreast c (c'.step (.turn k t)) n :=
          ⟨_, hserver, w₀, hw₀, htwins.overlook' hunmoved⟩
        cases hcancels : (Bustle.turn k t).cancels m with
        | true =>
          rw [List.filter_cons_of_neg (by simp [hcancels])]
          exact ih hc hnext' hbeside
        | false =>
          rw [List.filter_cons_of_pos (by simp [hcancels])]
          obtain ⟨w₁, hw₁, hfollows₁⟩ := hbeside
          exact ih (hc.step _) hnext' ⟨w₁, hw₁, hfollows₁.other hc hk t⟩
    | tick now =>
      rw [List.filter_cons_of_pos rfl]
      refine ih (hc.step _) hnext' ⟨w.step (.tick now), ?_, hfollows.tick now⟩
      obtain ⟨member, hmember, rfl⟩ := world?_eq_some hw
      exact congrArg (Option.map _) hmember

theorem Abreast.outcome {c c' : Crowd} (h : Abreast c c' n) :
    Option.Rel ReportsAlike (c.outcome? n) (c'.outcome? n) := by
  obtain ⟨w, hw, hfollows⟩ := h
  rw [show c'.outcome? n = w.outcome? by rw [outcome?, hw]; rfl]
  exact hfollows.outcome

theorem Abreast.row {c c' : Crowd} (h : Abreast c c' n) :
    Option.Rel RecordsAlike (c.row? n) (c'.row? n) := by
  obtain ⟨w, hw, hfollows⟩ := h
  rw [show c'.row? n = w.row? by rw [row?, hw]; rfl]
  exact hfollows.row

/-- Executions on one server, in any order of their moves: one whose workflow has no step that
changes tasks reports the same as when it is alone, and so does its record, but for its id and for
ids in the text of a fault that the database quotes a statement in. What the cancellations of
another execution do shows in neither, in the same sense. -/
theorem executes_as_alone (rules : Rules) (script : List Outbound.Scripted)
    (operations : List Operation) (now : Instant) (orders : List Order) {order : Order}
    (horder : orders[n]? = some order)
    (htasks : LeavesTasks ((Server.fresh rules script).play operations).db order.workflow)
    (moves : List Bustle) :
    let db := ((Server.fresh rules script).play operations).db
    let together := (begin db now rules orders).play moves
    let alone := (order.alone db now rules).play (moves.filterMap (Bustle.event? n))
    (Option.Rel ReportsAlike (together.outcome? n) alone.outcome? ∧
      Option.Rel RecordsAlike (together.row? n) alone.row?) ∧
    ∀ m ≠ n,
      let spared := (begin db now rules orders).play (moves.filter fun move => !move.cancels m)
      Option.Rel ReportsAlike (spared.outcome? n) (together.outcome? n) ∧
        Option.Rel RecordsAlike (spared.row? n) (together.row? n) := by
  intro db together alone
  have horderly := orderly_begin rules script operations now
  have hsound := sound_begin orders horderly
  have hbegin := follows_begin horderly horder htasks
  have htogether : together.Follows n alone := hbegin.play hsound moves
  refine ⟨⟨htogether.outcome, htogether.row⟩, fun m hm => ?_⟩
  intro spared
  have hspared : Abreast spared together n :=
    Abreast.play hsound hsound ⟨_, world?_begin horder, hbegin⟩ hm moves
  exact ⟨hspared.outcome, hspared.row⟩

/-- A workflow that waits for a second. -/
def pausing : List Operation :=
  [.createWorkflow
    { workspace := some "home", name := some "pause", description := none, icon := none
      color := none, trigger := .null, creator := none
      steps := [[(.text "name", .text "wait"), (.text "type", .text StepKind.delay.name),
        (.text "config", .object [(.text "duration", .int 1000)])]] }]

/-- Two executions that come to their delays; then the second one is cancelled, and both go on. -/
def oneCancelled : List Bustle :=
  List.replicate 4 (.turn 0 .run) ++ List.replicate 4 (.turn 1 .run) ++
    .turn 1 (.arrive .main) :: List.replicate 3 (.turn 1 (.advance 0)) ++
    List.replicate 6 (.turn 1 .run) ++ .tick ⟨5⟩ :: List.replicate 6 (.turn 0 .run)

/-- The first execution is completed beside the second one that is cancelled, and so it is when it
is alone and when the second one is left alone. -/
theorem completed_beside_cancelled :
    let db := ((Server.fresh ⟨false, 5⟩ []).play pausing).db
    let order : Order := ⟨"u-1", .null, none, []⟩
    let begun := begin db ⟨0⟩ ⟨false, 5⟩ [order, order]
    let alone := (order.alone db ⟨0⟩ ⟨false, 5⟩).play (oneCancelled.filterMap (Bustle.event? 0))
    let spared := begun.play (oneCancelled.filter fun move => !move.cancels 1)
    ((begun.play oneCancelled).row? 1).map (·.status) = some Status.cancelled.name ∧
      ((begun.play oneCancelled).row? 0).map (·.status) = some Status.completed.name ∧
      alone.row?.map (·.status) = some Status.completed.name ∧
      (spared.row? 0).map (·.status) = some Status.completed.name := by
  intro db order begun alone spared
  have hstatuses : ((begun.play oneCancelled).row? 1).map (·.status) = some Status.cancelled.name ∧
      ((begun.play oneCancelled).row? 0).map (·.status) = some Status.completed.name := by
    decide +kernel
  have hstatus {row row' : Option ExecutionRow} (h : Option.Rel RecordsAlike row row') :
      row.map (·.status) = row'.map (·.status) := by
    cases h with
    | none => rfl
    | some h => exact congrArg some h.status
  obtain ⟨⟨_, halone⟩, hspared⟩ := executes_as_alone (n := 0) ⟨false, 5⟩ [] pausing ⟨0⟩
    [order, order] rfl (by decide +kernel) oneCancelled
  exact ⟨hstatuses.1, hstatuses.2, (hstatus halone).symm.trans hstatuses.2,
    (hstatus (hspared 1 (by decide)).2).trans hstatuses.2⟩

/-- A workflow that notifies nobody. -/
def telling : List Operation :=
  [.createWorkflow
    { workspace := some "home", name := some "tell", description := none, icon := none
      color := none, trigger := .null, creator := none
      steps := [[(.text "name", .text "tell"),
        (.text "type", .text StepKind.notification.name)]] }]

/-- Two executions whose notification is refused, the second after the first. Both fail as they do
alone, but the second one quotes another id than when it is alone. -/
theorem refusal_quotes_id :
    let db := ((Server.fresh ⟨false, 5⟩ []).play telling).db
    let order : Order := ⟨"u-1", .null, none, []⟩
    let moves : List Bustle :=
      List.replicate 12 (.turn 0 .run) ++ List.replicate 12 (.turn 1 .run)
    let together := (begin db ⟨0⟩ ⟨false, 5⟩ [order, order]).play moves
    let alone := (order.alone db ⟨0⟩ ⟨false, 5⟩).play (moves.filterMap (Bustle.event? 1))
    (together.row? 1).map (·.status) = some Status.failed.name ∧
      alone.row?.map (·.status) = some Status.failed.name ∧
      (together.row? 1).map (·.error) ≠ alone.row?.map (·.error) := by
  decide +kernel

end Crowd

end Stepwise.Execution
