import Stepwise.Proofs.Execution.Invariant
import Stepwise.Proofs.Execution.Requests
import Stepwise.Proofs.Run.Tasks
import Stepwise.Proofs.Run.Wording
import Stepwise.Proofs.Server.Standing

/-!
# Executions that differ in their ids

The same workflow may be executed on two servers on which different ids were drawn before. The two
executions are then the same but for their own ids, and as long as the servers answer alike, they
stay so. What a server answers to requests that are not about tasks depends on what every execution
sees of it, on what concerns the execution, and on the outbound answers that are left. Only where
the database refuses a notification it quotes an id that it has drawn, and so the faults of the two
may differ in that id, and so may the texts of the faults in their records.
-/

namespace Stepwise

namespace Execution

open Store Run

/-! ## Records -/

/-- Two records are the same, but for their own ids and ids in the texts of faults. -/
structure RecordsAlike (row row' : ExecutionRow) : Prop where
  rest : { row with id := "", error := none, log := .null } =
    { row' with id := "", error := none, log := .null }
  error : ErrorsAlike row.error row'.error
  log : ∃ log log', LogsAlike log log' ∧ row.log = logValue log ∧ row'.log = logValue log'

/-- Two ends of runs are the same, but for ids in the texts of faults. -/
inductive Closing.Alike : Closing → Closing → Prop
  | completed (output : Fields) (log : List Entry) :
      Alike (.completed output log) (.completed output log)
  | failed {error error' : String} {log log' : List Entry} (he : TextsAlike error error')
      (hl : LogsAlike log log') : Alike (.failed error log) (.failed error' log')

namespace RecordsAlike

variable {row row' : ExecutionRow}

theorem status (h : RecordsAlike row row') : row.status = row'.status := by
  have hstatus := congrArg ExecutionRow.status h.rest
  exact hstatus

theorem isOpen (h : RecordsAlike row row') : isOpen row = Execution.isOpen row' :=
  congrArg (· == Status.running.name) h.status

theorem unnamed_iff : RecordsAlike (unnamed row) (unnamed row') ↔ RecordsAlike row row' :=
  ⟨fun h => ⟨h.rest, h.error, h.log⟩, fun h => ⟨h.rest, h.error, h.log⟩⟩

theorem cancelled (h : RecordsAlike row row') (now : Instant) :
    RecordsAlike (cancelled now row) (Execution.cancelled now row') where
  rest := congrArg (Execution.cancelled now) h.rest
  error := h.error
  log := h.log

theorem closeIfOpen (h : RecordsAlike row row') (since now : Instant) {closing closing' : Closing}
    (hc : closing.Alike closing') : RecordsAlike (Server.closeIfOpen since now closing row)
      (Server.closeIfOpen since now closing' row') := by
  unfold Server.closeIfOpen
  rw [h.isOpen]
  split_ifs
  · cases hc with
    | completed output log =>
      refine ⟨?_, h.error, log, log, .refl log, rfl, rfl⟩
      exact congrArg (fun row : ExecutionRow => { row with
        status := Status.completed.name, completed := some now
        duration := some (elapsed since now), updated := now
        output := Json.settle (.object output) }) h.rest
    | @failed error error' log log' he hl =>
      refine ⟨?_, .some he, log, log', hl, rfl, rfl⟩
      exact congrArg (fun row : ExecutionRow => { row with
        status := Status.failed.name, completed := some now
        duration := some (elapsed since now), updated := now }) h.rest
  · exact h

end RecordsAlike

theorem recordsAlike_opening (now : Instant) (workflow : String) (input : Value)
    (triggeredBy : Option String) (id id' : String) :
    RecordsAlike (opening now workflow input triggeredBy id)
      (opening now workflow input triggeredBy id') :=
  ⟨rfl, .none, [], [], .nil, rfl, rfl⟩

end Execution

open Store Execution

/-- What concerns two executions is the same, but for ids in the texts of faults. -/
structure Standing.Alike (st st' : Standing) : Prop where
  rows : List.Forall₂ RecordsAlike st.rows st'.rows
  reachable : st.reachable = st'.reachable
  signalled : st.signalled = st'.signalled

namespace Standing.Alike

variable {st st' : Standing}

theorem enter (h : st.Alike st') (controller : Controller) :
    (st.enter controller).Alike (st'.enter controller) :=
  ⟨h.rows, by rw [Standing.enter, Standing.enter, h.reachable], h.signalled⟩

theorem leave (h : st.Alike st') (controller : Controller) :
    (st.leave controller).Alike (st'.leave controller) :=
  ⟨h.rows, by rw [Standing.leave, Standing.leave, h.reachable], h.signalled⟩

theorem alert (h : st.Alike st') (controller : Controller) :
    (st.alert controller).Alike (st'.alert controller) := by
  unfold Standing.alert
  rw [h.reachable]
  split_ifs
  · exact ⟨h.rows, rfl, rfl⟩
  · exact h

theorem rewrite (h : st.Alike st') {f f' : ExecutionRow → ExecutionRow}
    (hf : ∀ row row', RecordsAlike row row' → RecordsAlike (f row) (f' row')) :
    (st.rewrite f).Alike (st'.rewrite f') := by
  refine ⟨?_, h.reachable, h.signalled⟩
  unfold Standing.rewrite
  rw [List.forall₂_map_left_iff, List.forall₂_map_right_iff]
  exact h.rows.imp hf

/-- Their first records are alike. -/
theorem head? (h : st.Alike st') : Option.Rel RecordsAlike st.rows.head? st'.rows.head? := by
  have hrows := h.rows
  generalize st.rows = rows at hrows
  generalize st'.rows = rows' at hrows
  cases hrows with
  | nil => exact .none
  | cons hrow _ => exact .some hrow

theorem any_isOpen (h : st.Alike st') : st.rows.any isOpen = st'.rows.any isOpen := by
  have hrows := h.rows
  generalize st.rows = rows at hrows
  generalize st'.rows = rows' at hrows
  induction hrows with
  | nil => rfl
  | cons hrow _ ih => rw [List.any_cons, List.any_cons, hrow.isOpen, ih]

end Standing.Alike

namespace Execution

open Store Run

/-! ## Programs -/

/-- Two executions that do the same under ids of their own, if they are answered alike, and ask
nothing about tasks. -/
inductive Like (id id' : String) :
    Activity (Except Fault Report) → Activity (Except Fault Report) → Prop
  | reported (output : Fields) : Like id id' (.done (.ok ⟨id, output⟩)) (.done (.ok ⟨id', output⟩))
  | failed {fault fault' : Fault} (h : fault.Alike fault') :
      Like id id' (.done (.error fault)) (.done (.error fault'))
  | register {next next' : Unit → Activity (Except Fault Report)}
      (h : Like id id' (next ()) (next' ())) :
      Like id id' (.ask (.register id) next) (.ask (.register id') next')
  | withdraw {next next' : Unit → Activity (Except Fault Report)}
      (h : Like id id' (next ()) (next' ())) :
      Like id id' (.ask (.withdraw id) next) (.ask (.withdraw id') next')
  | close (since : Instant) {closing closing' : Closing} (hc : closing.Alike closing')
      {next next' : Bool → Activity (Except Fault Report)}
      (h : ∀ closed, Like id id' (next closed) (next' closed)) :
      Like id id' (.ask (.close id since closing) next) (.ask (.close id' since closing') next')
  | run (r : Run.Request) (hr : r.isAboutTask = false)
      {next next' : r.Answer → Activity (Except Fault Report)}
      (h : ∀ answer answer', r.AnswersAlike answer answer' →
        Like id id' (next answer) (next' answer')) :
      Like id id' (.ask (.run id r) next) (.ask (.run id' r) next')

variable {id id' : String}

/-- Reading the clock keeps two executions alike. -/
theorem Like.readClock {p p' : Activity (Except Fault Report)} (h : Like id id' p p')
    (now : Instant) : Like id id' (readClock now p) (readClock now p') := by
  induction h with
  | run r hr h ih =>
    cases r with
    | now => exact ih now now rfl
    | _ => exact .run _ hr h
  | reported output => exact .reported output
  | failed h => exact .failed h
  | register h _ => exact .register h
  | withdraw h _ => exact .withdraw h
  | close since hc h _ => exact .close since hc h

/-- What follows two runs of steps under two ids that are akin. -/
theorem like_lift {α : Type} {p p' : Program Run.surroundings (Except Fault α × Context)}
    (h : Akin p p') (hp : SparesTasks p)
    {f f' : Except Fault α × Context → Activity (Except Fault Report)}
    (hok : ∀ a c, Like id id' (f (.ok a, c)) (f' (.ok a, c)))
    (hfailed : ∀ (fault fault' : Fault) c c', fault.Alike fault' → c.Alike c' →
      Like id id' (f (.error fault, c)) (f' (.error fault', c'))) :
    Like id id' ((p.lift (J := surroundings) (.run id) fun _ answer => answer).bind f)
      ((p'.lift (J := surroundings) (.run id') fun _ answer => answer).bind f') := by
  induction h with
  | done a c => exact hok a c
  | failed hf hc => exact hfailed _ _ _ _ hf hc
  | ask r h ih =>
    obtain ⟨hr, hnext⟩ := (Program.asksOnly_ask (I := Run.surroundings) r _).mp hp
    exact .run r hr fun answer answer' ha => ih answer answer' ha (hnext answer)

theorem like_conclude_ok (rules : Rules) (since : Instant) (context : Context) :
    Like id id' (conclude rules id since (.ok ()) context)
      (conclude rules id' since (.ok ()) context) := by
  refine .run .cancelled rfl fun (told told' : Bool) (h : told = told') => .withdraw ?_
  subst h
  cases told with
  | true => exact .failed (.same .cancelled)
  | false =>
    refine .close since (.completed context.vars context.log) fun inTime => ?_
    cases inTime with
    | true => exact .reported context.vars
    | false => exact .failed (.same .cancelled)

theorem like_conclude_error (rules : Rules) (since : Instant) {fault fault' : Fault}
    {context context' : Context} (hf : fault.Alike fault') (hc : context.Alike context') :
    Like id id' (conclude rules id since (.error fault) context)
      (conclude rules id' since (.error fault') context') := by
  by_cases hcancelled : fault = .cancelled
  · obtain rfl := hcancelled
    obtain rfl := hf.eq_cancelled_iff.mp rfl
    exact .withdraw (.failed hf)
  · rw [conclude_fault rules id since hcancelled,
      conclude_fault rules id' since (mt hf.eq_cancelled_iff.mpr hcancelled)]
    refine .close since (.failed (textsAlike_recorded hf) ?_) fun _ => .withdraw (.failed hf)
    split_ifs
    · exact hc.log
    · exact .nil

/-- An execution of steps that change no tasks is the same under any id. -/
theorem like_afterStart (rules : Rules) {tree : StepTree}
    (ht : ∀ step ∈ tree.steps, step.changesTasks = false) (input : Value) :
    Like id id' (afterStart rules tree input (.ok id)) (afterStart rules tree input (.ok id')) := by
  refine .register (.run .now rfl fun since since' (h : since = since') => ?_)
  subst h
  exact like_lift (steady_runTree tree rules.limit ⟨input, [], []⟩)
    (sparesTasks_runTree ht rules.limit ⟨input, [], []⟩)
    (fun _ c => like_conclude_ok rules since c)
    fun _ _ _ _ hf hc => like_conclude_error rules since hf hc

/-! ## Two worlds -/

/-- How far two executions have come that are the same but for their ids. Before they have ids, they
are the same. -/
inductive Matched (s s' : Server) : Option String → Option String →
    Activity (Except Fault Report) → Activity (Except Fault Report) → Prop
  | loading (rules : Rules) (workflow : String) (input : Value) (triggeredBy : Option String)
      (h : ∀ tree, planned (s.outlook.stored workflow) = .ok tree →
        ∀ step ∈ tree.steps, step.changesTasks = false) :
      Matched s s' none none (execute rules workflow input triggeredBy)
        (execute rules workflow input triggeredBy)
  | starting (rules : Rules) (workflow : String) (input : Value) (triggeredBy : Option String)
      {tree : StepTree} (h : ∀ step ∈ tree.steps, step.changesTasks = false) :
      Matched s s' none none
        (.ask (.start workflow input triggeredBy) (afterStart rules tree input))
        (.ask (.start workflow input triggeredBy) (afterStart rules tree input))
  | refused (fault : Fault) : Matched s s' none none (.done (.error fault)) (.done (.error fault))
  | running {id id' : String} {p p' : Activity (Except Fault Report)} (hp : Like id id' p p')
      (hid : s.db.supply.Drawn id) (hid' : s'.db.supply.Drawn id')
      (hs : (s.standing id).Alike (s'.standing id')) : Matched s s' (some id) (some id') p p'

theorem Matched.isSome_opened {s s' : Server} {opened opened' : Option String}
    {p p' : Activity (Except Fault Report)} (h : Matched s s' opened opened' p p') :
    opened.isSome = opened'.isSome := by
  cases h with
  | loading rules workflow input triggeredBy hfree => rfl
  | starting rules workflow input triggeredBy hfree => rfl
  | refused fault => rfl
  | running hp hid hid' hs => rfl

/-- On other servers that show the same to the executions, they stay matched. -/
theorem Matched.on {s s' t t' : Server} {opened opened' : Option String}
    {p p' : Activity (Except Fault Report)} (h : Matched s s' opened opened' p p')
    (hstored : t.outlook.stored = s.outlook.stored)
    (hrow : s.db.supply.row ≤ t.db.supply.row) (hrow' : s'.db.supply.row ≤ t'.db.supply.row)
    (hs : ∀ id, opened = some id → t.standing id = s.standing id)
    (hs' : ∀ id, opened' = some id → t'.standing id = s'.standing id) :
    Matched t t' opened opened' p p' := by
  cases h with
  | loading rules workflow input triggeredBy hfree =>
    exact .loading rules workflow input triggeredBy (hstored ▸ hfree)
  | starting rules workflow input triggeredBy hfree =>
    exact .starting rules workflow input triggeredBy hfree
  | refused fault => exact .refused fault
  | running hp hid hid' hstanding =>
    refine .running hp (hid.mono hrow) (hid'.mono hrow') ?_
    rw [hs _ rfl, hs' _ rfl]
    exact hstanding

namespace World

/-- Two worlds that are the same to their executions, which are the same but for their ids. -/
structure Twins (w w' : World) : Prop where
  orderly : w.server.Orderly
  orderly' : w'.server.Orderly
  outlook : w.server.outlook = w'.server.outlook
  script : w.server.script = w'.server.script
  cancels : w.cancels = w'.cancels
  matched : Matched w.server w'.server w.opened w'.opened w.program w'.program

/-- The run of the steps is answered alike, and the servers stay the same to it. -/
theorem answersAlike_respondRun {s s' : Server} (ho : s.Orderly) (ho' : s'.Orderly)
    (houtlook : s.outlook = s'.outlook) (hscript : s.script = s'.script)
    (hs : (s.standing id).Alike (s'.standing id')) {r : Run.Request}
    (hr : r.isAboutTask = false) :
    r.AnswersAlike (s.respondRun id r).1 (s'.respondRun id' r).1 ∧
      (s.respondRun id r).2.script = (s'.respondRun id' r).2.script := by
  have hnow : s.now = s'.now := congrArg Server.Outlook.now houtlook
  have hsignalled : s.signalled.contains id = s'.signalled.contains id' := hs.signalled
  cases r with
  | now => exact ⟨hnow, hscript⟩
  | cancelled => exact ⟨hsignalled, hscript⟩
  | wait micros =>
    refine ⟨?_, hscript⟩
    show s.breaksOff id micros = s'.breaksOff id' micros
    rw [Server.breaksOff, hsignalled]
    rfl
  | send call =>
    show (s.send call).1.outcome = (s'.send call).1.outcome ∧
      (s.send call).2.script = (s'.send call).2.script
    unfold Server.send
    rw [hscript]
    exact ⟨rfl, rfl⟩
  | notify user title message =>
    refine ⟨?_, hscript⟩
    show ResultsAlike (· = ·) (s.db.transact (Task.notify s.now user title message)).1
      (s'.db.transact (Task.notify s'.now user title message)).1
    rw [← hnow]
    exact Task.alike_notify s.now user title message ho.notified.fresh ho'.notified.fresh
  | createTask fields => cases hr
  | updateTask task fields => cases hr
  | deleteTask task => cases hr

variable {w w' : World}

/-- An execution asks a request under an id that it has, or that the request gives it. -/
structure Asks (w : World) (id : String) (r : Request)
    (next : r.Answer → Activity (Except Fault Report)) : Prop where
  program : w.program = .ask r next
  opened : (r.opens (w.server.respond .main r).1).or w.opened = some id
  drawn : (w.server.respond .main r).2.db.supply.Drawn id
  registers : ∀ i, r = .register i → w.server.db.supply.Drawn i

/-- A request of two executions that are the same but for their ids, if it is answered alike. -/
theorem Twins.respond (h : w.Twins w') {r r' : Request}
    {next : r.Answer → Activity (Except Fault Report)}
    {next' : r'.Answer → Activity (Except Fault Report)} (ha : w.Asks id r next)
    (ha' : w'.Asks id' r' next')
    (hscript : (w.server.respond .main r).2.script = (w'.server.respond .main r').2.script)
    (hstanding : ((w.server.respond .main r).2.standing id).Alike
      ((w'.server.respond .main r').2.standing id'))
    (hp : Like id id' (next (w.server.respond .main r).1) (next' (w'.server.respond .main r').1)) :
    w.run.Twins w'.run := by
  have houtlook :
      (w.server.respond .main r).2.outlook = (w'.server.respond .main r').2.outlook := by
    rw [Server.outlook_respond, Server.outlook_respond]
    exact h.outlook
  rw [run_of_ask ha.program, run_of_ask ha'.program, ha.opened, ha'.opened]
  refine ⟨h.orderly.respond .main ha.registers, h.orderly'.respond .main ha'.registers, houtlook,
    hscript, h.cancels, .running ?_ ha.drawn ha'.drawn hstanding⟩
  rw [show (w.server.respond .main r).2.now = (w'.server.respond .main r').2.now from
    congrArg Server.Outlook.now houtlook]
  exact hp.readClock _

/-- The move of two executions that have records. -/
theorem Twins.run_of_like (h : w.Twins w') (hopened : w.opened = some id)
    (hopened' : w'.opened = some id') (hid : w.server.db.supply.Drawn id)
    (hid' : w'.server.db.supply.Drawn id')
    (hs : (w.server.standing id).Alike (w'.server.standing id'))
    (hp : Like id id' w.program w'.program) : w.run.Twins w'.run := by
  have hdrawn (r : Request) : (w.server.respond .main r).2.db.supply.Drawn id :=
    hid.mono (w.server.supply_respond .main r).row
  have hdrawn' (r : Request) : (w'.server.respond .main r).2.db.supply.Drawn id' :=
    hid'.mono (w'.server.supply_respond .main r).row
  generalize hw : w.program = p at hp
  generalize hw' : w'.program = p' at hp
  cases hp with
  | reported output =>
    rw [run_of_done hw, run_of_done hw']
    exact h
  | failed hfault =>
    rw [run_of_done hw, run_of_done hw']
    exact h
  | register hp =>
    refine h.respond ⟨hw, hopened, hdrawn _, ?_⟩ ⟨hw', hopened', hdrawn' _, ?_⟩ h.script ?_ hp
    · rintro i ⟨⟩
      exact hid
    · rintro i ⟨⟩
      exact hid'
    · rw [Server.standing_register, Server.standing_register]
      exact hs.enter .main
  | withdraw hp =>
    refine h.respond ⟨hw, hopened, hdrawn _, nofun⟩ ⟨hw', hopened', hdrawn' _, nofun⟩ h.script ?_ hp
    rw [Server.standing_withdraw, Server.standing_withdraw]
    exact hs.leave .main
  | close since hclosing hp =>
    refine h.respond ⟨hw, hopened, hdrawn _, nofun⟩ ⟨hw', hopened', hdrawn' _, nofun⟩ h.script ?_ ?_
    · rw [Server.standing_close, Server.standing_close,
        show w.server.now = w'.server.now from congrArg Server.Outlook.now h.outlook]
      exact hs.rewrite fun _ _ hrow => hrow.closeIfOpen since _ hclosing
    · rw [Server.closed_respond, Server.closed_respond, hs.any_isOpen]
      exact hp _
  | @run r hr next next' hp =>
    obtain ⟨hanswer, hscript⟩ :=
      answersAlike_respondRun h.orderly h.orderly' h.outlook h.script hs hr
    refine h.respond ⟨hw, hopened, hdrawn _, nofun⟩ ⟨hw', hopened', hdrawn' _, nofun⟩ hscript ?_ ?_
    · show ((w.server.respondRun id r).2.standing id).Alike
        ((w'.server.respondRun id' r).2.standing id')
      rw [Server.standing_respondRun, Server.standing_respondRun]
      exact hs
    · exact hp _ _ hanswer

/-- A move of two executions that are the same but for their ids. -/
theorem Twins.run (h : w.Twins w') : w.run.Twins w'.run := by
  have hmatched := h.matched
  generalize hw : w.program = p at hmatched
  generalize hw' : w'.program = p' at hmatched
  generalize hopened : w.opened = opened at hmatched
  generalize hopened' : w'.opened = opened' at hmatched
  cases hmatched with
  | loading rules workflow input triggeredBy hfree =>
    rw [execute_eq] at hw hw'
    rw [run_of_ask hw, run_of_ask hw', hopened, hopened']
    refine ⟨h.orderly, h.orderly', h.outlook, h.script, h.cancels, ?_⟩
    show Matched w.server w'.server none none
      (readClock w.server.now
        (afterLoad rules workflow input triggeredBy (w.server.outlook.stored workflow)))
      (readClock w'.server.now
        (afterLoad rules workflow input triggeredBy (w'.server.outlook.stored workflow)))
    rw [← h.outlook]
    unfold afterLoad
    cases hplan : planned (w.server.outlook.stored workflow) with
    | error fault => exact .refused fault
    | ok tree => exact .starting rules workflow input triggeredBy (hfree tree hplan)
  | starting rules workflow input triggeredBy hfree =>
    by_cases hinput : Json.isShort input = true
    · have hanswer := h.orderly.numbered.answer_start .main workflow hinput triggeredBy
      have hanswer' := h.orderly'.numbered.answer_start .main workflow hinput triggeredBy
      refine h.respond ⟨hw, ?_, h.orderly.numbered.drawn_start _ _ hinput _, nofun⟩
        ⟨hw', ?_, h.orderly'.numbered.drawn_start _ _ hinput _, nofun⟩ h.script ?_ ?_
      · rw [hanswer]
        rfl
      · rw [hanswer']
        rfl
      · rw [h.orderly.standing_start _ _ hinput, h.orderly'.standing_start _ _ hinput,
          show w.server.now = w'.server.now from congrArg Server.Outlook.now h.outlook]
        exact ⟨.cons (recordsAlike_opening _ _ _ _ _ _) .nil, rfl, rfl⟩
      · rw [hanswer, hanswer']
        exact like_afterStart rules hfree input
    · -- Neither execution gets a record, so they stay without ids.
      rw [run_of_ask hw, run_of_ask hw', hopened, hopened']
      refine ⟨h.orderly.respond .main nofun, h.orderly'.respond .main nofun, ?_, h.script,
        h.cancels, ?_⟩
      · rw [Server.outlook_respond, Server.outlook_respond]
        exact h.outlook
      · rw [Server.respond_start_of_long .main hinput, Server.respond_start_of_long .main hinput]
        exact .refused (.longInt true)
  | refused fault =>
    rw [run_of_done hw, run_of_done hw']
    exact h
  | running hp hid hid' hs =>
    rw [← hw, ← hw'] at hp
    exact h.run_of_like hopened hopened' hid hid' hs hp

/-- The records of two executions are alike if what concerns them is. -/
theorem recordsAlike_find? {s s' : Server} (hs : (s.standing id).Alike (s'.standing id')) :
    Option.Rel RecordsAlike (find? s.db.tables id) (find? s'.db.tables id') := by
  have hhead := hs.head?
  rw [Server.head?_rows_standing, Server.head?_rows_standing] at hhead
  generalize find? s.db.tables id = row? at hhead ⊢
  generalize find? s'.db.tables id' = row?' at hhead ⊢
  cases row? with
  | none =>
    cases row?' with
    | none => exact .none
    | some row' => cases hhead
  | some row =>
    cases row?' with
    | none => cases hhead
    | some row' =>
      cases hhead with
      | some h => exact .some (RecordsAlike.unnamed_iff.mp h)

/-- The move of a cancellation depends on what concerns the execution of its id alone. -/
theorem next_of_standing (c : Cancel) {s s' : Server}
    (hs : (s.standing id).Alike (s'.standing id')) (hnow : s.now = s'.now) :
    (c.next id s).1 = (c.next id' s').1 ∧
      ((c.next id s).2.standing id).Alike ((c.next id' s').2.standing id') := by
  have hrow := recordsAlike_find? hs
  obtain ⟨controller, phase⟩ := c
  cases phase with
  | asked =>
    dsimp only [Cancel.next, checkCancel]
    generalize find? s.db.tables id = row? at hrow ⊢
    generalize find? s'.db.tables id' = row?' at hrow ⊢
    cases hrow with
    | none => exact ⟨rfl, hs⟩
    | some h =>
      dsimp only
      rw [h.isOpen, h.status]
      split_ifs
      · exact ⟨rfl, hs⟩
      · exact ⟨rfl, hs⟩
  | checked =>
    have hnone : (find? s.db.tables id).isNone = (find? s'.db.tables id').isNone := by
      generalize find? s.db.tables id = row? at hrow ⊢
      generalize find? s'.db.tables id' = row?' at hrow ⊢
      cases hrow with
      | none => rfl
      | some h => rfl
    dsimp only [Cancel.next]
    rw [hnone]
    split_ifs
    · exact ⟨rfl, hs⟩
    · refine ⟨rfl, ?_⟩
      rw [Server.standing_commitCancel, Server.standing_commitCancel, hnow]
      exact hs.rewrite fun _ _ hrow => hrow.cancelled s'.now
  | committed =>
    have hreached : s.registered.contains (controller, id) =
        s'.registered.contains (controller, id') := congrFun hs.reachable controller
    refine ⟨congrArg Phase.returned hreached, ?_⟩
    show ((s.signal controller id).standing id).Alike ((s'.signal controller id').standing id')
    rw [Server.standing_signal, Server.standing_signal]
    exact hs.alert controller
  | returned live => exact ⟨rfl, hs⟩
  | refused fault => exact ⟨rfl, hs⟩
  | lost => exact ⟨rfl, hs⟩

theorem advance_of_some {n : Nat} {c : Cancel} (ho : w.opened = some id)
    (hc : w.cancels[n]? = some c) :
    w.advance n = { w with
      server := (c.next id w.server).2
      cancels := w.cancels.set n { c with phase := (c.next id w.server).1 } } := by
  rw [World.advance, ho, hc]

theorem advance_of_unopened (ho : w.opened = none) (n : Nat) : w.advance n = w := by
  rw [World.advance, ho]

theorem advance_of_none {n : Nat} (hc : w.cancels[n]? = none) : w.advance n = w := by
  unfold World.advance
  split
  · rename_i hsome
    rw [hc] at hsome
    cases hsome
  · rfl

/-- A cancellation of two executions that are the same but for their ids moves on. -/
theorem Twins.advance (h : w.Twins w') (n : Nat) : (w.advance n).Twins (w'.advance n) := by
  cases hc : w.cancels[n]? with
  | none =>
    rw [advance_of_none hc, advance_of_none (h.cancels ▸ hc)]
    exact h
  | some c =>
    have hmatched := h.matched
    generalize hopened : w.opened = opened at hmatched
    generalize hopened' : w'.opened = opened' at hmatched
    generalize hw : w.program = p at hmatched
    generalize hw' : w'.program = p' at hmatched
    cases hmatched with
    | running hp hid hid' hs =>
      obtain ⟨hphase, hstanding⟩ :=
        next_of_standing c hs (congrArg Server.Outlook.now h.outlook)
      rw [advance_of_some hopened hc, advance_of_some hopened' (h.cancels ▸ hc), hopened, hopened',
        hw, hw', ← h.cancels, hphase]
      refine ⟨h.orderly.next c _, h.orderly'.next c _, ?_, ?_, rfl, .running hp ?_ ?_ hstanding⟩
      · rw [Server.outlook_next, Server.outlook_next]
        exact h.outlook
      · rw [Server.script_next, Server.script_next]
        exact h.script
      · rw [Server.supply_next]
        exact hid
      · rw [Server.supply_next]
        exact hid'
    | _ =>
      rw [advance_of_unopened hopened, advance_of_unopened hopened']
      exact h

/-- A move of both, other than the deletion of a workflow. -/
theorem Twins.step (h : w.Twins w') {e : Event} (he : ∀ workflow, e ≠ .delete workflow) :
    (w.step e).Twins (w'.step e) := by
  cases e with
  | run => exact h.run
  | arrive controller =>
    unfold World.step
    dsimp only
    rw [h.matched.isSome_opened, h.cancels]
    split_ifs
    · exact ⟨h.orderly, h.orderly', h.outlook, h.script, rfl, h.matched⟩
    · exact h
  | advance n => exact h.advance n
  | tick now =>
    refine ⟨h.orderly.tick now, h.orderly'.tick now, ?_, h.script, h.cancels, ?_⟩
    · exact congrArg (fun o => (⟨o.stored, now⟩ : Server.Outlook)) h.outlook
    · exact h.matched.on rfl (Nat.le_refl _) (Nat.le_refl _) (fun _ _ => rfl) fun _ _ => rfl
  | delete workflow => exact absurd rfl (he workflow)

/-- Another server that shows the same to the execution of a world. -/
structure Unmoved (w : World) (server : Server) : Prop where
  orderly : server.Orderly
  outlook : server.outlook = w.server.outlook
  script : server.script = w.server.script
  supply : w.server.db.supply.row ≤ server.db.supply.row
  standing : ∀ id, w.opened = some id → server.standing id = w.server.standing id

/-- A change of the first server that concerns none of what its execution sees. -/
theorem Twins.overlook (h : w.Twins w') {server : Server} (hu : w.Unmoved server) :
    { w with server }.Twins w' where
  orderly := hu.orderly
  orderly' := h.orderly'
  outlook := hu.outlook.trans h.outlook
  script := hu.script.trans h.script
  cancels := h.cancels
  matched := h.matched.on (congrArg Server.Outlook.stored hu.outlook) hu.supply (Nat.le_refl _)
    hu.standing fun _ _ => rfl

/-- A change of the second server that concerns none of what its execution sees. -/
theorem Twins.overlook' (h : w.Twins w') {server : Server} (hu : w'.Unmoved server) :
    w.Twins { w' with server } where
  orderly := h.orderly
  orderly' := hu.orderly
  outlook := h.outlook.trans hu.outlook.symm
  script := h.script.trans hu.script.symm
  cancels := h.cancels
  matched := h.matched.on rfl (Nat.le_refl _) hu.supply (fun _ _ => rfl) hu.standing

/-- The executions report the same, but for ids. -/
theorem Twins.outcome (h : w.Twins w') :
    Option.Rel (ResultsAlike fun report report' : Report => report.output = report'.output)
      w.outcome? w'.outcome? := by
  have hmatched := h.matched
  unfold outcome?
  generalize w.program = p at hmatched
  generalize w'.program = p' at hmatched
  generalize w.opened = opened at hmatched
  generalize w'.opened = opened' at hmatched
  cases hmatched with
  | loading rules workflow input triggeredBy hfree =>
    rw [execute_eq]
    exact .none
  | starting rules workflow input triggeredBy hfree => exact .none
  | refused fault => exact .some (.error (.same fault))
  | running hp hid hid' hs =>
    cases hp with
    | reported output => exact .some (.ok rfl)
    | failed hfault => exact .some (.error hfault)
    | _ => exact .none

/-- Their records are the same, but for ids. -/
theorem Twins.row (h : w.Twins w') : Option.Rel RecordsAlike w.row? w'.row? := by
  have hmatched := h.matched
  unfold row?
  generalize w.program = p at hmatched
  generalize w'.program = p' at hmatched
  generalize w.opened = opened at hmatched
  generalize w'.opened = opened' at hmatched
  cases hmatched with
  | running hp hid hid' hs =>
    rw [Option.bind_some, Option.bind_some]
    exact recordsAlike_find? hs
  | _ => exact .none

end World

end Execution

end Stepwise
