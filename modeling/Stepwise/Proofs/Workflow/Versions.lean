import Mathlib.Data.List.Induction
import Mathlib.Tactic.Common
import Stepwise.Proofs.Workflow.Revision

/-!
# Changes of one workflow side by side

Any number of calls change one workflow, each in two moves: it reads the workflow, and later it
writes it. The moves of all calls come in any order. A call writes the version after the one that it
has read, whatever the version has become meanwhile, so the version counts all calls only if no call
writes after another one has written since its reading.
-/

namespace Stepwise.Workflow

open Store Transaction

/-- How far a call that changes a workflow has come. -/
inductive Call
  /-- It is asked for. -/
  | asked (changes : Changes) (steps : Option (List Fields))
  /-- It has read the workflow. -/
  | read (edit : Edit)
  /-- It has written its change. -/
  | written
  /-- It has failed, and written nothing. -/
  | failed (fault : Fault)

namespace Call

/-- The call has read the workflow and not yet written it. -/
def HasRead : Call → Prop
  | .read _ => True
  | .asked _ _ | .written | .failed _ => False

/-- The call has made a move. -/
def HasMoved : Call → Prop
  | .asked _ _ => False
  | .read _ | .written | .failed _ => True

/-- The call has succeeded. -/
def isWritten : Call → Bool
  | .written => true
  | .asked _ _ | .read _ | .failed _ => false

/-- The next move of a call: how far it has come, and the database after it. -/
def next (c : Call) (id : String) (now : Instant) (db : Database) : Call × Database :=
  match c with
  | .asked changes steps =>
    match db.transact (beginEdit id changes steps) with
    | (.ok edit, db) => (.read edit, db)
    | (.error fault, db) => (.failed fault, db)
  | .read edit =>
    match db.transact (commitEdit now edit) with
    | (.ok _, db) => (.written, db)
    | (.error fault, db) => (.failed fault, db)
  | .written => (.written, db)
  | .failed fault => (.failed fault, db)

end Call

/-- A workflow with the calls that change it. -/
structure Edits where
  workflow : String
  db : Database
  now : Instant
  calls : List Call

/-- A move. -/
inductive Move
  /-- Someone asks for a change. -/
  | ask (changes : Changes) (steps : Option (List Fields))
  /-- A call moves on. -/
  | advance (n : Nat)
  /-- Time passes. -/
  | tick (now : Instant)

namespace Edits

/-- A call moves on. -/
def advance (w : Edits) (n : Nat) : Edits :=
  match w.calls[n]? with
  | none => w
  | some c =>
    let (c, db) := c.next w.workflow w.now w.db
    { w with db, calls := w.calls.set n c }

/-- One move. -/
def step (w : Edits) : Move → Edits
  | .ask changes steps => { w with calls := w.calls ++ [.asked changes steps] }
  | .advance n => w.advance n
  | .tick now => { w with now }

/-- A schedule of moves. -/
def play (w : Edits) (moves : List Move) : Edits := moves.foldl step w

/-- A workflow that nobody has asked to change yet. -/
def begin (db : Database) (now : Instant) (workflow : String) : Edits := ⟨workflow, db, now, []⟩

/-- The version of the workflow, if it is there. -/
def version? (w : Edits) : Option Int := (find? w.db.tables w.workflow).map (·.version)

/-- How many calls have succeeded. -/
def successes (w : Edits) : Nat := w.calls.countP (·.isWritten)

/-- A call has read the workflow and not yet written it. -/
def HasRead (w : Edits) (n : Nat) : Prop := ∃ c, w.calls[n]? = some c ∧ c.HasRead

/-- The next move of a call is one with which it succeeds. -/
def Commits (w : Edits) (n : Nat) : Prop := w.HasRead n ∧ (w.advance n).calls[n]? = some .written

/-- Another call has succeeded since this one has read the workflow. -/
def Overtaken (w : Edits) (moves : List Move) (n : Nat) : Prop :=
  ∃ before m later, moves = before ++ .advance m :: later ∧ m ≠ n ∧
    (w.play before).HasRead n ∧ (w.play before).Commits m

/-- Some call succeeds although it was overtaken. -/
def Overwrites (w : Edits) (moves : List Move) : Prop :=
  ∃ before n later, moves = before ++ .advance n :: later ∧
    (w.play before).Commits n ∧ w.Overtaken before n

end Edits

/-! ## Single moves -/

section Moves

variable {tables tables' : Tables} {supply supply' : Supply}

theorem workflows_of_commitEdit {now : Instant} {e : Edit} {u : Unit}
    (h : commitEdit now e tables supply = (.ok (u, tables'), supply')) :
    ∃ cells, workflowTable.changedCells e.row.id e.values = .ok cells ∧
      tables'.workflows = (workflowTable.withCells now e.row.id cells tables).workflows := by
  obtain ⟨cells, hcells, -, hwritten⟩ := commitEdit_eq_ok h
  refine ⟨cells, hcells, ?_⟩
  cases hs : e.steps with
  | none =>
    rw [hs] at hwritten
    rw [hwritten.1]
  | some steps =>
    rw [hs] at hwritten
    obtain ⟨rows, -, -, htables⟩ := hwritten
    rw [htables]

/-- What a move of a call does: it reads the version, or writes the one that it made of it, or fails
without a trace, or has nothing to do. -/
inductive Call.Moves (id : String) (now : Instant) (tables : Tables) : Call → Call → Tables → Prop
  | reads {changes : Changes} {steps : Option (List Fields)} {e : Edit}
      (h : find? tables id = some e.row) :
      Moves id now tables (.asked changes steps) (.read e) tables
  | writes {e : Edit} {tables' : Tables} {cells : List (Column WorkflowRow × Cell)}
      (hcells : workflowTable.changedCells e.row.id e.values = .ok cells)
      (h : tables'.workflows = (workflowTable.withCells now e.row.id cells tables).workflows) :
      Moves id now tables (.read e) .written tables'
  | fails {c : Call} {fault : Fault} (h : c.isWritten = false) :
      Moves id now tables c (.failed fault) tables
  | stays {c : Call} (h : ¬ c.HasRead) : Moves id now tables c c tables

theorem Call.moves_next (c : Call) (id : String) (now : Instant) (db : Database) :
    Moves id now db.tables c (c.next id now db).1 (c.next id now db).2.tables := by
  cases c with
  | asked changes steps =>
    obtain ⟨e, tables, supply, ht, hdb⟩ | ⟨fault, supply, _, hdb⟩ :=
      db.transact_cases (beginEdit id changes steps)
    · obtain ⟨hfind, _, rfl, _⟩ := beginEdit_eq_ok ht
      simp only [next, hdb]
      exact .reads hfind
    · simp only [next, hdb]
      exact .fails rfl
  | read e =>
    obtain ⟨u, tables, supply, ht, hdb⟩ | ⟨fault, supply, _, hdb⟩ :=
      db.transact_cases (commitEdit now e)
    · obtain ⟨cells, hcells, hworkflows⟩ := workflows_of_commitEdit ht
      simp only [next, hdb]
      exact .writes hcells hworkflows
    · simp only [next, hdb]
      exact .fails rfl
  | written => exact .stays not_false
  | failed fault => exact .stays not_false

/-- The two moves of a call that nothing comes between are a change that is made at once. -/
theorem Call.next_eq_update (changes : Changes) (steps : Option (List Fields))
    (id : String) (now : Instant) (db : Database) :
    let begun := (Call.asked changes steps).next id now db
    let done := begun.1.next id now begun.2
    done.2 = (db.transact (update now id changes steps)).2 ∧
      match (db.transact (update now id changes steps)).1 with
      | .ok _ => done.1 = .written
      | .error fault => done.1 = .failed fault := by
  obtain ⟨e, tables, supply, ht, hdb⟩ | ⟨fault, supply, ht, hdb⟩ :=
    db.transact_cases (beginEdit id changes steps)
  · obtain ⟨_, _, rfl, _⟩ := beginEdit_eq_ok ht
    have hupdate : update now id changes steps db.tables db.supply =
        (commitEdit now e).andThen (fun _ tables supply => (.ok (get? tables id, tables), supply))
          db.tables supply := by
      show (beginEdit id changes steps).andThen _ _ _ = _
      rw [andThen, ht]
      rfl
    obtain ⟨u, tables', supply', hc, hdb'⟩ | ⟨fault, supply', hc, hdb'⟩ :=
      Database.transact_cases ⟨db.tables, supply⟩ (commitEdit now e)
    · have hwhole : db.transact (update now id changes steps) =
          (.ok (get? tables' id), ⟨tables', supply'⟩) := by
        simp only [Database.transact, hupdate, andThen, hc]
      simp only [next, hdb, hdb', hwhole, and_self]
    · have hwhole : db.transact (update now id changes steps) =
          (.error fault, ⟨db.tables, supply'⟩) := by
        simp only [Database.transact, hupdate, andThen, hc]
      simp only [next, hdb, hdb', hwhole, and_self]
  · have hwhole : db.transact (update now id changes steps) =
        (.error fault, ⟨db.tables, supply⟩) := by
      have hupdate : update now id changes steps db.tables db.supply = (.error fault, supply) := by
        show (beginEdit id changes steps).andThen _ _ _ = _
        rw [andThen, ht]
      rw [Database.transact, hupdate]
    simp only [next, hdb, hwhole, and_self]

end Moves

namespace Edits

/-! ## Schedules -/

theorem play_append_singleton (w : Edits) (moves : List Move) (x : Move) :
    w.play (moves ++ [x]) = (w.play moves).step x := by
  simp [play]

theorem play_append_advance (w : Edits) (moves : List Move) (n : Nat) :
    w.play (moves ++ [.advance n]) = (w.play moves).advance n :=
  w.play_append_singleton moves (.advance n)

/-- A move of a schedule that is one longer is one of the schedule, or the last one. -/
theorem exists_advance_append {P : List Move → Nat → Prop} {moves : List Move} {x : Move} :
    (∃ before n later, moves ++ [x] = before ++ .advance n :: later ∧ P before n) ↔
      (∃ before n later, moves = before ++ .advance n :: later ∧ P before n) ∨
        ∃ n, x = .advance n ∧ P moves n := by
  constructor
  · rintro ⟨before, n, later, heq, hp⟩
    cases later using List.reverseRecOn with
    | nil =>
      obtain ⟨rfl, hx⟩ := List.append_inj' heq rfl
      cases hx
      exact .inr ⟨n, rfl, hp⟩
    | append_singleton later y =>
      rw [← List.cons_append, ← List.append_assoc] at heq
      obtain ⟨rfl, _⟩ := List.append_inj' heq rfl
      exact .inl ⟨before, n, later, rfl, hp⟩
  · rintro (⟨before, n, later, rfl, hp⟩ | ⟨n, rfl, hp⟩)
    · exact ⟨before, n, later ++ [x], by simp, hp⟩
    · exact ⟨moves, n, [], rfl, hp⟩

theorem overtaken_append {w : Edits} {moves : List Move} {x : Move} {n : Nat} :
    w.Overtaken (moves ++ [x]) n ↔ w.Overtaken moves n ∨
      ∃ m, x = .advance m ∧ m ≠ n ∧ (w.play moves).HasRead n ∧ (w.play moves).Commits m :=
  exists_advance_append
    (P := fun before m => m ≠ n ∧ (w.play before).HasRead n ∧ (w.play before).Commits m)

theorem overwrites_append {w : Edits} {moves : List Move} {x : Move} :
    w.Overwrites (moves ++ [x]) ↔ w.Overwrites moves ∨
      ∃ n, x = .advance n ∧ (w.play moves).Commits n ∧ w.Overtaken moves n :=
  exists_advance_append (P := fun before n => (w.play before).Commits n ∧ w.Overtaken before n)

/-- A last move with which no call succeeds overtakes and overwrites nothing. -/
theorem append_of_quiet {w : Edits} {moves : List Move} {x : Move}
    (h : ∀ n, x = .advance n → ¬ (w.play moves).Commits n) :
    (w.Overwrites (moves ++ [x]) ↔ w.Overwrites moves) ∧
      ∀ n, w.Overtaken (moves ++ [x]) n ↔ w.Overtaken moves n := by
  refine ⟨overwrites_append.trans (or_iff_left ?_),
    fun n => overtaken_append.trans (or_iff_left ?_)⟩
  · rintro ⟨m, hx, hcommits, _⟩
    exact h m hx hcommits
  · rintro ⟨m, hx, _, _, hcommits⟩
    exact h m hx hcommits

variable {w : Edits} {n : Nat} {c : Call}

theorem advance_of_some (h : w.calls[n]? = some c) :
    w.advance n = { w with
      db := (c.next w.workflow w.now w.db).2
      calls := w.calls.set n (c.next w.workflow w.now w.db).1 } := by
  simp only [advance, h]

theorem hasRead_iff (h : w.calls[n]? = some c) : w.HasRead n ↔ c.HasRead := by
  simp [HasRead, h]

theorem commits_iff (h : w.calls[n]? = some c) :
    w.Commits n ↔ c.HasRead ∧ (c.next w.workflow w.now w.db).1 = .written := by
  have hlt : n < w.calls.length := (List.getElem?_eq_some_iff.mp h).1
  rw [Commits, hasRead_iff h, advance_of_some h]
  simp [hlt]

theorem successes_set (h : w.calls[n]? = some c) (c' : Call) :
    (w.calls.set n c').countP (·.isWritten) + c.isWritten.toNat =
      w.successes + c'.isWritten.toNat := by
  obtain ⟨hlt, hc⟩ := List.getElem?_eq_some_iff.mp h
  have hpos : c.isWritten = true → 0 < w.calls.countP (·.isWritten) := fun hw =>
    List.countP_pos_iff.mpr ⟨c, List.mem_of_getElem? h, hw⟩
  rw [List.countP_set hlt, hc]
  unfold successes
  cases hw : c.isWritten <;> cases c'.isWritten <;> simp_all

/-- What the version has counted: all calls that have succeeded, unless one of them has overwritten
another. A call that has read will count one more, unless there is such a call already or it was
overtaken itself. -/
structure Counts (first : Int) (start : Edits) (moves : List Move) : Prop where
  version : ∃ v, (start.play moves).version? = some v ∧
    v ≤ first + (start.play moves).successes ∧
    (v = first + (start.play moves).successes ↔ ¬ start.Overwrites moves)
  read : ∀ n e, (start.play moves).calls[n]? = some (.read e) →
    e.row.id = (start.play moves).workflow ∧
    e.version ≤ first + (start.play moves).successes + 1 ∧
    (e.version = first + (start.play moves).successes + 1 ↔
      ¬ start.Overwrites moves ∧ ¬ start.Overtaken moves n)
  moved : ∀ n, start.Overtaken moves n →
    ∃ c, (start.play moves).calls[n]? = some c ∧ c.HasMoved

namespace Counts

variable {first : Int} {start : Edits} {moves : List Move} {x : Move}

/-- A move that writes nothing keeps what the version has counted. A call that reads in it has not
been overtaken, since it has not moved before. -/
theorem append_of_quiet (h : Counts first start moves)
    (hquiet : ∀ n, x = .advance n → ¬ (start.play moves).Commits n)
    (hworkflow : ((start.play moves).step x).workflow = (start.play moves).workflow)
    (hversion : ((start.play moves).step x).version? = (start.play moves).version?)
    (hsuccesses : ((start.play moves).step x).successes = (start.play moves).successes)
    (hread : ∀ (n : Nat) (e : Edit), ((start.play moves).step x).calls[n]? = some (.read e) →
      (start.play moves).calls[n]? = some (.read e) ∨
        (∃ c, (start.play moves).calls[n]? = some c ∧ ¬ c.HasMoved) ∧
        e.row.id = (start.play moves).workflow ∧
        ∀ v, (start.play moves).version? = some v → e.version = v + 1)
    (hmoved : ∀ (n : Nat) (c : Call), (start.play moves).calls[n]? = some c → c.HasMoved →
      ∃ c', ((start.play moves).step x).calls[n]? = some c' ∧ c'.HasMoved) :
    Counts first start (moves ++ [x]) := by
  obtain ⟨hoverwrites, hovertaken⟩ := Edits.append_of_quiet hquiet
  obtain ⟨v, hv, hle, hiff⟩ := h.version
  refine ⟨?_, fun n e he => ?_, fun n hn => ?_⟩
  · rw [play_append_singleton, hversion, hsuccesses, hoverwrites]
    exact ⟨v, hv, hle, hiff⟩
  · rw [play_append_singleton] at he ⊢
    rw [hworkflow, hsuccesses, hoverwrites, hovertaken]
    obtain hold | ⟨⟨c, hc, hnot⟩, hid, hnew⟩ := hread n e he
    · exact h.read n e hold
    · have hfree : ¬ start.Overtaken moves n := by
        intro hn
        obtain ⟨c', hc', hmoved'⟩ := h.moved n hn
        rw [hc] at hc'
        cases hc'
        exact hnot hmoved'
      have hone := hnew v hv
      refine ⟨hid, by omega, ?_⟩
      rw [and_iff_left hfree, ← hiff]
      omega
  · rw [play_append_singleton]
    obtain ⟨c, hc, hpast⟩ := h.moved n ((hovertaken n).mp hn)
    exact hmoved n c hc hpast

/-- A call that writes is counted if it has read the version that all calls before it have made,
and every other call that has read is overtaken by it. -/
theorem append_of_writes (h : Counts first start moves) {n : Nat} {e : Edit}
    (hcall : (start.play moves).calls[n]? = some (.read e))
    (hcommits : (start.play moves).Commits n)
    (hworkflow : ((start.play moves).advance n).workflow = (start.play moves).workflow)
    (hcalls : ((start.play moves).advance n).calls = (start.play moves).calls.set n .written)
    (hversion : ((start.play moves).advance n).version? = some e.version) :
    Counts first start (moves ++ [.advance n]) := by
  obtain ⟨hid, hle, hiff⟩ := h.read n e hcall
  have hoverwrites : start.Overwrites (moves ++ [.advance n]) ↔
      start.Overwrites moves ∨ start.Overtaken moves n := by
    rw [overwrites_append]
    refine or_congr_right ⟨?_, fun hn => ⟨n, rfl, hcommits, hn⟩⟩
    rintro ⟨m, hm, _, hn⟩
    cases hm
    exact hn
  have hsuccesses : ((start.play moves).advance n).successes =
      (start.play moves).successes + 1 := by
    have hset := successes_set hcall .written
    rw [← hcalls] at hset
    exact hset
  refine ⟨?_, fun k e' he' => ?_, fun k hk => ?_⟩
  · rw [play_append_advance, hsuccesses, hoverwrites, not_or, ← hiff]
    refine ⟨e.version, hversion, by omega, by omega⟩
  · rw [play_append_advance] at he' ⊢
    rw [hcalls] at he'
    have hne : n ≠ k := by
      rintro rfl
      have hlt := (List.getElem?_eq_some_iff.mp hcall).1
      rw [List.getElem?_set_self hlt] at he'
      cases he'
    rw [List.getElem?_set_ne hne] at he'
    obtain ⟨hid', hle', _⟩ := h.read k e' he'
    have hovertaken : start.Overtaken (moves ++ [.advance n]) k :=
      overtaken_append.mpr (.inr ⟨n, rfl, hne, (hasRead_iff he').mpr trivial, hcommits⟩)
    rw [hworkflow, hsuccesses]
    exact ⟨hid', by omega, fun heq => by omega, fun hfree => absurd hovertaken hfree.2⟩
  · rw [play_append_advance, hcalls]
    have hbefore : ∃ c, (start.play moves).calls[k]? = some c ∧ c.HasMoved := by
      obtain hold | ⟨m, hm, _, ⟨c, hc, hread⟩, _⟩ := overtaken_append.mp hk
      · exact h.moved k hold
      · cases c with
        | read e' => exact ⟨_, hc, trivial⟩
        | asked _ _ => exact hread.elim
        | written => exact hread.elim
        | failed _ => exact hread.elim
    obtain ⟨c, hc, hmoved⟩ := hbefore
    by_cases hne : n = k
    · subst hne
      have hlt := (List.getElem?_eq_some_iff.mp hcall).1
      exact ⟨.written, by rw [List.getElem?_set_self hlt], trivial⟩
    · exact ⟨c, by rwa [List.getElem?_set_ne hne], hmoved⟩

/-- A call whose move writes nothing: it has read just now, or it had before, or it has nothing read
to write. -/
theorem append_of_idle (h : Counts first start moves) {n : Nat} {c c' : Call} {db : Database}
    (hcall : (start.play moves).calls[n]? = some c)
    (hadvance : (start.play moves).advance n =
      { start.play moves with db, calls := (start.play moves).calls.set n c' })
    (htables : db.tables = (start.play moves).db.tables)
    (hidle : ¬ (c.HasRead ∧ c' = .written)) (hwritten : c'.isWritten = c.isWritten)
    (hread : ∀ e, c' = .read e → c = .read e ∨ ¬ c.HasMoved ∧
      e.row.id = (start.play moves).workflow ∧
      ∀ v, (start.play moves).version? = some v → e.version = v + 1)
    (hmoved : c.HasMoved → c'.HasMoved) : Counts first start (moves ++ [.advance n]) := by
  have hlt := (List.getElem?_eq_some_iff.mp hcall).1
  have hcalls (k : Nat) : ((start.play moves).step (.advance n)).calls[k]? =
      if n = k then some c' else (start.play moves).calls[k]? := by
    show ((start.play moves).advance n).calls[k]? = _
    rw [hadvance, List.getElem?_set]
    simp only [hlt, if_true]
  refine h.append_of_quiet ?_ ?_ ?_ ?_ (fun k e he => ?_) (fun k d hd hpast => ?_)
  · rintro m hm ⟨⟨d, hd, hdread⟩, hdone⟩
    cases hm
    rw [hcall] at hd
    cases hd
    have hdone' := hcalls n
    rw [if_pos rfl] at hdone'
    exact hidle ⟨hdread, Option.some.inj (hdone'.symm.trans hdone)⟩
  · exact (congrArg workflow hadvance).trans rfl
  · show ((start.play moves).advance n).version? = _
    rw [hadvance]
    show (find? db.tables _).map _ = _
    rw [htables]
    rfl
  · have hset := successes_set hcall c'
    rw [hwritten, Nat.add_right_cancel_iff] at hset
    show ((start.play moves).advance n).successes = _
    rw [hadvance]
    exact hset
  · rw [hcalls] at he
    split_ifs at he with hne
    · subst hne
      obtain rfl | ⟨hnot, hnew⟩ := hread e (Option.some.inj he)
      · exact .inl hcall
      · exact .inr ⟨⟨c, hcall, hnot⟩, hnew⟩
    · exact .inl he
  · rw [hcalls]
    split_ifs with hne
    · subst hne
      rw [hcall] at hd
      cases hd
      exact ⟨c', rfl, hmoved hpast⟩
    · exact ⟨d, hd, hpast⟩

/-- A call that moves on. -/
theorem append_advance (h : Counts first start moves) (n : Nat) :
    Counts first start (moves ++ [.advance n]) := by
  cases hcall : (start.play moves).calls[n]? with
  | none =>
    have hsame : (start.play moves).step (.advance n) = start.play moves := by
      simp only [step, advance, hcall]
    refine h.append_of_quiet ?_ (by rw [hsame]) (by rw [hsame]) (by rw [hsame])
      (fun k e he => .inl (by rwa [hsame] at he)) (fun k c hc hp => ⟨c, by rwa [hsame], hp⟩)
    rintro m hm ⟨⟨c, hc, _⟩, _⟩
    cases hm
    rw [hcall] at hc
    cases hc
  | some c =>
    have hadvance := advance_of_some hcall
    have hcommits := commits_iff hcall
    have hmove := c.moves_next (start.play moves).workflow (start.play moves).now
      (start.play moves).db
    generalize c.next (start.play moves).workflow (start.play moves).now
      (start.play moves).db = out at hadvance hcommits hmove
    obtain ⟨c', db⟩ := out
    dsimp only at hadvance hcommits hmove
    generalize htables : db.tables = tables at hmove
    cases hmove with
    | @reads _ _ e hold =>
      refine h.append_of_idle hcall hadvance htables (fun hc => by cases hc.2) rfl
        (fun e' he' => .inr ⟨not_false, ?_⟩) (fun _ => trivial)
      cases he'
      refine ⟨id_of_find? hold, fun v hv => ?_⟩
      rw [version?, hold] at hv
      cases hv
      rfl
    | @writes e _ cells hcells hrow =>
      obtain ⟨hid, _⟩ := h.read n e hcall
      obtain ⟨v, hv, _⟩ := h.version
      obtain ⟨old, hold, _⟩ := Option.map_eq_some_iff.mp hv
      refine h.append_of_writes hcall (hcommits.mpr ⟨trivial, rfl⟩)
        ((congrArg workflow hadvance).trans rfl) (congrArg calls hadvance) ?_
      rw [hadvance]
      show (find? db.tables _).map _ = _
      rw [htables, find?, hrow, hid]
      show (find? (workflowTable.withCells _ _ cells _) _).map _ = _
      rw [find?_withCells hcells, hold]
      exact congrArg some (Edit.makes_of_changedCells hcells _ old).version
    | fails hwritten =>
      exact h.append_of_idle hcall hadvance htables (fun hc => by cases hc.2) hwritten.symm
        (fun _ he => by cases he) (fun _ => trivial)
    | stays hnot =>
      exact h.append_of_idle hcall hadvance htables (fun hc => hnot hc.1) rfl
        (fun e he => .inl he) id

end Counts

/-- Every schedule counts. -/
theorem counts_play {start : Edits} {first : Int} (hfirst : start.version? = some first)
    (hcalls : start.calls = []) (moves : List Move) : Counts first start moves := by
  induction moves using List.reverseRecOn with
  | nil =>
    have hsuccesses : start.successes = 0 := by
      rw [successes, hcalls]
      rfl
    refine ⟨⟨first, hfirst, ?_, ?_⟩, fun n e he => ?_, ?_⟩
    · show first ≤ first + start.successes
      omega
    · show first = first + start.successes ↔ _
      rw [hsuccesses]
      refine iff_of_true (by omega) ?_
      rintro ⟨before, n, later, heq, _⟩
      simp at heq
    · change start.calls[n]? = _ at he
      rw [hcalls] at he
      cases he
    · rintro n ⟨before, m, later, heq, _⟩
      simp at heq
  | append_singleton moves x ih =>
    cases x with
    | ask changes steps =>
      have hcalls (k : Nat) (c : Call) (hc : (start.play moves).calls[k]? = some c) :
          ((start.play moves).calls ++ [.asked changes steps])[k]? = some c := by
        rw [List.getElem?_append_left (List.getElem?_eq_some_iff.mp hc).1, hc]
      refine ih.append_of_quiet nofun rfl rfl ?_ (fun k e he => .inl ?_)
        fun k c hc hp => ⟨c, hcalls k c hc, hp⟩
      · show List.countP _ (_ ++ _) = _
        rw [List.countP_append]
        rfl
      · change ((start.play moves).calls ++ [.asked changes steps])[k]? = _ at he
        rw [List.getElem?_append] at he
        split_ifs at he with hk
        · exact he
        · rw [List.getElem?_singleton] at he
          split_ifs at he
          cases he
    | advance n => exact ih.append_advance n
    | tick now =>
      exact ih.append_of_quiet nofun rfl rfl rfl (fun _ _ he => .inl he)
        fun _ c hc hp => ⟨c, hc, hp⟩

end Edits

/-- The version of a workflow counts all calls that have changed it, in exactly those schedules in
which no call succeeds that was overtaken by another one; it never counts more. -/
theorem version_counts_iff (db : Database) (now : Instant) (workflow : String) (moves : List Move)
    (first : Int) (hfirst : (Edits.begin db now workflow).version? = some first) :
    let start := Edits.begin db now workflow
    ∃ v, (start.play moves).version? = some v ∧ v ≤ first + (start.play moves).successes ∧
      (v = first + (start.play moves).successes ↔ ¬ start.Overwrites moves) :=
  (Edits.counts_play hfirst rfl moves).version

/-- A workflow of version seven. -/
def seventh : Database :=
  ⟨{ Tables.empty with
      workflows := [{ (default : WorkflowRow) with id := "w", name := "old", version := 7 }] },
    ⟨1, 1, 1⟩⟩

/-- A call that gives it a new name. -/
def askName (name : String) : Move :=
  .ask (Changes.ofFields [(.text "name", .text name)]) none

/-- Two calls that are made one after the other are both counted. -/
theorem version_counts_in_turn :
    let start := Edits.begin seventh ⟨0⟩ "w"
    let moves := [askName "a", .advance 0, .advance 0, askName "b", .advance 1, .advance 1]
    start.version? = some 7 ∧ (start.play moves).version? = some 9 ∧
      (start.play moves).successes = 2 ∧ ¬ start.Overwrites moves := by
  intro start moves
  have hfirst : start.version? = some 7 := by decide +kernel
  have hlast : (start.play moves).version? = some 9 := by decide +kernel
  have htwo : (start.play moves).successes = 2 := by decide +kernel
  obtain ⟨v, hv, _, hiff⟩ := version_counts_iff seventh ⟨0⟩ "w" moves 7 hfirst
  obtain rfl : 9 = v := Option.some.inj (hlast.symm.trans hv)
  refine ⟨hfirst, hlast, htwo, hiff.mp ?_⟩
  rw [htwo]
  rfl

/-- Two calls that both read before either of them writes are counted as one. -/
theorem version_misses_call :
    let start := Edits.begin seventh ⟨0⟩ "w"
    let moves := [askName "a", askName "b", .advance 0, .advance 1, .advance 0, .advance 1]
    start.version? = some 7 ∧ (start.play moves).successes = 2 ∧
      (start.play moves).version? = some 8 := by
  decide +kernel

end Stepwise.Workflow
