import Stepwise.Proofs.Run.Course

/-!
# A cancelled run is a run cut short

Two runs of one tree from one context, in surroundings that answer alike: one is never cancelled,
the other is cancelled while it waits for its n-th answer from outside, or before it begins. Up to
that moment they are the same. After it the cancelled run begins no step and no effect: it closes
steps that are open, and ends where it next looks for a cancellation.
-/

namespace Stepwise.Run

open Stage

variable {α σ : Type}

/-! ## What is seen of a run -/

/-- What a run does, as it is seen from outside. -/
inductive Happening
  /-- It appends an entry to its log. -/
  | entry (e : Entry)
  /-- It waits, sends a call, or has an operation of the store performed. -/
  | request (r : Request)

namespace Happening

def entry? : Happening → Option Entry
  | .entry e => some e
  | .request _ => none

def request? : Happening → Option Request
  | .entry _ => none
  | .request r => some r

end Happening

/-- How often a run was suspended in what happened. -/
def suspensions (happenings : List Happening) : Nat :=
  (happenings.filterMap Happening.request?).length

theorem suspensions_request (r : Request) (rest : List Happening) :
    suspensions (.request r :: rest) = suspensions rest + 1 := rfl

/-- A request that something else may come in while it is answered. -/
def Request.suspends : Request → Bool
  | .now | .cancelled => false
  | .wait _ | .send _ | .createTask _ | .updateTask _ _ | .deleteTask _ | .notify _ _ _ => true

/-- An operation of the store. -/
def Request.isOperation : Request → Bool
  | .createTask _ | .updateTask _ _ | .deleteTask _ | .notify _ _ _ => true
  | .now | .cancelled | .wait _ | .send _ => false

/-- The call that a request sends. -/
def Request.call? : Request → Option Outbound.Call
  | .send call => some call
  | .now | .cancelled | .wait _ | .createTask _ | .updateTask _ _ | .deleteTask _ | .notify _ _ _ =>
    none

/-- The requests of a run in their order. -/
def asked (respond : σ → (r : Request) → r.Answer × σ) : Program surroundings α → σ → List Request
  | .done _, _ => []
  | .ask r next, s => r :: asked respond (next (respond s r).1) (respond s r).2

/-- The requests of a run together with the entries that it appends: each reading of the clock is
for one entry. -/
def chronicle : List Request → List Entry → List Happening
  | [], _ => []
  | .now :: rest, entries => entries.head?.toList.map .entry ++ chronicle rest entries.tail
  | .cancelled :: rest, entries => chronicle rest entries
  | r :: rest, entries => .request r :: chronicle rest entries

section

variable (respond : σ → (r : Request) → r.Answer × σ)

/-- The log at the end of a run. -/
def finalLog (program : Program surroundings (Except Fault α × Context)) (s : σ) : List Entry :=
  (Program.run (I := surroundings) respond program s).1.2.log

/-- What happens in a run that begins with a log of the given length. -/
def story (program : Program surroundings (Except Fault α × Context)) (s : σ) (written : Nat) :
    List Happening :=
  chronicle (asked respond program s) ((finalLog respond program s).drop written)

end

variable {respond : σ → (r : Request) → r.Answer × σ} {post : Place → Except Fault α → Prop}
  {p : Place}

/-- A run only appends to its log. -/
theorem Course.log_prefix {program : Program surroundings (Except Fault α × Context)}
    (h : Course post program p) (s : σ) : p.log <+: finalLog respond program s := by
  induction program generalizing p s with
  | done out => exact h.1 ▸ List.prefix_rfl
  | ask r next ih =>
    obtain ⟨p', hmove, hrest⟩ := h (respond s r).1
    exact hmove.log_prefix.trans (ih _ hrest _)

@[simp] theorem story_done (out : Except Fault α × Context) (s : σ) (written : Nat) :
    story respond (.done out) s written = [] := rfl

/-- A reading of the clock is seen as the entry that is made after it. -/
theorem story_now {next : Instant → Program surroundings (Except Fault α × Context)} {s : σ}
    {log : List Entry} {e : Entry}
    (hlog : log ++ [e] <+: finalLog respond (next (respond s .now).1) (respond s .now).2) :
    story respond (.ask .now next) s log.length =
      .entry e :: story respond (next (respond s .now).1) (respond s .now).2
        (log ++ [e]).length := by
  obtain ⟨rest, hrest⟩ := hlog
  have hnow : (finalLog respond (next (respond s .now).1) (respond s .now).2).drop log.length =
      e :: rest := by
    rw [← hrest, List.append_assoc, List.drop_left]
    rfl
  have hlater : (finalLog respond (next (respond s .now).1) (respond s .now).2).drop
      (log ++ [e]).length = rest := by
    rw [← hrest, List.drop_left]
  show chronicle (.now :: asked respond (next (respond s .now).1) (respond s .now).2)
    ((finalLog respond (next (respond s .now).1) (respond s .now).2).drop log.length) = _
  rw [story, hnow, hlater]
  rfl

@[simp] theorem story_cancelled (next : Bool → Program surroundings (Except Fault α × Context))
    (s : σ) (written : Nat) :
    story respond (.ask .cancelled next) s written =
      story respond (next (respond s .cancelled).1) (respond s .cancelled).2 written := rfl

theorem story_suspends {r : Request} (hr : r.suspends = true)
    (next : r.Answer → Program surroundings (Except Fault α × Context)) (s : σ) (written : Nat) :
    story respond (.ask r next) s written =
      .request r :: story respond (next (respond s r).1) (respond s r).2 written := by
  cases r with
  | now => cases hr
  | cancelled => cases hr
  | wait micros => rfl
  | send call => rfl
  | createTask fields => rfl
  | updateTask id fields => rfl
  | deleteTask id => rfl
  | notify user title message => rfl

/-- A step that has begun may wait or have an effect, which is for no entry. -/
theorem Move.of_suspends {r : Request} (hr : r.suspends = true) {answer : r.Answer} {p' : Place}
    (h : Move p r answer p') : p.stand = .begun ∧ p'.opens = p.opens ∧ p'.log = p.log := by
  cases h with
  | look hs => cases hr
  | first hs he => cases hr
  | last hs ho he => cases hr
  | wait hs => exact ⟨hs, rfl, rfl⟩
  | effect hs hr => exact ⟨hs, rfl, rfl⟩

theorem Request.suspends_of_isEffect {r : Request} (h : r.isEffect = true) :
    r.suspends = true := by
  cases r with
  | now => cases h
  | cancelled => cases h
  | wait micros => cases h
  | _ => rfl

/-- The entries that are seen are those that the run appends to its log. -/
theorem Course.log_eq {program : Program surroundings (Except Fault α × Context)}
    (h : Course post program p) (s : σ) :
    finalLog respond program s =
      p.log ++ (story respond program s p.log.length).filterMap Happening.entry? := by
  induction program generalizing p s with
  | done out =>
    rw [story_done, List.filterMap_nil, List.append_nil]
    exact h.1
  | ask r next ih =>
    obtain ⟨p', hmove, hrest⟩ := h (respond s r).1
    have hlater := ih _ hrest (respond s r).2
    by_cases hr : r.suspends = true
    · obtain ⟨_, _, hlog⟩ := hmove.of_suspends hr
      rw [hlog] at hlater
      rw [story_suspends hr]
      exact hlater
    · cases r with
      | now =>
        obtain ⟨e, hlog, _⟩ := hmove.of_now
        rw [hlog] at hlater
        rw [story_now (hlog ▸ hrest.log_prefix _)]
        exact hlater.trans (List.append_assoc _ _ _)
      | cancelled =>
        obtain ⟨_, rfl⟩ := hmove.of_look
        exact hlater
      | _ => exact absurd rfl hr

/-- The requests that are seen are those that the run makes, but for its looks and its readings of
the clock. -/
theorem requests_chronicle (requests : List Request) (entries : List Entry) :
    (chronicle requests entries).filterMap Happening.request? =
      requests.filter Request.suspends := by
  induction requests generalizing entries with
  | nil => rfl
  | cons r rest ih =>
    cases r with
    | now =>
      cases entries with
      | nil => exact ih []
      | cons e entries => exact ih entries
    | cancelled => exact ih entries
    | wait micros => exact congrArg _ (ih entries)
    | send call => exact congrArg _ (ih entries)
    | createTask fields => exact congrArg _ (ih entries)
    | updateTask id fields => exact congrArg _ (ih entries)
    | deleteTask id => exact congrArg _ (ih entries)
    | notify user title message => exact congrArg _ (ih entries)

/-! ## Surroundings with and without a cancellation -/

/-- The surroundings without a cancellation. -/
def neverCancelled (respond : σ → (r : Request) → r.Answer × σ) (s : σ) :
    (r : Request) → r.Answer × σ
  | .cancelled => (false, (respond s .cancelled).2)
  | .wait micros => (false, (respond s (.wait micros)).2)
  | r => respond s r

/-- The surroundings with a cancellation that comes while the request that is the `moment`-th to
suspend the run is answered, or before the run if `moment` is zero. It breaks off the waits that
`breaks` says; the state counts the requests that have suspended the run. -/
def cancelledAt (respond : σ → (r : Request) → r.Answer × σ) (breaks : Option Nat → Bool)
    (moment : Nat) (s : σ × Nat) : (r : Request) → r.Answer × (σ × Nat)
  | .now => ((respond s.1 .now).1, ((respond s.1 .now).2, s.2))
  | .cancelled => (decide (moment ≤ s.2), ((respond s.1 .cancelled).2, s.2))
  | .wait micros =>
    (decide (moment ≤ s.2 + 1) && breaks micros, ((respond s.1 (.wait micros)).2, s.2 + 1))
  | r => ((respond s.1 r).1, ((respond s.1 r).2, s.2 + 1))

theorem neverCancelled_effect {r : Request} (hr : r.isEffect = true) (s : σ) :
    neverCancelled respond s r = respond s r := by
  cases r with
  | cancelled => cases hr
  | wait micros => cases hr
  | _ => rfl

theorem cancelledAt_effect {r : Request} (hr : r.isEffect = true) (breaks : Option Nat → Bool)
    (moment : Nat) (s : σ × Nat) :
    cancelledAt respond breaks moment s r =
      ((respond s.1 r).1, ((respond s.1 r).2, s.2 + 1)) := by
  cases r with
  | now => cases hr
  | cancelled => cases hr
  | wait micros => cases hr
  | _ => rfl

/-! ## The two runs -/

/-- A program that has been told of a cancellation is not seen to do anything more. -/
theorem Course.story_of_told {program : Program surroundings (Except Fault α × Context)}
    (h : Course post program p) (hs : p.stand = .told) (s : σ) (written : Nat) :
    story respond program s written = [] := by
  cases program with
  | done out => rfl
  | ask r next =>
    obtain ⟨p', hmove, _⟩ := h (respond s r).1
    exact absurd hs hmove.stand_ne_told

/-- By induction on what is left of the run. The cancelled run is answered as the other one until
the cancellation comes, and from then on until its next look or wait, where it ends. A run that was
cancelled stands where it has to look before it begins anything. -/
theorem Course.story_prefix {program : Program surroundings (Except Fault α × Context)}
    (h : Course post program p) (breaks : Option Nat → Bool) {moment : Nat} (s : σ) {n : Nat}
    (hn : moment ≤ n → p.stand = .between) :
    story (cancelledAt respond breaks moment) program (s, n) p.log.length <+:
      story (neverCancelled respond) program s p.log.length := by
  induction program generalizing p s n with
  | done out => exact List.prefix_rfl
  | ask r next ih =>
    by_cases hr : r.isEffect = true
    · obtain ⟨p', hmove, hrest⟩ := h (respond s r).1
      obtain ⟨_, rfl⟩ := hmove.of_effect hr
      rw [story_suspends (Request.suspends_of_isEffect hr),
        story_suspends (Request.suspends_of_isEffect hr), cancelledAt_effect hr,
        neverCancelled_effect hr]
      exact (List.prefix_cons_inj _).mpr (ih _ hrest _ fun _ => rfl)
    · cases r with
      | now =>
        obtain ⟨p', hmove, hrest⟩ := h (respond s .now).1
        obtain ⟨e, hlog, hstand⟩ := hmove.of_now
        rw [story_now (hlog ▸ hrest.log_prefix _), story_now (hlog ▸ hrest.log_prefix _), ← hlog]
        refine (List.prefix_cons_inj _).mpr (ih _ hrest _ fun hm => ?_)
        obtain ⟨hlooked, _⟩ | ⟨_, _, _, hbetween⟩ := hstand
        · rw [hn hm] at hlooked
          cases hlooked
        · exact hbetween
      | cancelled =>
        rw [story_cancelled, story_cancelled]
        by_cases hm : moment ≤ n
        · obtain ⟨p', hmove, hrest⟩ := h true
          obtain ⟨_, rfl⟩ := hmove.of_look
          show story _ (next (decide (moment ≤ n))) _ _ <+: _
          rw [decide_eq_true hm, hrest.story_of_told rfl]
          exact List.nil_prefix
        · obtain ⟨p', hmove, hrest⟩ := h false
          obtain ⟨_, rfl⟩ := hmove.of_look
          show story _ (next (decide (moment ≤ n))) _ _ <+: _
          rw [decide_eq_false hm]
          exact ih false hrest _ fun hm' => absurd hm' hm
      | wait micros =>
        rw [story_suspends rfl, story_suspends rfl]
        refine (List.prefix_cons_inj _).mpr ?_
        show story _ (next (decide (moment ≤ n + 1) && breaks micros)) _ _ <+: _
        cases decide (moment ≤ n + 1) && breaks micros with
        | true =>
          obtain ⟨p', hmove, hrest⟩ := h true
          obtain ⟨_, rfl⟩ := hmove.of_wait
          rw [hrest.story_of_told rfl]
          exact List.nil_prefix
        | false =>
          obtain ⟨p', hmove, hrest⟩ := h false
          obtain ⟨_, rfl⟩ := hmove.of_wait
          exact ih false hrest _ fun _ => rfl
      | _ => exact absurd rfl hr

/-- What is common to two lists with the same head. -/
theorem prefix_cons_of_eq {x happening : Happening} {before after plain cut : List Happening}
    (he : x :: plain = before ++ happening :: after)
    (h : ∀ before', before = x :: before' → plain = before' ++ happening :: after →
      before' ++ [happening] <+: cut) :
    before ++ [happening] <+: x :: cut := by
  cases before with
  | nil =>
    obtain ⟨rfl, _⟩ := List.cons.inj he
    exact (List.prefix_cons_inj _).mpr List.nil_prefix
  | cons y before' =>
    obtain ⟨rfl, hplain⟩ := List.cons.inj he
    exact (List.prefix_cons_inj _).mpr (h before' rfl hplain)

/-- By induction on what is left of the run: what happens in the other run before the cancellation
comes, and the request in which it comes, happens in the cancelled run too. -/
theorem Course.story_reaches {program : Program surroundings (Except Fault α × Context)}
    (h : Course post program p) (breaks : Option Nat → Bool) {moment : Nat} (s : σ) {n : Nat}
    {before after : List Happening} {happening : Happening}
    (he : story (neverCancelled respond) program s p.log.length = before ++ happening :: after)
    (hm : n + suspensions before < moment) :
    before ++ [happening] <+:
      story (cancelledAt respond breaks moment) program (s, n) p.log.length := by
  induction program generalizing p s n before with
  | done out =>
    rw [story_done] at he
    exact absurd he.symm (List.append_ne_nil_of_right_ne_nil _ (List.cons_ne_nil _ _))
  | ask r next ih =>
    by_cases hr : r.isEffect = true
    · obtain ⟨p', hmove, hrest⟩ := h (respond s r).1
      obtain ⟨_, rfl⟩ := hmove.of_effect hr
      rw [story_suspends (Request.suspends_of_isEffect hr), neverCancelled_effect hr] at he
      rw [story_suspends (Request.suspends_of_isEffect hr), cancelledAt_effect hr]
      refine prefix_cons_of_eq he ?_
      rintro before' rfl hlater
      rw [suspensions_request] at hm
      exact ih _ hrest _ hlater (by omega)
    · cases r with
      | now =>
        obtain ⟨p', hmove, hrest⟩ := h (respond s .now).1
        obtain ⟨e, hlog, _⟩ := hmove.of_now
        rw [story_now (hlog ▸ hrest.log_prefix _), ← hlog] at he
        rw [story_now (hlog ▸ hrest.log_prefix _), ← hlog]
        refine prefix_cons_of_eq he ?_
        rintro before' rfl hlater
        exact ih _ hrest _ hlater hm
      | cancelled =>
        obtain ⟨p', hmove, hrest⟩ := h false
        obtain ⟨_, rfl⟩ := hmove.of_look
        rw [story_cancelled] at he ⊢
        show _ <+: story _ (next (decide (moment ≤ n))) _ _
        rw [decide_eq_false (by omega)]
        exact ih false hrest _ he hm
      | wait micros =>
        obtain ⟨p', hmove, hrest⟩ := h false
        obtain ⟨_, rfl⟩ := hmove.of_wait
        rw [story_suspends rfl] at he ⊢
        refine prefix_cons_of_eq he ?_
        rintro before' rfl hlater
        rw [suspensions_request] at hm
        show _ <+: story _ (next (decide (moment ≤ n + 1) && breaks micros)) _ _
        rw [decide_eq_false (by omega), Bool.false_and]
        exact ih false hrest _ hlater (by omega)
      | _ => exact absurd rfl hr

/-- The steps that are open after some happenings, the innermost first. -/
def opensAfter (opens : List Frame) : List Happening → List Frame
  | [] => opens
  | .entry e :: rest =>
    opensAfter (if e.mark = .started then e.frame :: opens else opens.tail) rest
  | .request _ :: rest => opensAfter opens rest

/-- What happens is that steps are closed, the innermost of those that are open and then the steps
around it. -/
def OnlyCloses (opens : List Frame) (happenings : List Happening) : Prop :=
  ∃ entries : List Entry, happenings = entries.map .entry ∧ (∀ e ∈ entries, e.mark ≠ .started) ∧
    entries.map Entry.frame <+: opens

theorem onlyCloses_nil (opens : List Frame) : OnlyCloses opens [] :=
  ⟨[], rfl, by simp, List.nil_prefix⟩

theorem OnlyCloses.cons {e : Entry} {opens : List Frame} {happenings : List Happening}
    (he : e.mark ≠ .started) (h : OnlyCloses opens happenings) :
    OnlyCloses (e.frame :: opens) (.entry e :: happenings) := by
  obtain ⟨entries, rfl, hmarks, hframes⟩ := h
  exact ⟨e :: entries, rfl, List.forall_mem_cons.mpr ⟨he, hmarks⟩,
    (List.prefix_cons_inj _).mpr hframes⟩

/-- By induction on what is left of a run that was cancelled: it closes steps until its next look.
-/
theorem Course.onlyCloses {program : Program surroundings (Except Fault α × Context)}
    (h : Course post program p) (breaks : Option Nat → Bool) {moment : Nat} (s : σ) {n : Nat}
    (hm : moment ≤ n) (hs : p.stand = .between) :
    OnlyCloses p.opens
      (story (cancelledAt respond breaks moment) program (s, n) p.log.length) := by
  induction program generalizing p s with
  | done out => exact onlyCloses_nil _
  | ask r next ih =>
    by_cases hr : r.suspends = true
    · obtain ⟨p', hmove, _⟩ := h (respond s r).1
      obtain ⟨hbegun, _⟩ := hmove.of_suspends hr
      rw [hs] at hbegun
      cases hbegun
    · cases r with
      | now =>
        obtain ⟨p', hmove, hrest⟩ := h (respond s .now).1
        obtain ⟨e, hlog, hstand⟩ := hmove.of_now
        obtain ⟨hlooked, _⟩ | ⟨_, he, hopens, hbetween⟩ := hstand
        · rw [hs] at hlooked
          cases hlooked
        · rw [story_now (hlog ▸ hrest.log_prefix _), ← hlog, hopens]
          exact (ih _ hrest _ hbetween).cons he
      | cancelled =>
        obtain ⟨p', hmove, hrest⟩ := h true
        obtain ⟨_, rfl⟩ := hmove.of_look
        rw [story_cancelled]
        show OnlyCloses _ (story _ (next (decide (moment ≤ n))) _ _)
        rw [decide_eq_true hm, hrest.story_of_told rfl]
        exact onlyCloses_nil _
      | _ => exact absurd rfl hr

/-- By induction on what is left of the run, wherever what happens is parted after the
cancellation. -/
theorem Course.onlyCloses_after {program : Program surroundings (Except Fault α × Context)}
    (h : Course post program p) (breaks : Option Nat → Bool) {moment : Nat} (s : σ) {n : Nat}
    (hn : moment ≤ n → p.stand = .between) {before after : List Happening}
    (he : story (cancelledAt respond breaks moment) program (s, n) p.log.length = before ++ after)
    (hm : moment ≤ n + suspensions before) :
    OnlyCloses (opensAfter p.opens before) after := by
  induction program generalizing p s n before with
  | done out =>
    obtain ⟨_, rfl⟩ := List.append_eq_nil_iff.mp he.symm
    exact onlyCloses_nil _
  | ask r next ih =>
    cases before with
    | nil =>
      obtain rfl : _ = after := he
      exact h.onlyCloses breaks s hm (hn hm)
    | cons happening before =>
      by_cases hr : r.isEffect = true
      · obtain ⟨p', hmove, hrest⟩ := h (respond s r).1
        obtain ⟨_, rfl⟩ := hmove.of_effect hr
        rw [story_suspends (Request.suspends_of_isEffect hr), cancelledAt_effect hr] at he
        obtain ⟨rfl, hlater⟩ := List.cons.inj he
        show OnlyCloses (opensAfter p.opens before) after
        refine ih _ hrest _ (fun _ => rfl) hlater ?_
        rw [suspensions_request] at hm
        show moment ≤ n + 1 + suspensions before
        omega
      · cases r with
        | now =>
          obtain ⟨p', hmove, hrest⟩ := h (respond s .now).1
          obtain ⟨e, hlog, hstand⟩ := hmove.of_now
          rw [story_now (hlog ▸ hrest.log_prefix _), ← hlog] at he
          obtain ⟨rfl, hlater⟩ := List.cons.inj he
          obtain ⟨hlooked, hmark, hopens⟩ | ⟨_, hmark, hopens, hbetween⟩ := hstand
          · rw [opensAfter, if_pos hmark, ← hopens]
            refine ih _ hrest _ (fun hm' => ?_) hlater hm
            rw [hn hm'] at hlooked
            cases hlooked
          · rw [opensAfter, if_neg hmark, hopens]
            exact ih _ hrest _ (fun _ => hbetween) hlater hm
        | cancelled =>
          rw [story_cancelled] at he
          change story _ (next (decide (moment ≤ n))) _ _ = _ at he
          by_cases hm' : moment ≤ n
          · obtain ⟨p', hmove, hrest⟩ := h true
            obtain ⟨_, rfl⟩ := hmove.of_look
            rw [decide_eq_true hm', hrest.story_of_told rfl] at he
            cases he
          · obtain ⟨p', hmove, hrest⟩ := h false
            obtain ⟨_, rfl⟩ := hmove.of_look
            rw [decide_eq_false hm'] at he
            exact ih false hrest _ (fun hle => absurd hle hm') he hm
        | wait micros =>
          rw [story_suspends rfl] at he
          obtain ⟨rfl, hlater⟩ := List.cons.inj he
          change story _ (next (decide (moment ≤ n + 1) && breaks micros)) _ _ = _ at hlater
          cases hb : decide (moment ≤ n + 1) && breaks micros with
          | true =>
            obtain ⟨p', hmove, hrest⟩ := h true
            obtain ⟨_, rfl⟩ := hmove.of_wait
            rw [hb, hrest.story_of_told rfl] at hlater
            obtain ⟨_, rfl⟩ := List.append_eq_nil_iff.mp hlater.symm
            exact onlyCloses_nil _
          | false =>
            obtain ⟨p', hmove, hrest⟩ := h false
            obtain ⟨_, rfl⟩ := hmove.of_wait
            rw [hb] at hlater
            show OnlyCloses (opensAfter p.opens before) after
            refine ih false hrest _ (fun _ => rfl) hlater ?_
            rw [suspensions_request] at hm
            show moment ≤ n + 1 + suspensions before
            omega
        | _ => exact absurd rfl hr

/-! ## The whole run -/

/-- The requests of a run that the store performs. -/
def operations (requests : List Request) : List Request := requests.filter Request.isOperation

/-- The calls that a run sends. -/
def calls (requests : List Request) : List Outbound.Call := requests.filterMap Request.call?

theorem operations_filter_suspends (requests : List Request) :
    operations (requests.filter Request.suspends) = operations requests := by
  rw [operations, List.filter_filter]
  refine List.filter_congr fun r _ => ?_
  cases r with
  | _ => rfl

theorem calls_filter_suspends (requests : List Request) :
    calls (requests.filter Request.suspends) = calls requests := by
  rw [calls, List.filterMap_filter]
  congr 1
  funext r
  cases r with
  | _ => rfl

/-- A run that is cancelled while the `moment`-th request that suspends it is answered, or before it
begins, does what the run of the same tree from the same context does that is never cancelled, only
less of it: its log, its operations of the store and its calls are the beginnings of those of the
other run. It does all that comes before that moment, and the request in which the moment falls.
What happens in it after that moment is that open steps are closed, from the innermost on; nothing
is begun. -/
theorem cancelled_run_cut_short (respond : σ → (r : Request) → r.Answer × σ)
    (breaks : Option Nat → Bool) (moment : Nat) (tree : StepTree) (limit : Int) (c : Context)
    (s : σ) :
    let plain := neverCancelled respond
    let cut := cancelledAt respond breaks moment
    let run := runTree tree limit c
    let happened := story cut run (s, 0) c.log.length
    finalLog cut run (s, 0) <+: finalLog plain run s ∧
      operations (asked cut run (s, 0)) <+: operations (asked plain run s) ∧
      calls (asked cut run (s, 0)) <+: calls (asked plain run s) ∧
      happened <+: story plain run s c.log.length ∧
      (∀ before happening after,
        story plain run s c.log.length = before ++ happening :: after →
        suspensions before < moment → before ++ [happening] <+: happened) ∧
      finalLog cut run (s, 0) = c.log ++ happened.filterMap Happening.entry? ∧
      (asked cut run (s, 0)).filter Request.suspends = happened.filterMap Happening.request? ∧
      ∀ before after, happened = before ++ after →
        moment ≤ suspensions before →
        OnlyCloses (opensAfter [] before) after := by
  intro plain cut run happened
  have hcourse : Course (Returns []) run ⟨.between, [], c.log⟩ := course_runTree tree limit c
  have hstory : happened <+: story plain run s c.log.length :=
    hcourse.story_prefix breaks s fun _ => rfl
  have hlog : finalLog cut run (s, 0) = c.log ++ happened.filterMap Happening.entry? :=
    hcourse.log_eq (s, 0)
  have hasked : (asked cut run (s, 0)).filter Request.suspends =
      happened.filterMap Happening.request? := (requests_chronicle _ _).symm
  have hplain : (asked plain run s).filter Request.suspends =
      (story plain run s c.log.length).filterMap Happening.request? :=
    (requests_chronicle _ _).symm
  have hrequests : (asked cut run (s, 0)).filter Request.suspends <+:
      (asked plain run s).filter Request.suspends := by
    rw [hasked, hplain]
    exact hstory.filterMap _
  refine ⟨?_, ?_, ?_, hstory, ?_, hlog, hasked, ?_⟩
  · rw [hlog, hcourse.log_eq s]
    exact (List.prefix_append_right_inj _).mpr (hstory.filterMap _)
  · rw [← operations_filter_suspends, ← operations_filter_suspends (asked plain run s)]
    exact hrequests.filter _
  · rw [← calls_filter_suspends, ← calls_filter_suspends (asked plain run s)]
    exact hrequests.filterMap _
  · intro before happening after he hm
    exact hcourse.story_reaches breaks s he (by omega)
  · intro before after he hm
    exact hcourse.onlyCloses_after breaks s (fun _ => rfl) he (by omega)

end Stepwise.Run
