import Stepwise.Proofs.Execution.Account
import Stepwise.Proofs.Execution.World

/-!
# What a server does for an execution

What each request changes on the server: only the opening and the closing of a record change
records, and only registering and withdrawing change who can be reached. No answer is the fault of
a cancelled run.
-/

namespace Stepwise.Server

open Store Execution

@[simp] theorem signal_db (s : Server) (controller : Controller) (id : String) :
    (s.signal controller id).db = s.db := by
  unfold signal
  split_ifs
  · rfl
  · rfl

/-- What the run of the steps asks changes no record, nor whom a cancellation reaches, and is not
answered by the fault of a cancelled run. -/
theorem respondRun_spec (s : Server) (id : String) (r : Run.Request) :
    (s.respondRun id r).2.db.tables.executions = s.db.tables.executions ∧
      (s.respondRun id r).2.registered = s.registered ∧
      (s.respondRun id r).2.signalled = s.signalled ∧
      (s.respondRun id r).2.now = s.now ∧ r.Fair (s.respondRun id r).1 := by
  cases r with
  | now => exact ⟨rfl, rfl, rfl, rfl, trivial⟩
  | cancelled => exact ⟨rfl, rfl, rfl, rfl, trivial⟩
  | wait micros => exact ⟨rfl, rfl, rfl, rfl, trivial⟩
  | send call => exact ⟨rfl, rfl, rfl, rfl, trivial⟩
  | createTask fields =>
    obtain ⟨hview, hfair⟩ := Database.transact_aside (Task.aside_create s.now fields) s.db
    exact ⟨hview, rfl, rfl, rfl, hfair⟩
  | updateTask task fields =>
    obtain ⟨hview, hfair⟩ := Database.transact_aside (Task.aside_update s.now task fields) s.db
    exact ⟨hview, rfl, rfl, rfl, hfair⟩
  | deleteTask task =>
    obtain ⟨hview, hfair⟩ := Database.transact_aside (Task.aside_delete task) s.db
    exact ⟨hview, rfl, rfl, rfl, hfair⟩
  | notify user title message =>
    obtain ⟨hview, hfair⟩ :=
      Database.transact_aside (Task.aside_notify s.now user title message) s.db
    exact ⟨hview, rfl, rfl, rfl, hfair⟩

/-- No request of an execution signals a cancellation. -/
theorem signalled_respond (s : Server) (controller : Controller) (r : Execution.Request) :
    (s.respond controller r).2.signalled = s.signalled := by
  cases r with
  | run id r => exact (s.respondRun_spec id r).2.2.1
  | accept url payload signature => rfl
  | load workflow => rfl
  | start workflow input triggeredBy => rfl
  | register id => rfl
  | withdraw id => rfl
  | close id since closing => rfl

/-- What an execution may ask is not answered by the fault of a cancelled run. -/
theorem fair_respond (s : Server) {a : Account} {r : Execution.Request} (h : a.May r) :
    r.Fair (s.respond .main r).1 := by
  cases r with
  | accept url payload signature => exact h.elim
  | load workflow => trivial
  | start workflow input triggeredBy =>
    exact (transact_start s.db s.now workflow input triggeredBy).1
  | register id => trivial
  | withdraw id => trivial
  | close id since closing => trivial
  | run id r => exact (s.respondRun_spec id r).2.2.2.2

/-- Whom a cancellation reaches after a request of an execution on a server that runs nothing
else. -/
theorem mem_registered_respond (s : Server) {a : Account} {r : Execution.Request} (h : a.May r)
    (hs : ∀ e, e ∈ s.registered ↔ a.reachable = true ∧ e.1 = .main ∧ a.id = some e.2)
    (e : Controller × String) :
    e ∈ (s.respond .main r).2.registered ↔
      (a.after r (s.respond .main r).1).reachable = true ∧ e.1 = .main ∧
        (a.after r (s.respond .main r).1).id = some e.2 := by
  cases r with
  | accept url payload signature => exact h.elim
  | load workflow => exact hs e
  | start workflow input triggeredBy =>
    obtain rfl : a = .initial := h
    have hnone := hs e
    simp only [Account.initial] at hnone
    show e ∈ s.registered ↔ _
    simpa [Account.after, Account.initial] using hnone
  | register id =>
    obtain ⟨hid, hreachable, _⟩ := h
    have hnone := hs e
    show e ∈ s.registered ++ [(.main, id)] ↔ _
    rw [List.mem_append, hnone]
    simp [Account.after, hid, hreachable, Prod.ext_iff, eq_comm]
  | withdraw id =>
    obtain ⟨hid, _, _⟩ := h
    show e ∈ s.registered.filter (· != (.main, id)) ↔ _
    rw [List.mem_filter, hs e, hid]
    constructor
    · rintro ⟨⟨_, hmain, he⟩, hne⟩
      obtain ⟨controller, id'⟩ := e
      obtain rfl : controller = .main := hmain
      obtain rfl : id = id' := by simpa using he
      simp at hne
    · rintro ⟨h, _⟩
      cases h
  | close id since closing => exact hs e
  | run id r =>
    show e ∈ (s.respondRun id r).2.registered ↔ _
    rw [(s.respondRun_spec id r).2.1]
    exact hs e

end Stepwise.Server
