/-!
# Programs that ask

A program computes a result and on the way asks requests of its surroundings; what it does next
depends on the answers only. Programs are finite trees, so every run of one ends. `run` answers
all requests from a state; `advance` stops at the first request that cannot be answered yet and
keeps what is left of the program.
-/

namespace Stepwise

/-- The requests that a program can make, each with the type of its answers. -/
structure Interface where
  Request : Type
  Answer : Request → Type

/-- A program with a result of type `α`. -/
inductive Program (I : Interface) (α : Type)
  | done (result : α)
  | ask (request : I.Request) (next : I.Answer request → Program I α)

namespace Program

variable {I J : Interface} {α β σ : Type}

/-- Goes on with the result of a program. -/
def bind : Program I α → (α → Program I β) → Program I β
  | .done result, f => f result
  | .ask request next, f => .ask request fun answer => (next answer).bind f

instance : Monad (Program I) where
  pure := .done
  bind := Program.bind

/-- Makes one request. -/
def request (r : I.Request) : Program I (I.Answer r) := .ask r .done

/-- The same program over more requests. -/
def lift (embed : I.Request → J.Request)
    (answer : (r : I.Request) → J.Answer (embed r) → I.Answer r) : Program I α → Program J α
  | .done result => .done result
  | .ask request next =>
    .ask (embed request) fun given => (next (answer request given)).lift embed answer

/-- Runs a program, answering every request from a state. -/
def run (respond : σ → (r : I.Request) → I.Answer r × σ) : Program I α → σ → α × σ
  | .done result, state => (result, state)
  | .ask request next, state =>
    let (answer, state) := respond state request
    (next answer).run respond state

/-- Runs a program up to the first request that cannot be answered. -/
def advance (respond : σ → (r : I.Request) → Option (I.Answer r) × σ) :
    Program I α → σ → Program I α × σ
  | .done result, state => (.done result, state)
  | .ask request next, state =>
    match respond state request with
    | (some answer, state) => (next answer).advance respond state
    | (none, state) => (.ask request next, state)

@[simp] theorem bind_done (result : α) (f : α → Program I β) :
    (Program.done result).bind f = f result := rfl

@[simp] theorem bind_ask (r : I.Request) (next : I.Answer r → Program I α)
    (f : α → Program I β) :
    (Program.ask r next).bind f = .ask r fun answer => (next answer).bind f := rfl

theorem bind_assoc {γ : Type} (p : Program I α) (f : α → Program I β) (g : β → Program I γ) :
    (p.bind f).bind g = p.bind fun x => (f x).bind g := by
  induction p with
  | done result => rfl
  | ask r next ih => simp only [bind_ask, ih]

/-- Running a sequence runs its parts one after the other. -/
theorem run_bind (respond : σ → (r : I.Request) → I.Answer r × σ) (p : Program I α)
    (f : α → Program I β) (state : σ) :
    (p.bind f).run respond state =
      (f (p.run respond state).1).run respond (p.run respond state).2 := by
  induction p generalizing state with
  | done result => rfl
  | ask r next ih => simp only [bind_ask, run, ih]

end Program

end Stepwise
