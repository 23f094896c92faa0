import Mathlib.Tactic.Common
import Stepwise.Program

/-!
# Contracts of programs

A contract says what a program may ask and which answers it has to reckon with, depending on a
state that every exchange moves on. Keeping a contract is a property of the whole tree of a program,
so it holds in every run with fair answers, whatever they are. It passes through sequencing, through
the embedding into a larger interface, and to every prefix of a run.
-/

namespace Stepwise

/-- What may be asked and what may be answered, as far as the exchanges have come. -/
structure Contract (I : Interface) (σ : Type) where
  /-- The program may make the request. -/
  may : σ → I.Request → Prop
  /-- The surroundings may give the answer. -/
  fair : σ → (r : I.Request) → I.Answer r → Prop
  /-- The state after an exchange. -/
  next : σ → (r : I.Request) → I.Answer r → σ

/-- The contract that forbids nothing and remembers nothing. -/
def Contract.any (I : Interface) : Contract I Unit where
  may := fun _ _ => True
  fair := fun _ _ _ => True
  next := fun _ _ _ => ()

/-- The contract that allows some requests only, and remembers nothing. -/
def Contract.only {I : Interface} (allowed : I.Request → Prop) : Contract I Unit where
  may := fun _ r => allowed r
  fair := fun _ _ _ => True
  next := fun _ _ _ => ()

namespace Program

variable {I J : Interface} {α β σ τ ω : Type}

/-- From a state on, the program asks only what it may and ends as `post` says. -/
def Keeps (k : Contract I σ) (post : σ → α → Prop) : Program I α → σ → Prop
  | .done result, s => post s result
  | .ask r next, s =>
    k.may s r ∧ ∀ answer, k.fair s r answer → (next answer).Keeps k post (k.next s r answer)

@[simp] theorem keeps_ask {k : Contract I σ} {post : σ → α → Prop} (r : I.Request)
    (next : I.Answer r → Program I α) (s : σ) :
    (Program.ask r next).Keeps k post s ↔ k.may s r ∧
      ∀ answer, k.fair s r answer → (next answer).Keeps k post (k.next s r answer) := Iff.rfl

theorem Keeps.mono {k : Contract I σ} {post post' : σ → α → Prop} {p : Program I α} {s : σ}
    (h : p.Keeps k post s) (hp : ∀ s a, post s a → post' s a) : p.Keeps k post' s := by
  induction p generalizing s with
  | done result => exact hp s result h
  | ask r next ih => exact ⟨h.1, fun answer hf => ih answer (h.2 answer hf)⟩

/-- A sequence keeps a contract if its first part leads to where the second part keeps it. -/
theorem keeps_bind {k : Contract I σ} {post : σ → β → Prop} (p : Program I α)
    (f : α → Program I β) (s : σ) :
    (p.bind f).Keeps k post s ↔ p.Keeps k (fun s a => (f a).Keeps k post s) s := by
  induction p generalizing s with
  | done result => exact Iff.rfl
  | ask r next ih => simp only [bind_ask, keeps_ask, ih]

/-- A program that keeps a contract keeps the corresponding one over more requests. The states of
the larger contract have a part, `view`, that moves as the smaller contract says, as long as they
are of the kind `inv`. -/
theorem Keeps.lift {k : Contract I σ} {k' : Contract J τ} {embed : I.Request → J.Request}
    {answer : (r : I.Request) → J.Answer (embed r) → I.Answer r} (view : τ → σ) (inv : τ → Prop)
    (hmay : ∀ t r, inv t → k.may (view t) r → k'.may t (embed r))
    (hfair : ∀ t r a, inv t → k'.fair t (embed r) a → k.fair (view t) r (answer r a))
    (hnext : ∀ t r a, inv t → inv (k'.next t (embed r) a) ∧
      view (k'.next t (embed r) a) = k.next (view t) r (answer r a))
    {post : σ → α → Prop} {p : Program I α} {t : τ} (ht : inv t)
    (h : p.Keeps k post (view t)) :
    (p.lift embed answer).Keeps k' (fun t a => inv t ∧ post (view t) a) t := by
  induction p generalizing t with
  | done result => exact ⟨ht, h⟩
  | ask r next ih =>
    refine ⟨hmay t r ht h.1, fun a ha => ?_⟩
    obtain ⟨hinv, hview⟩ := hnext t r a ht
    apply ih (answer r a) hinv
    rw [hview]
    exact h.2 _ (hfair t r a ht ha)

/-- In surroundings that answer fairly, as `rel` between the states of the contract and their own
states tells, a run ends as promised. -/
theorem Keeps.run {k : Contract I σ} {respond : ω → (r : I.Request) → I.Answer r × ω}
    (rel : σ → ω → Prop)
    (hrel : ∀ s w r, rel s w → k.may s r → k.fair s r (respond w r).1 ∧
      rel (k.next s r (respond w r).1) (respond w r).2)
    {post : σ → α → Prop} {p : Program I α} {s : σ} {w : ω} (hs : rel s w)
    (h : p.Keeps k post s) :
    ∃ s', post s' (p.run respond w).1 ∧ rel s' (p.run respond w).2 := by
  induction p generalizing s w with
  | done result => exact ⟨s, h, hs⟩
  | ask r next ih =>
    obtain ⟨hf, hn⟩ := hrel s w r hs h.1
    exact ih _ hn (h.2 _ hf)

/-- However it is answered, the program makes only requests that are allowed. -/
def AsksOnly (p : Program I α) (allowed : I.Request → Prop) : Prop :=
  p.Keeps (Contract.only allowed) (fun _ _ => True) ()

@[simp] theorem asksOnly_done (allowed : I.Request → Prop) (result : α) :
    (Program.done result : Program I α).AsksOnly allowed := trivial

@[simp] theorem asksOnly_ask {allowed : I.Request → Prop} (r : I.Request)
    (next : I.Answer r → Program I α) :
    (Program.ask r next).AsksOnly allowed ↔
      allowed r ∧ ∀ answer, (next answer).AsksOnly allowed := by
  simp [AsksOnly, Contract.only]

theorem AsksOnly.bind {allowed : I.Request → Prop} {p : Program I α} {f : α → Program I β}
    (hp : p.AsksOnly allowed) (hf : ∀ a, (f a).AsksOnly allowed) : (p.bind f).AsksOnly allowed :=
  (keeps_bind p f ()).mpr (Keeps.mono hp fun _ a _ => hf a)

theorem AsksOnly.mono {allowed allowed' : I.Request → Prop} {p : Program I α}
    (h : p.AsksOnly allowed) (hm : ∀ r, allowed r → allowed' r) : p.AsksOnly allowed' := by
  induction p with
  | done result => exact asksOnly_done allowed' result
  | ask r next ih =>
    obtain ⟨hr, hnext⟩ := (asksOnly_ask r next).mp h
    exact (asksOnly_ask r next).mpr ⟨hm r hr, fun answer => ih answer (hnext answer)⟩

/-- An embedded program makes no other requests than those it is embedded by. -/
theorem asksOnly_lift {allowed : J.Request → Prop} {embed : I.Request → J.Request}
    {answer : (r : I.Request) → J.Answer (embed r) → I.Answer r} (h : ∀ r, allowed (embed r))
    (p : Program I α) : (p.lift embed answer).AsksOnly allowed := by
  induction p with
  | done result => exact asksOnly_done allowed result
  | ask r next ih => exact (asksOnly_ask _ _).mpr ⟨h r, fun a => ih (answer r a)⟩

/-- However it is answered, the program ends as `post` says. -/
def Ends (p : Program I α) (post : α → Prop) : Prop :=
  p.Keeps (Contract.any I) (fun _ => post) ()

@[simp] theorem ends_ask {post : α → Prop} (r : I.Request) (next : I.Answer r → Program I α) :
    (Program.ask r next).Ends post ↔ ∀ answer, (next answer).Ends post := by
  simp [Ends, Contract.any]

theorem Ends.mono {post post' : α → Prop} {p : Program I α} (h : p.Ends post)
    (hp : ∀ a, post a → post' a) : p.Ends post' := Keeps.mono h fun _ => hp

theorem ends_bind {post : β → Prop} (p : Program I α) (f : α → Program I β) :
    (p.bind f).Ends post ↔ p.Ends fun a => (f a).Ends post := keeps_bind p f ()

theorem Ends.run {post : α → Prop} {p : Program I α} (h : p.Ends post)
    (respond : ω → (r : I.Request) → I.Answer r × ω) (w : ω) : post (p.run respond w).1 := by
  obtain ⟨_, hpost, _⟩ := Keeps.run (fun _ (_ : ω) => True)
    (fun _ w r _ _ => (⟨trivial, trivial⟩ : _ ∧ _)) (trivial : (fun _ _ => True) () w) h
  exact hpost

theorem Ends.lift {post : α → Prop} {embed : I.Request → J.Request}
    {answer : (r : I.Request) → J.Answer (embed r) → I.Answer r} {p : Program I α}
    (h : p.Ends post) : (p.lift embed answer).Ends post := by
  induction p with
  | done result => exact h
  | ask r next ih =>
    exact (ends_ask _ _).mpr fun given => ih _ ((ends_ask r next).mp h (answer r given))

/-- What comes after a program need only be good for the ends that it can come to. -/
theorem AsksOnly.bind_of_ends {allowed : I.Request → Prop} {post : α → Prop} {p : Program I α}
    {f : α → Program I β} (hp : p.AsksOnly allowed) (he : p.Ends post)
    (hf : ∀ a, post a → (f a).AsksOnly allowed) : (p.bind f).AsksOnly allowed := by
  induction p with
  | done result => exact hf result he
  | ask r next ih =>
    obtain ⟨hr, hnext⟩ := (asksOnly_ask r next).mp hp
    exact (asksOnly_ask _ _).mpr
      ⟨hr, fun answer => ih answer (hnext answer) ((ends_ask r next).mp he answer)⟩

/-- Surroundings that answer from a script of expected requests, and by a default otherwise. -/
noncomputable def scripted (default : (r : I.Request) → I.Answer r) :
    List ((r : I.Request) × I.Answer r) →
      (r : I.Request) → I.Answer r × List ((r : I.Request) × I.Answer r)
  | [], r => (default r, [])
  | ⟨r', answer⟩ :: rest, r => open Classical in
    (if h : r' = r then h ▸ answer else default r, rest)

/-- Every way to answer a program is a script, so what holds at the end of every run holds however
it is answered. -/
theorem ends_of_run (default : (r : I.Request) → I.Answer r) {post : α → Prop} {p : Program I α}
    (h : ∀ script, post (p.run (scripted default) script).1) : p.Ends post := by
  induction p with
  | done result => exact h []
  | ask r next ih =>
    refine (ends_ask r next).mpr fun answer => ih answer fun script => ?_
    have hrun := h (⟨r, answer⟩ :: script)
    simpa [run, scripted] using hrun

end Program

end Stepwise
