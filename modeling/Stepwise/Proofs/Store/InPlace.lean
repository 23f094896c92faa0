import Mathlib.Tactic.Common
import Stepwise.Store.Database

/-!
# Changes that are carried out as they go

A transaction that fails leaves nothing of what it wrote. To tell whether there was anything to take
back, the same change is also carried out access by access, so that what was written before a
failure stays written. Taking that back gives the transaction again.
-/

namespace Stepwise.Store

variable {α β : Type}

/-- A sequence of accesses to the tables, of which those before a failure are not taken back. -/
def InPlace (α : Type) : Type := Tables → Supply → Except Fault α × Tables × Supply

namespace InPlace

/-- One access: it changes the tables as a whole, or fails. -/
def access (t : Transaction α) : InPlace α := fun tables supply =>
  match t tables supply with
  | (.ok (a, tables'), supply') => (.ok a, tables', supply')
  | (.error fault, supply') => (.error fault, tables, supply')

/-- Goes on with the result of a sequence. -/
def andThen (p : InPlace α) (next : α → InPlace β) : InPlace β := fun tables supply =>
  match p tables supply with
  | (.ok a, tables', supply') => next a tables' supply'
  | (.error fault, tables', supply') => (.error fault, tables', supply')

instance : Monad InPlace where
  pure a := access (pure a)
  bind := andThen

/-- The transaction that takes everything back if the sequence fails. -/
def undone (p : InPlace α) : Transaction α := fun tables supply =>
  match p tables supply with
  | (.ok a, tables', supply') => (.ok (a, tables'), supply')
  | (.error fault, _, supply') => (.error fault, supply')

@[simp] theorem undone_access (t : Transaction α) : (access t).undone = t := by
  funext tables supply
  unfold undone access
  cases t tables supply with
  | mk r supply' => cases r <;> rfl

@[simp] theorem undone_pure (a : α) : (pure a : InPlace α).undone = pure a := undone_access _

@[simp] theorem undone_bind (p : InPlace α) (next : α → InPlace β) :
    (p >>= next).undone = p.undone >>= fun a => (next a).undone := by
  funext tables supply
  show (p.andThen next).undone tables supply =
    p.undone.andThen (fun a => (next a).undone) tables supply
  simp only [undone, andThen, Transaction.andThen]
  cases p tables supply with
  | mk r after => cases r <;> rfl

theorem bind_of_ok {p : InPlace α} {next : α → InPlace β} {tables tables' : Tables}
    {supply supply' : Supply} {a : α} (h : p tables supply = (.ok a, tables', supply')) :
    (p >>= next) tables supply = next a tables' supply' := by
  show p.andThen next tables supply = _
  rw [andThen, h]

theorem bind_of_error {p : InPlace α} {next : α → InPlace β} {tables tables' : Tables}
    {supply supply' : Supply} {fault : Fault}
    (h : p tables supply = (.error fault, tables', supply')) :
    (p >>= next) tables supply = (.error fault, tables', supply') := by
  show p.andThen next tables supply = _
  rw [andThen, h]

theorem access_of_ok {t : Transaction α} {tables tables' : Tables} {supply supply' : Supply} {a : α}
    (h : t tables supply = (.ok (a, tables'), supply')) :
    access t tables supply = (.ok a, tables', supply') := by
  rw [access, h]

theorem access_of_error {t : Transaction α} {tables : Tables} {supply supply' : Supply}
    {fault : Fault} (h : t tables supply = (.error fault, supply')) :
    access t tables supply = (.error fault, tables, supply') := by
  rw [access, h]

/-- What the sequence came to is what the transaction came to. -/
theorem fst_undone_eq_ok {p : InPlace α} {tables tables' : Tables} {supply supply' : Supply}
    {a : α} (h : p tables supply = (.ok a, tables', supply')) :
    p.undone tables supply = (.ok (a, tables'), supply') := by
  unfold undone
  rw [h]

end InPlace

namespace Transaction

instance : LawfulMonad Transaction := by
  refine LawfulMonad.mk' Transaction (fun t => ?_) (fun _ _ => rfl) fun t next later => ?_
  · funext tables supply
    show t.andThen result tables supply = t tables supply
    unfold andThen
    cases t tables supply with
    | mk r left => cases r <;> rfl
  · funext tables supply
    show (t.andThen next).andThen later tables supply =
      t.andThen (fun a => (next a).andThen later) tables supply
    simp only [andThen]
    cases t tables supply with
    | mk r left => cases r <;> rfl

variable {tables tables' : Tables} {supply supply' : Supply}

theorem bind_of_ok {t : Transaction α} {next : α → Transaction β} {a : α}
    (h : t tables supply = (.ok (a, tables'), supply')) :
    (t >>= next) tables supply = next a tables' supply' := by
  show t.andThen next tables supply = _
  rw [andThen, h]

theorem bind_of_error {t : Transaction α} {next : α → Transaction β} {fault : Fault}
    (h : t tables supply = (.error fault, supply')) :
    (t >>= next) tables supply = (.error fault, supply') := by
  show t.andThen next tables supply = _
  rw [andThen, h]

/-- A sequence of transactions that succeeds is one of transactions that succeed. -/
theorem ok_of_bind {t : Transaction α} {next : α → Transaction β} {b : β}
    (h : (t >>= next) tables supply = (.ok (b, tables'), supply')) :
    ∃ a between left, t tables supply = (.ok (a, between), left) ∧
      next a between left = (.ok (b, tables'), supply') := by
  change t.andThen next tables supply = _ at h
  unfold andThen at h
  cases hr : t tables supply with
  | mk r left =>
    rw [hr] at h
    cases r with
    | error fault => cases h
    | ok out => exact ⟨out.1, out.2, left, rfl, h⟩

/-- What a sequence of transactions over a list hands over, item by item. -/
theorem forall₂_of_mapM {f : α → Transaction β} {p : α → β → Prop}
    (hf : ∀ a b {tables tables' : Tables} {supply supply' : Supply},
      f a tables supply = (.ok (b, tables'), supply') → p a b)
    {items : List α} {out : List β}
    (h : items.mapM f tables supply = (.ok (out, tables'), supply')) :
    List.Forall₂ p items out := by
  induction items generalizing out tables supply with
  | nil =>
    cases h
    exact .nil
  | cons a rest ih =>
    rw [List.mapM_cons] at h
    obtain ⟨b, _, _, hb, h⟩ := ok_of_bind h
    obtain ⟨out', _, _, hout, h⟩ := ok_of_bind h
    cases h
    exact .cons (hf a b hb) (ih hout)

theorem ofExcept_eq_ok {r : Except Fault α} {a : α}
    (h : ofExcept r tables supply = (.ok (a, tables'), supply')) :
    r = .ok a ∧ tables = tables' ∧ supply = supply' := by
  cases r with
  | error fault => cases h
  | ok b =>
    cases h
    exact ⟨rfl, rfl, rfl⟩

end Transaction

/-- What carrying out a transaction comes to: its changes if it succeeds, and no table changed if it
fails. -/
theorem Database.transact_cases (db : Database) (t : Transaction α) :
    (∃ a tables supply, t db.tables db.supply = (.ok (a, tables), supply) ∧
      db.transact t = (.ok a, ⟨tables, supply⟩)) ∨
    ∃ fault supply, t db.tables db.supply = (.error fault, supply) ∧
      db.transact t = (.error fault, ⟨db.tables, supply⟩) := by
  unfold transact
  cases h : t db.tables db.supply with
  | mk r supply =>
    cases r with
    | ok out => exact .inl ⟨out.1, out.2, supply, rfl, rfl⟩
    | error fault => exact .inr ⟨fault, supply, rfl, rfl⟩

end Stepwise.Store
