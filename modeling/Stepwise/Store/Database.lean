import Stepwise.Fault
import Stepwise.Store.Row

/-!
# The database

A database is six tables of rows in the order of their insertion, and a supply of ids and secrets
that are never drawn twice. A transaction reads and changes the tables; if it fails, the tables are
as before, but what was drawn from the supply stays drawn.
-/

namespace Stepwise.Store

/-- The tables. -/
structure Tables where
  workflows : List WorkflowRow
  steps : List StepRow
  executions : List ExecutionRow
  triggers : List TriggerRow
  tasks : List TaskRow
  notifications : List NotificationRow

/-- The numbers that are drawn next: of an id for a row, of an id for a workflow or a step, and of
the address or secret of a trigger. -/
structure Supply where
  row : Nat
  fresh : Nat
  token : Nat

/-- Everything that is stored. -/
structure Database where
  tables : Tables
  supply : Supply

/-- Nothing stored. -/
def Tables.empty : Tables := ⟨[], [], [], [], [], []⟩

/-- Nothing stored and nothing drawn. -/
def Database.empty : Database := ⟨.empty, ⟨1, 1, 1⟩⟩

/-- A change of the tables that may fail, and draws from the supply. -/
def Transaction (α : Type) : Type := Tables → Supply → Except Fault (α × Tables) × Supply

/-- Carries a transaction out. -/
def Database.transact {α : Type} (db : Database) (t : Transaction α) : Except Fault α × Database :=
  match t db.tables db.supply with
  | (.ok (a, tables), supply) => (.ok a, ⟨tables, supply⟩)
  | (.error fault, supply) => (.error fault, ⟨db.tables, supply⟩)

namespace Transaction

variable {α β : Type}

/-- Goes on with the result of a transaction. -/
def andThen (t : Transaction α) (next : α → Transaction β) : Transaction β :=
  fun tables supply =>
    match t tables supply with
    | (.ok (a, tables), supply) => next a tables supply
    | (.error fault, supply) => (.error fault, supply)

/-- Nothing but a result. -/
def result (a : α) : Transaction α := fun tables supply => (.ok (a, tables), supply)

instance : Monad Transaction where
  pure := result
  bind := andThen

/-- A result that may be a fault. -/
def ofExcept : Except Fault α → Transaction α
  | .ok a => result a
  | .error fault => fun _ supply => (.error fault, supply)

/-- Ends a transaction with a fault. -/
def fail (fault : Fault) : Transaction α := fun _ supply => (.error fault, supply)

/-- The tables. -/
def tables : Transaction Tables := fun tables supply => (.ok (tables, tables), supply)

/-- Changes the tables. -/
def modify (f : Tables → Tables) : Transaction Unit :=
  fun tables supply => (.ok ((), f tables), supply)

/-- Draws the id of a row. -/
def drawRowId : Transaction String := fun tables supply =>
  (.ok ("r-" ++ toString supply.row, tables), { supply with row := supply.row + 1 })

end Transaction

end Stepwise.Store
