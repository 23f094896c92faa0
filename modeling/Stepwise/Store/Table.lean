import Stepwise.Store.Column

/-!
# Tables

What the six tables have in common: finding, inserting, changing, deleting and listing rows by
column names. An insertion fills in defaults, then checks columns that must not be empty and
columns whose values must differ, in the order of the columns.
-/

namespace Stepwise.Store

/-- A table of rows of type `ρ`. -/
structure Table (ρ : Type) where
  name : String
  /-- The name of one row of the table in messages. -/
  model : String
  columns : List (Column ρ)
  blank : ρ
  rows : Tables → List ρ
  setRows : List ρ → Tables → Tables

namespace Table

variable {ρ : Type}

/-- The column of a name. -/
def column? (t : Table ρ) (name : String) : Option (Column ρ) :=
  t.columns.find? (·.name == name)

/-- The content of a column of a row. -/
def cell (t : Table ρ) (row : ρ) (name : String) : Cell :=
  ((t.column? name).map (·.read row)).getD .null

/-- The id of a row. -/
def idOf (t : Table ρ) (row : ρ) : String := ((t.cell row "id").text?).getD ""

/-- A row as a value: all columns with their names. -/
def rowFields (t : Table ρ) (row : ρ) : Fields :=
  t.columns.map fun c => (.text c.name, (c.read row).toValue)

/-- The row of an id. -/
def find? (t : Table ρ) (tables : Tables) (id : String) : Option ρ :=
  (t.rows tables).find? (t.idOf · == id)

/-- The first of the names that is no column. -/
def unknownName? (t : Table ρ) (data : Fields) : Option String :=
  data.findSome? fun (key, _) =>
    match key with
    | .text name => if (t.column? name).isSome then none else some name
    | key => some (String.ofList key.shown)

/-- What a column of a new row is filled with: a value given for it, or a content of its own. -/
inductive Filling
  | given (value : Value)
  | supplied (content : Cell)

/-- What a column of a new row is filled with. A null counts as not given, except in a column of
JSON. -/
def fillingOf (now : Instant) (data : Fields) (c : Column ρ) : Transaction Filling :=
  let given := match data.get? (.text c.name) with
    | some .null => if c.sort = .json then some Value.null else none
    | given => given
  match given with
  | some value => return .given value
  | none =>
    match c.default with
    | .null => return .supplied .null
    | .cell content => return .supplied content
    | .rowId => do return .supplied (.text (← Transaction.drawRowId))
    | .now => return .supplied (.time now)

/-- What is bound to the insertion of a row for one of its columns. -/
def Filling.bound (c : Column ρ) : Filling → Value
  | .given value => c.sort.bound value
  | .supplied content => content.bound

/-- The content of a column that was filled. -/
def Filling.cell (c : Column ρ) (binding : Binding) : Filling → Except Fault Cell
  | .given value => c.sort.cell binding value
  | .supplied content => .ok content

/-- The insertion of a row with the given values bound. -/
def insertion (t : Table ρ) (bound : List Value) : Statement where
  text :=
    let stamped := t.columns.filter (·.isStamped)
    "INSERT INTO " ++ t.name ++ " (" ++ commaSeparated (t.columns.map (·.name)) ++ ") VALUES ("
      ++ commaSeparated (t.columns.map fun c => if c.isStamped then "CURRENT_TIMESTAMP" else "?")
      ++ ") RETURNING " ++ commaSeparated (stamped.map (·.name))
  bound

/-- The insertion of a row as it is to be stored. -/
def insertionOf (t : Table ρ) (row : ρ) : Statement :=
  t.insertion ((t.columns.filter (!·.isStamped)).map fun c => (c.read row).bound)

/-- The change of some columns of the row of an id. -/
def rewriting (t : Table ρ) (id : String) (values : List (Column ρ × Value)) : Statement where
  text :=
    "UPDATE " ++ t.name ++ " SET "
      ++ commaSeparated (values.map fun (c, _) => c.name ++ "=?")
      ++ ", updated_at=CURRENT_TIMESTAMP WHERE " ++ t.name ++ ".id = ?"
  bound := values.map (fun (c, value) => c.sort.bound value) ++ [.text id]

/-- Two cells hold the same text, number or JSON text. -/
def sameCell : Cell → Cell → Bool
  | .text a, .text b => a == b
  | .int a, .int b => a == b
  | .bool a, .bool b => a == b
  | .time a, .time b => a == b
  | .json a, .json b => Json.write a == Json.write b
  | _, _ => false

/-- Why a row may not stand beside the others. -/
def violation? (t : Table ρ) (others : List ρ) (row : ρ) (cells : List (Column ρ × Cell)) :
    Option Complaint :=
  let missing := cells.findSome? fun (c, content) =>
    match content with
    | .null => if c.nullable then none else some (Complaint.notNull t.name c.name)
    | _ => none
  let clash := t.columns.findSome? fun c =>
    if c.unique && others.any fun other => sameCell (c.read other) (c.read row) then
      some (Complaint.notUnique t.name c.name)
    else none
  missing <|> clash

/-- Writes contents into columns of a row. -/
def fill (row : ρ) (cells : List (Column ρ × Cell)) : ρ :=
  cells.foldl (fun row (c, content) => c.write content row) row

/-- The insertion of a row whose columns are filled. -/
def insertionWith (t : Table ρ) (fillings : List Filling) : Statement :=
  let columns := (t.columns.zip fillings).filter fun (c, _) => !c.isStamped
  t.insertion (columns.map fun (c, filling) => filling.bound c)

/-- The contents of the columns of a new row. -/
def newCells (t : Table ρ) (fillings : List Filling) : Except Fault (List (Column ρ × Cell)) :=
  (t.columns.zip fillings).mapM fun (c, filling) => do
    let content ← filling.cell c ⟨t.insertionWith fillings, placeOf t.columns c.name⟩
    return (c, content)

/-- Inserts a row with the given values: the row as it is stored. -/
def insert (t : Table ρ) (now : Instant) (data : Fields) : Transaction ρ :=
  match t.unknownName? data with
  | some name => .fail (.unknownField name t.model)
  | none => do
    let fillings ← t.columns.mapM (fillingOf now data)
    let cells ← .ofExcept (t.newCells fillings)
    let row := fill t.blank cells
    let tables ← Transaction.tables
    match t.violation? (t.rows tables) row cells with
    | some complaint => .fail (.refused complaint (t.insertionWith fillings))
    | none =>
      Transaction.modify fun tables => t.setRows (t.rows tables ++ [row]) tables
      return row

/-- The value that a column of a row is really changed to. Nulls are passed over, and so is a value
that equals the content of the column: a truth and a number can be equal. -/
def newValue? (row : ρ) (data : Fields) (c : Column ρ) : Option Value :=
  match data.get? (.text c.name) with
  | none | some .null => none
  | some value => if (c.read row).toValue.equal value then none else some value

/-- The columns that given values really change, with the values; names that are no columns are
passed over. -/
def changes (t : Table ρ) (row : ρ) (data : Fields) : List (Column ρ × Value) :=
  t.columns.filterMap fun c => (newValue? row data c).map (c, ·)

/-- The new contents of the columns that are changed. -/
def changedCells (t : Table ρ) (id : String) (values : List (Column ρ × Value)) :
    Except Fault (List (Column ρ × Cell)) :=
  values.mapM fun (c, value) => do
    let content ← c.sort.cell ⟨t.rewriting id values, placeOf (values.map (·.1)) c.name⟩ value
    return (c, content)

/-- A row with new contents in some columns; the time of its change moves too. -/
def rewritten (t : Table ρ) (now : Instant) (cells : List (Column ρ × Cell)) (row : ρ) : ρ :=
  let touched := t.columns.filter (·.name == "updated_at")
  fill row (cells ++ touched.map (·, Cell.time now))

/-- Writes values into columns of the row of an id. -/
def rewrite (t : Table ρ) (now : Instant) (id : String) (values : List (Column ρ × Value)) :
    Transaction (Option ρ) := do
  let cells ← .ofExcept (t.changedCells id values)
  let tables ← Transaction.tables
  match t.find? tables id with
  | none => return none
  | some row =>
    let row := t.rewritten now cells row
    let others := (t.rows tables).filter (t.idOf · != id)
    match t.violation? others row cells with
    | some complaint => .fail (.refused complaint (t.rewriting id values))
    | none =>
      Transaction.modify fun tables =>
        t.setRows ((t.rows tables).map fun old =>
          if t.idOf old == id then t.rewritten now cells old else old) tables
      return some row

/-- Changes the row of an id. If no column really changes, nothing is written, not even the time of
the change. -/
def update (t : Table ρ) (now : Instant) (id : String) (data : Fields) :
    Transaction (Option ρ) := do
  let tables ← Transaction.tables
  match t.find? tables id with
  | none => return none
  | some row =>
    let values := t.changes row data
    if values.isEmpty then return some row else t.rewrite now id values

/-- Deletes the row of an id: whether there was one. -/
def delete (t : Table ρ) (id : String) : Transaction Bool := do
  let tables ← Transaction.tables
  if (t.find? tables id).isNone then return false
  else
    Transaction.modify fun tables =>
      t.setRows ((t.rows tables).filter (t.idOf · != id)) tables
    return true

/-- What a listing of rows asks for. -/
structure Query where
  workspace : Option String
  filters : Fields
  orderBy : String
  descending : Bool
  offset : Nat
  limit : Option Nat

/-- The content equals a value, once the value is converted to the sort of the column; a null
equals an empty column. -/
def matches? (c : Column ρ) (row : ρ) (value : Value) : Bool :=
  match value, c.read row with
  | .null, .null => true
  | .null, _ => false
  | value, content =>
    match c.sort.cell default value with
    | .ok wanted => sameCell content wanted
    | .error _ => false

/-- A row passes one filter: a list admits each of its items but nulls, and a name that is no column
everything. -/
def passes (t : Table ρ) (row : ρ) (filter : Key × Value) : Bool :=
  match filter.1 with
  | .text name =>
    match t.column? name with
    | none => true
    | some c =>
      match filter.2 with
      | .list values => values.any fun value =>
        match value with
        | .null => false
        | value => matches? c row value
      | value => matches? c row value
  | _ => true

/-- The rows that a query selects, in the order of insertion. -/
def selected (t : Table ρ) (tables : Tables) (q : Query) : List ρ :=
  let inWorkspace := match q.workspace, t.column? "workspace_id" with
    | some workspace, some c => (t.rows tables).filter fun row => matches? c row (.text workspace)
    | _, _ => t.rows tables
  inWorkspace.filter fun row => q.filters.all (t.passes row)

/-- The order of the contents of a column: nothing comes first. -/
def cellBefore : Cell → Cell → Bool
  | .null, .null => false
  | .null, _ => true
  | .text a, .text b => a < b
  | .int a, .int b => a < b
  | .bool a, .bool b => !a && b
  | .time a, .time b => a.micros < b.micros
  | .json a, .json b => decide (Json.write a < Json.write b)
  | _, _ => false

/-- A query narrows the table down by an indexed column. -/
def narrows (t : Table ρ) (q : Query) : Bool :=
  let isIndexed (name : String) : Bool := ((t.column? name).map (·.indexed)).getD false
  (q.workspace.isSome && isIndexed "workspace_id") || q.filters.any fun (key, _) =>
    match key with
    | .text name => isIndexed name
    | _ => false

/-- Rows in the order of a column. Rows with equal contents stay in their order, but a whole table
is read backwards when the order descends and the column is indexed. -/
def sorted (t : Table ρ) (q : Query) (rows : List ρ) : List ρ :=
  match t.column? q.orderBy with
  | none => rows
  | some c =>
    let before (a b : ρ) := cellBefore (c.read a) (c.read b)
    if q.descending then
      let backwards := c.indexed && !t.narrows q
      (if backwards then rows.reverse else rows).mergeSort fun a b => !before a b
    else rows.mergeSort fun a b => !before b a

/-- One page of the rows that a query selects, and how many it selects in all. -/
def list (t : Table ρ) (tables : Tables) (q : Query) : List ρ × Nat :=
  let rows := t.selected tables q
  let page := (t.sorted q rows).drop q.offset
  let page := match q.limit with
    | some limit => page.take limit
    | none => page
  (page, rows.length)

end Table

end Stepwise.Store
