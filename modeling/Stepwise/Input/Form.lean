import Stepwise.Input.Lax

/-!
# Reading submitted records

A record is read field by field. What is wrong with a field is kept as an issue, and the reading
goes on with a stand-in, so that all issues are found at once, in the order of the reading. Only a
reading without issues has a result.
-/

namespace Stepwise.Input

/-- Reads input and keeps the issues that are found on the way. -/
abbrev Reading := StateM (List Issue)

namespace Reading

variable {α : Type}

/-- Keeps an issue and goes on with a stand-in. -/
def note [Inhabited α] (problem : Problem) (path : List Place) : Reading α := do
  modify (· ++ [⟨problem, path⟩])
  return default

/-- A part of the input, or an issue in its place. -/
def check [Inhabited α] (path : List Place) : Except Problem α → Reading α
  | .ok a => return a
  | .error problem => note problem path

/-- The result of a reading, or its issues if there are any. -/
def complete (reading : Reading α) : Except (List Issue) α :=
  match reading.run [] with
  | (a, []) => .ok a
  | (_, issues) => .error issues

end Reading

/-- A submitted record and where it stands in the input. -/
structure Form where
  fields : Fields
  path : List Place

namespace Form

variable {α : Type}

/-- Reads a value that has to be a record. -/
def read [Inhabited α] (path : List Place) (value : Value) (next : Form → Reading α) : Reading α :=
  match value with
  | .object fields => next ⟨fields, path⟩
  | _ => .note .notRecord path

/-- The first of several names that the record has a field of, with the value of the field. -/
def first? (form : Form) (names : List String) : Option (String × Value) :=
  names.findSome? fun name => (form.fields.get? (.text name)).map (name, ·)

/-- Reads a field that the record has to have. -/
def required [Inhabited α] (form : Form) (name : String) (field : Value → Except Problem α) :
    Reading α :=
  let path := form.path ++ [.name name]
  match form.fields.get? (.text name) with
  | some value => .check path (field value)
  | none => .note .missing path

/-- Reads a field, known under one of several names, that the record may do without. -/
def optional [Inhabited α] (form : Form) (names : List String) (absent : α)
    (field : Value → Except Problem α) : Reading α :=
  match form.first? names with
  | some (name, value) => .check (form.path ++ [.name name]) (field value)
  | none => return absent

end Form

/-- A text. -/
def text : Value → Except Problem String
  | .text s => .ok s
  | _ => .error .notText

/-- A text with at least one character. -/
def filledText (value : Value) : Except Problem String := do
  let s ← text value
  if s.isEmpty then throw .emptyText else return s

/-- An object with any fields. -/
def object : Value → Except Problem Fields
  | .object fields => .ok fields
  | _ => .error .notObject

/-- A list of anything. -/
def list : Value → Except Problem (List Value)
  | .list items => .ok items
  | _ => .error .notList

/-- Nothing for null, and otherwise what `field` reads. -/
def orNull {α : Type} (field : Value → Except Problem α) : Value → Except Problem (Option α)
  | .null => .ok none
  | value => some <$> field value

/-- The truth that a whole number stands for: zero and one stand for one. A number of more than 64
bits is not taken for a truth at all. -/
def wholeTruth (n : Int) : Except Problem Bool :=
  if n = 0 then .ok false
  else if n = 1 then .ok true
  else if -(Nat.pow 2 63 : Int) ≤ n ∧ n < Nat.pow 2 63 then .error .unreadableBool
  else .error .notBool

/-- A truth: a boolean, a word for one, or zero or one. -/
def truth : Value → Except Problem Bool
  | .bool b => .ok b
  | .text s => readBool s
  | .int n => wholeTruth n
  | .double x =>
    match x.toInt? with
    | some n => wholeTruth n
    | none => .error .notBool
  | _ => .error .notBool

end Stepwise.Input
