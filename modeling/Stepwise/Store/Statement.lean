import Stepwise.Value.Shown

/-!
# Statements

What the database is asked to do, as it is quoted when the database refuses it: the text of a
statement, and the values that were bound to it.
-/

namespace Stepwise.Store

/-- A statement with the values bound to it. -/
structure Statement where
  text : String
  bound : List Value
  deriving Inhabited

/-- Names in a row. -/
def commaSeparated (names : List String) : String := String.intercalate ", " names

namespace Statement

/-- How many characters of a bound value are quoted. -/
def quotedLength : Nat := 300

/-- A bound value as it is quoted: of a long one, the middle is left out. -/
def quotedValue (value : Value) : String :=
  let shown := value.shown
  if shown.length ≤ quotedLength then String.ofList shown
  else
    let kept := quotedLength / 2
    String.ofList (shown.take kept) ++ " ... (" ++ toString (shown.length - quotedLength)
      ++ " characters truncated) ... " ++ String.ofList (shown.drop (shown.length - kept))

/-- The statement as it is quoted after the reason of a refusal. -/
def quoted (s : Statement) : String :=
  "\n[SQL: " ++ s.text ++ "]\n[parameters: (" ++ commaSeparated (s.bound.map quotedValue) ++ ")]"

end Statement

/-- Why the database refuses a statement. -/
inductive Complaint
  /-- A column without a value that needs one. -/
  | notNull (table column : String)
  /-- A column with a value that another row has in it. -/
  | notUnique (table column : String)
  /-- A value that no column can hold, by its number among the bound values. -/
  | unsupported (number : Nat) (kind : Kind)

/-- The wording of the reason. -/
def Complaint.headline : Complaint → String
  | .notNull table column =>
    "(sqlite3.IntegrityError) NOT NULL constraint failed: " ++ table ++ "." ++ column
  | .notUnique table column =>
    "(sqlite3.IntegrityError) UNIQUE constraint failed: " ++ table ++ "." ++ column
  | .unsupported number kind =>
    "(sqlite3.ProgrammingError) Error binding parameter " ++ toString number ++ ": type '"
      ++ kind.name ++ "' is not supported"

end Stepwise.Store
