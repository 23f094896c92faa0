import Stepwise.Number.Layout

/-!
# Values

The data a workflow works on: null, booleans, whole numbers of any size, doubles, texts, lists
and objects. An object keeps its fields in the order in which their names first came. A key is
usually a text, but a variable may be named by any value that is neither a list nor an object;
keys that are equal as numbers are one key. All values come from JSON text, which is read to one and
the same NaN, so as a key a NaN is found again.
-/

namespace Stepwise

/-- What a field or a variable is found by. -/
inductive Key
  | null
  | bool (b : Bool)
  | int (n : Int)
  | double (x : Double)
  | text (s : String)
  deriving DecidableEq, Inhabited

/-- A dynamic value. -/
inductive Value
  | null
  | bool (b : Bool)
  | int (n : Int)
  | double (x : Double)
  | text (s : String)
  | list (items : List Value)
  | object (fields : List (Key × Value))
  deriving Inhabited

/-- The fields of an object in order, or the variables of a run. -/
abbrev Fields := List (Key × Value)

/-- The sort of a value. -/
inductive Kind
  | null
  | bool
  | int
  | double
  | text
  | list
  | object
  deriving DecidableEq

/-- The name of a sort in messages. -/
def Kind.name : Kind → String
  | .null => "NoneType"
  | .bool => "bool"
  | .int => "int"
  | .double => "float"
  | .text => "str"
  | .list => "list"
  | .object => "dict"

namespace Key

/-- The place of a numeric key on the number line; booleans are zero and one. -/
def extent? : Key → Option Extent
  | .bool b => some (.ofInt b.toInt)
  | .int n => some (.ofInt n)
  | .double x => x.extent?
  | _ => none

/-- Whether two keys are one: the same number, the same text, both null, or both NaN. -/
def same : Key → Key → Bool
  | .null, .null => true
  | .text s, .text t => s == t
  | a, b => a == .double .nan && b == .double .nan || Extent.coincide a.extent? b.extent?

@[simp] theorem same_text (s t : String) : same (.text s) (.text t) = (s == t) := rfl

theorem same_comm (a b : Key) : a.same b = b.same a := by
  cases a <;> cases b <;> simp [same, Extent.coincide_comm, Bool.beq_comm, Bool.and_comm]

/-- The value that a key is. -/
def toValue : Key → Value
  | .null => .null
  | .bool b => .bool b
  | .int n => .int n
  | .double x => .double x
  | .text s => .text s

end Key

namespace Fields

/-- The value of the field of a name. -/
def get? : Fields → Key → Option Value
  | [], _ => none
  | (k, v) :: rest, key => if k.same key then some v else get? rest key

/-- Sets a field: one of that name keeps its place, a new one comes last. -/
def set : Fields → Key → Value → Fields
  | [], key, value => [(key, value)]
  | (k, v) :: rest, key, value =>
    if k.same key then (k, value) :: rest else (k, v) :: set rest key value

/-- The field of a text name, null when absent. -/
def field (fields : Fields) (name : String) : Value := (fields.get? (.text name)).getD .null

/-- Sets the fields of the second list one after another. -/
def merge (fields extra : Fields) : Fields :=
  extra.foldl (fun fields (key, value) => fields.set key value) fields

/-- Fields written one after another; a repeated name keeps its first place and last value. -/
def ofList (entries : List (Key × Value)) : Fields := merge [] entries

@[simp] theorem get?_nil (key : Key) : get? [] key = none := rfl

theorem get?_filter_eq_none {keep : Key × Value → Bool} {key : Key} (fields : Fields)
    (h : ∀ k v, keep (k, v) = true → k.same key = false) :
    get? (fields.filter keep) key = none := by
  induction fields with
  | nil => rfl
  | cons field rest ih =>
    rw [List.filter_cons]
    split
    · rename_i hkept
      rw [get?, h field.1 field.2 hkept]
      exact ih
    · exact ih

end Fields

namespace Value

/-- The sort of a value. -/
def kind : Value → Kind
  | .null => .null
  | .bool _ => .bool
  | .int _ => .int
  | .double _ => .double
  | .text _ => .text
  | .list _ => .list
  | .object _ => .object

/-- The key that a value can serve as; lists and objects cannot. -/
def toKey? : Value → Option Key
  | .null => some .null
  | .bool b => some (.bool b)
  | .int n => some (.int n)
  | .double x => some (.double x)
  | .text s => some (.text s)
  | .list _ | .object _ => none

/-- Neither null, false, zero nor empty. -/
def isTruthy : Value → Bool
  | .null => false
  | .bool b => b
  | .int n => n != 0
  | .double x => !x.isZero
  | .text s => !s.isEmpty
  | .list items => !items.isEmpty
  | .object fields => !fields.isEmpty

/-- The value itself, or another one in place of null, false, zero and empty values. -/
def orElse (value other : Value) : Value := if value.isTruthy then value else other

/-- Null for an absent text. -/
def ofText? : Option String → Value
  | none => .null
  | some s => .text s

@[simp] theorem toKey?_toValue (key : Key) : key.toValue.toKey? = some key := by
  cases key <;> rfl

end Value

end Stepwise
