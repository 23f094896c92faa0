import Stepwise.Json.Read
import Stepwise.Outbound.Status
import Stepwise.Rejection
import Stepwise.Store.Statement

/-!
# Faults

Everything that a step, a run or a request can fail with, by cause. `message` is the wording,
`rejection?` the kind of refusal for the causes that have a status of their own, and
`isBadValue` tells the causes that lie in a value somebody supplied.
-/

namespace Stepwise

/-- A cause of failure. -/
inductive Fault
  /-- The run was cancelled. -/
  | cancelled
  /-- An ordering of two values of sorts that have none. -/
  | incomparable (greater : Bool) (left right : Kind)
  /-- A list or an object used as a name. -/
  | unhashable (kind : Kind)
  /-- A whole number beyond the range of doubles. -/
  | intTooLarge
  /-- A text that is no number where a number is needed. -/
  | unreadableNumber (text : String)
  /-- A value of a sort that is no number where one is needed. -/
  | notNumber (kind : Kind)
  /-- A list index with a digit that is not decimal. -/
  | unreadableIndex (text : String)
  /-- A whole number with more digits than are read. -/
  | longNumber (digits : Nat)
  | unknownOperator (operator : Value)
  | unknownStepType (type : String)
  | unknownAction (action : Value)
  | namelessVariable
  | namelessLoop
  | itemsNotList
  | urlMissing
  | tooDeep (limit : Int) (step : String)
  | cyclic (step : String)
  /-- Two steps of a set with one name to refer to them by. -/
  | duplicateStep (id : Value)
  /-- A parent or successor (by the name of its field) that is no step of the set. -/
  | unknownReference (step : Value) (field : String) (reference : Value)
  /-- A parent that owns no children. -/
  | parentNotContainer (step : Value)
  | missingKey (key : String)
  /-- A property asked of a value of a sort that does not have it. -/
  | noAttribute (kind : Kind) (property : String)
  | notFields (kind : Kind)
  /-- A value of a sort that is no sequence where one is needed. -/
  | notIterable (kind : Kind)
  /-- An element of a sequence that is not a sequence itself, where pairs are needed. -/
  | notSequence (place : Nat)
  /-- An element of a sequence that is not of length two, where pairs are needed. -/
  | notPair (place length : Nat)
  | headerNotText (kind : Kind)
  | headerNotAscii (text : String)
  | urlNotText (url : Value)
  | notFinite
  | unreadableBody (text : String) (refusal : Json.Refusal)
  | badStatus (status : Outbound.BadStatus)
  | transport (kind : Outbound.Transport) (message : String)
  /-- The store behind a run failed for a reason of its own. -/
  | storeFailure (message : String)
  | taskMissing (id : Value)
  | workflowMissing
  | workflowInactive
  | executionMissing
  | executionEnded (status : String)
  | triggerMissing
  | wrongSignature
  /-- A statement that the database refuses. -/
  | refused (complaint : Store.Complaint) (statement : Store.Statement)
  /-- A whole number that no column can hold. -/
  | intTooLong
  /-- A column of times given something else. -/
  | notTime
  /-- A column of truths given something else. -/
  | notBoolean (value : Value)
  | unknownField (field model : String)
  /-- Raw bytes where JSON is needed: in a record, or elsewhere. -/
  | unwritable (isInRecord : Bool)
  /-- A whole number with more digits than are written: in a record, or elsewhere. -/
  | longInt (isInRecord : Bool)
  /-- A text, by its codes, with halves of surrogate pairs where it has to be encoded. -/
  | unpaired (codes : List Nat)
  deriving Inhabited

namespace Fault

/-- The wording for a text with codes that an encoding does not have; it names the first row of
them. -/
def notEncodableMessage (encoding reason : String) (isMissing : Nat → Bool) (codes : List Nat) :
    String :=
  let start := (codes.takeWhile (!isMissing ·)).length
  let run := (codes.drop start).takeWhile isMissing
  let place := match run with
    | [code] =>
      let digits :=
        if code < 0x100 then 'x' :: Text.hex 2 code
        else if code < 0x10000 then 'u' :: Text.hex 4 code
        else 'U' :: Text.hex 8 code
      "character '\\" ++ String.ofList digits ++ "' in position " ++ toString start
    | _ => "characters in position " ++ toString start ++ "-" ++ toString (start + run.length - 1)
  "'" ++ encoding ++ "' codec can't encode " ++ place ++ ": " ++ reason

/-- The kind of refusal, for the causes that have one. -/
def rejection? : Fault → Option Rejection
  | .cancelled => some .cancelled
  | .unknownOperator _ | .unknownStepType _ | .unknownAction _ | .namelessVariable
  | .namelessLoop | .itemsNotList | .urlMissing | .tooDeep _ _ | .cyclic _ => some .unrunnable
  | .duplicateStep _ | .unknownReference _ _ _ | .parentNotContainer _ => some .invalid
  | .taskMissing _ | .workflowMissing => some .notFound
  | .workflowInactive => some .workflowNotFound
  | .executionMissing => some .executionNotFound
  | .executionEnded _ => some .conflict
  | .triggerMissing => some .triggerNotFound
  | .wrongSignature => some .wrongSignature
  | _ => none

/-- The wording of a cause that is no plain rejection. -/
def wording : Fault → String
  | .incomparable greater left right =>
    "'" ++ (if greater then ">" else "<") ++ "' not supported between instances of '"
      ++ left.name ++ "' and '" ++ right.name ++ "'"
  | .unhashable kind => "unhashable type: '" ++ kind.name ++ "'"
  | .intTooLarge => "int too large to convert to float"
  | .unreadableNumber text =>
    "could not convert string to float: " ++ String.ofList (Text.quoted text.toList)
  | .notNumber kind =>
    "float() argument must be a string or a real number, not '" ++ kind.name ++ "'"
  | .unreadableIndex text =>
    "invalid literal for int() with base 10: "
      ++ String.ofList ((Text.quoted text.toList).take 200)
  | .longNumber digits => Json.Refusal.message [] (.longNumber digits)
  | .unknownOperator operator => "Unknown operator: " ++ operator.named
  | .unknownStepType type => "Unknown step type: " ++ type
  | .unknownAction action => "Unknown action type: " ++ action.named
  | .namelessVariable => "set_variable action requires a name"
  | .namelessLoop => "Loop step requires a variableName"
  | .itemsNotList => "Loop items must be an array"
  | .urlMissing => "Webhook step requires a url"
  | .tooDeep limit step =>
    "Maximum step nesting depth of " ++ toString limit ++ " exceeded at step '" ++ step ++ "'"
  | .cyclic step => "Step cycle detected at step '" ++ step ++ "'"
  | .duplicateStep id => "Duplicate step id: " ++ id.named
  | .unknownReference step field reference =>
    "Step '" ++ step.named ++ "' has unknown " ++ field ++ ": " ++ reference.named
  | .parentNotContainer step =>
    "Step '" ++ step.named ++ "' has a parent that is not a condition or loop step"
  | .missingKey key => String.ofList (Text.quoted key.toList)
  | .noAttribute kind property =>
    "'" ++ kind.name ++ "' object has no attribute '" ++ property ++ "'"
  | .notFields kind => "'" ++ kind.name ++ "' object is not a mapping"
  | .notIterable kind => "'" ++ kind.name ++ "' object is not iterable"
  | .notSequence place =>
    "cannot convert dictionary update sequence element #" ++ toString place ++ " to a sequence"
  | .notPair place length =>
    "dictionary update sequence element #" ++ toString place ++ " has length " ++ toString length
      ++ "; 2 is required"
  | .headerNotText kind =>
    "Header value must be str or bytes, not <class '" ++ kind.name ++ "'>"
  | .headerNotAscii text =>
    notEncodableMessage "ascii" "ordinal not in range(128)" (127 < ·) (text.toList.map Char.toNat)
  | .urlNotText url =>
    "Invalid type for url.  Expected str or httpx.URL, got <class '" ++ url.kind.name ++ "'>: "
      ++ String.ofList url.shown
  | .notFinite => "Out of range float values are not JSON compliant"
  | .unreadableBody text refusal => refusal.message text.toList
  | .badStatus status => status.message
  | .transport _ message => message
  | .storeFailure message => message
  | .taskMissing id => "Task not found: " ++ id.named
  | .workflowMissing => "Workflow not found"
  | .executionEnded status => "Execution already " ++ status
  | .refused complaint statement => complaint.headline ++ statement.quoted
  | .intTooLong => "Python int too large to convert to SQLite INTEGER"
  | .notTime =>
    "(builtins.TypeError) SQLite DateTime type only accepts Python datetime "
      ++ "and date objects as input."
  | .notBoolean (.int n) =>
    "(builtins.ValueError) Value " ++ toString n ++ " is not None, True, or False"
  | .notBoolean value =>
    "(builtins.TypeError) Not a boolean value: " ++ String.ofList value.shown
  | .unknownField field model =>
    "'" ++ field ++ "' is an invalid keyword argument for " ++ model
  | .unwritable isInRecord =>
    (if isInRecord then "(builtins.TypeError) " else "")
      ++ "Object of type bytes is not JSON serializable"
  | .longInt isInRecord =>
    (if isInRecord then "(builtins.ValueError) " else "") ++ "Exceeds the limit ("
      ++ toString digitLimit ++ " digits) for integer string conversion; "
      ++ "use sys.set_int_max_str_digits() to increase the limit"
  | .unpaired codes =>
    notEncodableMessage "utf-8" "surrogates not allowed"
      (fun code => decide (0xD800 ≤ code ∧ code ≤ 0xDFFF)) codes
  | _ => ""

/-- The wording of a cause; it may be empty. -/
def message (fault : Fault) : String :=
  match fault with
  | .cancelled | .workflowInactive | .executionMissing | .triggerMissing | .wrongSignature =>
    (fault.rejection?.bind Rejection.wording?).getD ""
  | fault => fault.wording

/-- The wording as it is recorded, which is never empty. -/
def recorded (fault : Fault) : String :=
  if fault.message.isEmpty then "Unknown error" else fault.message

/-- The cause lies in a value that was supplied and cannot be used. -/
def isBadValue : Fault → Bool
  | .unreadableNumber _ | .unreadableIndex _ | .longNumber _ | .headerNotAscii _ | .notFinite
  | .unreadableBody _ _ | .longInt false | .unpaired _ | .notPair _ _ => true
  | _ => false

theorem recorded_ne_empty (fault : Fault) : fault.recorded ≠ "" := by
  unfold recorded
  split <;> simp_all

end Fault

end Stepwise
