/-!
# Rejections

The kinds of refusal that a caller can tell apart by more than their wording: each has a status,
most have a wording of their own, and each is a special case of another one up to the general
kind.
-/

namespace Stepwise

/-- A kind of refusal. -/
inductive Rejection
  | general
  | notFound
  | unauthorized
  | invalid
  | conflict
  | workflowNotFound
  | executionNotFound
  | triggerNotFound
  | wrongSignature
  | unrunnable
  | cancelled
  deriving DecidableEq

namespace Rejection

/-- The kind of which this one is a special case. -/
def parent? : Rejection → Option Rejection
  | .general => none
  | .notFound | .unauthorized | .invalid | .conflict | .unrunnable => some .general
  | .workflowNotFound | .executionNotFound | .triggerNotFound => some .notFound
  | .wrongSignature => some .unauthorized
  | .cancelled => some .conflict

/-- The kind itself, then those it is a special case of, up to the general one. -/
def lineage (r : Rejection) : List Rejection :=
  match r.parent? with
  | none => [r]
  | some p => r :: p :: p.parent?.toList

/-- The status that a caller is told. -/
def status : Rejection → Nat
  | .general => 500
  | .notFound | .workflowNotFound | .executionNotFound | .triggerNotFound => 404
  | .unauthorized | .wrongSignature => 401
  | .invalid | .unrunnable => 422
  | .conflict | .cancelled => 409

/-- The wording used where none is given. -/
def wording? : Rejection → Option String
  | .general | .unrunnable => none
  | .notFound => some "Resource not found"
  | .unauthorized => some "Unauthorized"
  | .invalid => some "Validation failed"
  | .conflict => some "Resource conflict"
  | .workflowNotFound => some "Workflow not found or inactive"
  | .executionNotFound => some "Execution not found"
  | .triggerNotFound => some "Webhook not found or inactive"
  | .wrongSignature => some "Invalid webhook signature"
  | .cancelled => some "Execution cancelled"

/-- A refusal with its wording and status. -/
structure Refused where
  kind : Rejection
  message : String
  status : Int

/-- Why a refusal cannot be made. -/
inductive Misuse
  /-- A kind without a wording of its own needs one. -/
  | noMessage
  /-- Only the general kind can be given a status. -/
  | statusFixed

/-- The wording of a misuse of the kind called `name`. -/
def Misuse.message (name : String) : Misuse → String
  | .noMessage => name ++ ".__init__() missing 1 required positional argument: 'message'"
  | .statusFixed => name ++ ".__init__() got an unexpected keyword argument 'status_code'"

/-- A refusal of a kind, with a given wording and status or its own ones. -/
def refuse (r : Rejection) (message : Option String) (status : Option Int) :
    Except Misuse Refused :=
  if r != .general && status.isSome then .error .statusFixed
  else
    match message <|> r.wording? with
    | none => .error .noMessage
    | some message => .ok ⟨r, message, status.getD r.status⟩

end Rejection

end Stepwise
