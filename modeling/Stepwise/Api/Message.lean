import Stepwise.Value.Basic

/-!
# Requests and replies

A request has a method, a path, parameters, headers and a body, all texts. A reply has a status,
headers and a content. Header names are told apart without regard to case; of several parameters
of one name the last one counts.
-/

namespace Stepwise.Api

/-- A request; an empty body is none. -/
structure Request where
  method : String
  path : String
  parameters : List (String × String)
  headers : List (String × String)
  body : String

/-- The value of a header. -/
def Request.header? (r : Request) (name : String) : Option String :=
  (r.headers.find? fun (n, _) => n.toLower == name).map (·.2)

/-- The value of a parameter. -/
def Request.parameter? (r : Request) (name : String) : Option String :=
  (r.parameters.reverse.find? (·.1 == name)).map (·.2)

/-- What a reply says. -/
inductive Content
  | none
  | text (s : String)
  | json (v : Value)

/-- A reply; the names of headers are in lower case. -/
structure Reply where
  status : Nat
  headers : List (String × String)
  content : Content

namespace Reply

/-- A reply with nothing but a value. -/
def json (status : Nat) (value : Value) : Reply := ⟨status, [], .json value⟩

/-- A reply that says what is the matter. -/
def detail (status : Nat) (detail : Value) : Reply :=
  .json status (.object [(.text "detail", detail)])

/-- A reply with further headers. -/
def withHeaders (r : Reply) (headers : List (String × String)) : Reply :=
  { r with headers := r.headers ++ headers }

/-- The value of a header. -/
def header? (r : Reply) (name : String) : Option String :=
  (r.headers.find? (·.1 == name)).map (·.2)

@[simp] theorem status_withHeaders (r : Reply) (headers : List (String × String)) :
    (r.withHeaders headers).status = r.status := rfl

@[simp] theorem content_withHeaders (r : Reply) (headers : List (String × String)) :
    (r.withHeaders headers).content = r.content := rfl

end Reply

end Stepwise.Api
