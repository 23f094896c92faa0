import Stepwise.Fault
import Stepwise.Json.Write

/-!
# Outbound calls

A call is made of an address, a method, extra headers and a body. The content type of JSON comes
first among the headers unless a header of exactly that name replaces it; header names are
distinguished by case until they are sent. An answer counts only with a successful status and a
body of JSON text.
-/

namespace Stepwise.Outbound

/-- A call as it is sent; the names of headers are in lower case. -/
structure Call where
  method : String
  url : String
  headers : List (String × String)
  body : Option String
  deriving DecidableEq

/-- The answer to a call. -/
structure Reply where
  status : Int
  headers : List (String × String)
  body : String
  deriving DecidableEq

/-- What comes of sending a call: an answer, or a failure on the way. -/
abbrev Outcome := Except (Transport × String) Reply

/-- The headers of every call. -/
def jsonHeaders : Fields := [(.text "Content-Type", .text "application/json")]

/-- The headers of a call: those of every call, then the extra ones. -/
def mergeHeaders : Value → Except Fault Fields
  | .object fields => .ok (jsonHeaders.merge fields)
  | value => if value.isTruthy then .error (.notFields value.kind) else .ok jsonHeaders

/-- A text that is sent as a part of a header, which has no characters outside ASCII. -/
def asciiText (s : String) : Except Fault String :=
  if s.toList.any fun c => decide (127 < c.toNat) then .error (.headerNotAscii s) else .ok s

/-- A header as it is sent. -/
def sendHeader (header : Key × Value) : Except Fault (String × String) := do
  let name ← match header.1 with
    | .text s => asciiText s
    | key => throw (.noAttribute key.toValue.kind "encode")
  match header.2 with
  | .text s => return (name.toLower, ← asciiText s)
  | value => throw (.headerNotText value.kind)

/-- A method as it is sent. -/
def sendMethod : Value → Except Fault String
  | .text s => .ok s.toUpper
  | value => .error (.noAttribute value.kind "upper")

/-- A body as it is sent; a null one is not sent at all. -/
def sendBody : Value → Except Fault (Option String)
  | .null => .ok none
  | value =>
    if Json.isFinite value then .ok (some (String.ofList (Json.write value)))
    else .error .notFinite

/-- The call that an address, a method, headers and a body make. -/
def Call.build (url method headers body : Value) : Except Fault Call := do
  let merged ← mergeHeaders headers
  let method ← sendMethod method
  match url with
  | .text url =>
    let headers ← merged.mapM sendHeader
    let body ← sendBody body
    return ⟨method, url, headers, body⟩
  | url => .error (.urlNotText url)

/-- The value of the first header of a name, in any case. -/
def Reply.header? (r : Reply) (name : String) : Option String :=
  (r.headers.find? fun (n, _) => n.toLower == name).map (·.2)

/-- The value that an answer to a call of an address carries. -/
def Reply.value (url : String) (r : Reply) : Except Fault Value :=
  if isSuccess r.status then
    match Json.readBody r.body.toList with
    | .ok value => .ok value
    | .error (.longNumber digits) => .error (.longNumber digits)
    | .error refusal =>
      .error (.unreadableBody (String.ofList (Json.bodyText r.body.toList)) refusal)
  else
    let location := if isRedirect r.status then r.header? "location" else none
    .error (.badStatus ⟨r.status, url, location⟩)

/-- The value that comes of a call. -/
def Outcome.value (url : String) : Outcome → Except Fault Value
  | .ok reply => reply.value url
  | .error (kind, message) => .error (.transport kind message)

/-- Headers that belong to the connection and not to the call. -/
def connectionHeaders : List String :=
  ["host", "accept", "accept-encoding", "connection", "user-agent", "content-length"]

/-- The headers of a call that are its own. -/
def Call.ownHeaders (c : Call) : List (String × String) :=
  c.headers.filter fun (name, _) => !connectionHeaders.contains name

end Stepwise.Outbound
