import Stepwise.Api.Message
import Stepwise.Settings

/-!
# Requests from pages of other origins

A browser asks first whether a page of another origin may make a request, and looks in each reply
whether the page may see it. What is allowed does not depend on the endpoint.
-/

namespace Stepwise.Api

/-- Which pages may make requests. -/
structure OriginPolicy where
  origins : List String
  credentials : Bool

namespace OriginPolicy

/-- The policy that is set. -/
def ofSettings (s : Settings) : OriginPolicy := ⟨s.origins, s.allowCredentials⟩

/-- Pages of all origins may make requests. -/
def isOpen (p : OriginPolicy) : Bool := p.origins.contains "*"

/-- Pages of an origin may make requests. -/
def admits (p : OriginPolicy) (origin : String) : Bool := p.isOpen || p.origins.contains origin

/-- The methods that may be used. -/
def methods : List String := ["GET", "POST", "PUT", "DELETE", "OPTIONS"]

/-- The headers that may be sent. -/
def headers : List String :=
  ["Accept", "Accept-Language", "Content-Language", "Content-Type", "X-Request-ID"]

/-- The header that lets credentials be sent. -/
def credentialHeaders (p : OriginPolicy) : List (String × String) :=
  if p.credentials then [("access-control-allow-credentials", "true")] else []

/-- The headers of every reply to a request that is no question beforehand. -/
def replyHeaders (p : OriginPolicy) (r : Request) : List (String × String) :=
  let vary := if p.isOpen && (r.header? "cookie").isNone then [] else [("vary", "Origin")]
  match r.header? "origin" with
  | none => if p.isOpen then [] else vary
  | some origin =>
    let allowed :=
      if p.isOpen && (r.header? "cookie").isNone then [("access-control-allow-origin", "*")]
      else if p.admits origin then [("access-control-allow-origin", origin)]
      else []
    p.credentialHeaders ++ allowed ++ vary

/-- A header that a question asks for, as it is compared. -/
def askedHeader (s : List Char) : String := (String.ofList (Text.trim s)).toLower

/-- What of a question has to be refused. -/
def refused (p : OriginPolicy) (origin method : String) (asked : Option String)
    (isPrivate : Bool) : List String :=
  let asked := match asked with
    | none => []
    | some asked => (asked.toList.splitOn ',').map askedHeader
  (if p.admits origin then [] else ["origin"])
    ++ (if methods.contains method then [] else ["method"])
    ++ (if asked.all (headers.map String.toLower).contains then [] else ["headers"])
    ++ (if isPrivate then ["private-network"] else [])

/-- The reply to a question beforehand. -/
def answer (p : OriginPolicy) (origin method : String) (r : Request) : Reply :=
  let privateHeader := "access-control-request-private-network"
  let refused := p.refused origin method (r.header? "access-control-request-headers")
    (r.header? privateHeader).isSome
  let isExplicit := !p.isOpen || p.credentials
  let allowed :=
    if !isExplicit then [("access-control-allow-origin", "*")]
    else if p.admits origin then [("access-control-allow-origin", origin)]
    else []
  let vary := (if isExplicit then ["Origin"] else [])
    ++ ["Access-Control-Request-Method", "Access-Control-Request-Headers",
      "Access-Control-Request-Private-Network"]
  { status := if refused.isEmpty then 200 else 400
    headers :=
      p.credentialHeaders ++ allowed
        ++ [("access-control-allow-methods", ", ".intercalate methods),
          ("access-control-allow-headers", ", ".intercalate headers),
          ("vary", ", ".intercalate vary)]
    content := .text (if refused.isEmpty then "OK"
      else "Disallowed CORS " ++ ", ".intercalate refused) }

/-- The reply to a question beforehand, if the request is one. -/
def question? (p : OriginPolicy) (r : Request) : Option Reply :=
  match r.header? "origin", r.header? "access-control-request-method" with
  | some origin, some method =>
    if r.method = "OPTIONS" then some (p.answer origin method r) else none
  | _, _ => none

end OriginPolicy

end Stepwise.Api
