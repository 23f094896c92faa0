import Stepwise.Api.Message

/-!
# Routes

The endpoints stand under a common root. Each has a method and a path, in which one part may be a
name. Of the routes that match a path the first one with the right method is taken; if no method is
right, the first of them tells which one would have been. A path that matches nothing may match with
one more slash at its end, or without the slashes there.
-/

namespace Stepwise.Api

/-- The methods that routes have. -/
inductive Method
  | get
  | post
  | put
  | delete
  deriving DecidableEq

/-- The name of a method. -/
def Method.name : Method → String
  | .get => "GET"
  | .post => "POST"
  | .put => "PUT"
  | .delete => "DELETE"

/-- What a request can be made for. -/
inductive Endpoint
  | liveness
  | readiness
  | createTrigger
  | listTriggers (workspace : String)
  | deleteTrigger (id : String)
  | receive (url : String)
  | getExecution (id : String)
  | cancelExecution (id : String)
  | createWorkflow
  | listWorkflows (workspace : String)
  | getWorkflow (id : String)
  | updateWorkflow (id : String)
  | deleteWorkflow (id : String)
  | execute (workflow : String)
  | listExecutions (workflow : String)
  deriving DecidableEq

/-- A part of the path of a route. -/
inductive Part
  | word (s : String)
  | name

/-- A route; `target` makes the endpoint from the name in the path. -/
structure Route where
  method : Method
  parts : List Part
  target : String → Endpoint

/-- All routes in their order. -/
def routes : List Route := [
  ⟨.get, [.word "health"], fun _ => .liveness⟩,
  ⟨.get, [.word "health", .word "ready"], fun _ => .readiness⟩,
  ⟨.post, [.word "workflows", .word "webhooks"], fun _ => .createTrigger⟩,
  ⟨.get, [.word "workflows", .word "webhooks", .word "workspace", .name], .listTriggers⟩,
  ⟨.delete, [.word "workflows", .word "webhooks", .name], .deleteTrigger⟩,
  ⟨.post, [.word "workflows", .word "webhooks", .name, .word "trigger"], .receive⟩,
  ⟨.get, [.word "workflows", .word "executions", .name], .getExecution⟩,
  ⟨.post, [.word "workflows", .word "executions", .name, .word "cancel"], .cancelExecution⟩,
  ⟨.post, [.word "workflows", .word ""], fun _ => .createWorkflow⟩,
  ⟨.get, [.word "workflows", .word "workspace", .name], .listWorkflows⟩,
  ⟨.get, [.word "workflows", .name], .getWorkflow⟩,
  ⟨.put, [.word "workflows", .name], .updateWorkflow⟩,
  ⟨.delete, [.word "workflows", .name], .deleteWorkflow⟩,
  ⟨.post, [.word "workflows", .name, .word "execute"], .execute⟩,
  ⟨.get, [.word "workflows", .name, .word "executions"], .listExecutions⟩]

/-- Matches the parts of a path: the name in it, which is empty if the route has none. -/
def matchParts : List Part → List String → Option String
  | [], [] => some ""
  | .word w :: parts, s :: rest => if w = s then matchParts parts rest else none
  | .name :: parts, s :: rest =>
    if s.isEmpty then none else (matchParts parts rest).map fun _ => s
  | _, _ => none

/-- The parts of a path under a root, if it lies there. -/
def partsUnder? (root path : String) : Option (List String) :=
  if root.toList.isPrefixOf path.toList then
    match path.toList.drop root.length with
    | '/' :: rest => some ((rest.splitOn '/').map String.ofList)
    | _ => none
  else none

/-- The routes that match a path, with their endpoints. -/
def matching (root path : String) : List (Method × Endpoint) :=
  match partsUnder? root path with
  | none => []
  | some parts =>
    routes.filterMap fun route =>
      (matchParts route.parts parts).map fun name => (route.method, route.target name)

/-- The path with one slash more at its end, or without the slashes there. -/
def toggleSlash (path : String) : String :=
  let stem := (path.toList.reverse.dropWhile (· = '/')).reverse
  if stem.length < path.length then String.ofList stem else path ++ "/"

/-- Where a request is led. -/
inductive Routing
  | found (endpoint : Endpoint)
  /-- The path is right, but it is for another method. -/
  | wrongMethod (right : Method)
  /-- The request should be made for another path. -/
  | redirect (path : String)
  | unknown

/-- Leads a request to its endpoint. -/
def route (root method path : String) : Routing :=
  let found := matching root path
  match found.find? (·.1.name == method), found with
  | some (_, endpoint), _ => .found endpoint
  | none, (right, _) :: _ => .wrongMethod right
  | none, [] =>
    if path != "/" && !(matching root (toggleSlash path)).isEmpty then
      .redirect (toggleSlash path)
    else .unknown

end Stepwise.Api
