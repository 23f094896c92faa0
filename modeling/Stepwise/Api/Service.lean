import Stepwise.Api.Origin
import Stepwise.Api.Route
import Stepwise.Api.Submission
import Stepwise.Api.View
import Stepwise.Json.Read
import Stepwise.Server
import Stepwise.Text.Percent

/-!
# The service

A request is led to its endpoint, and what the endpoint does or what keeps it from doing so becomes
the reply. Every reply carries the id of its request, which the client may choose. A request that
starts an execution can wait for its end in the background while other requests are served.
-/

namespace Stepwise.Api

open Input Store

/-- What keeps a request from being carried out. -/
inductive Trouble
  /-- The input is not as it should be. -/
  | issues (list : List Issue)
  /-- The body cannot be read at all. -/
  | unreadableBody
  /-- A thing that is not there. -/
  | missing (thing : String)
  | fault (f : Fault)
  /-- A result that cannot be shown. -/
  | unshown (obstacle : Obstacle)

/-- A reply that says what is the matter with a request of an id. -/
def trackedDetail (id : String) (status : Nat) (detail : String) : Reply :=
  .json status (record [("detail", .text detail), ("request_id", .text id)])

/-- The wording of a fault nobody expected; in production it is not told. -/
def hiddenDetail (isProduction : Bool) (message : String) : String :=
  if isProduction || message.isEmpty then "Internal server error" else message

/-- The reply to a request that a fault keeps from being carried out. -/
def faultReply (isProduction : Bool) (id : String) (fault : Fault) : Reply :=
  match fault.rejection? with
  | some rejection => trackedDetail id rejection.status fault.message
  | none =>
    if fault.isBadValue then trackedDetail id 400 fault.message
    else trackedDetail id 500 (hiddenDetail isProduction fault.message)

/-- The reply to a request that is not carried out. -/
def Trouble.reply (isProduction : Bool) (id : String) : Trouble → Reply
  | .issues list => .detail 422 (.list (list.map Issue.toValue))
  | .unreadableBody => .detail 400 (.text "There was an error parsing the body")
  | .missing thing => trackedDetail id 404 (thing ++ " not found")
  | .fault f => faultReply isProduction id f
  | .unshown obstacle => trackedDetail id 400 obstacle.message

/-! ## Bodies -/

/-- The body of a request. -/
inductive Body
  | absent
  | json (v : Value)
  /-- Something that is not said to be JSON. -/
  | raw

/-- A content type says that the content is JSON. -/
def isJsonType (type : String) : Bool :=
  let name := Text.trim (type.toLower.toList.takeWhile (· ≠ ';'))
  match name.splitOn '/' with
  | [main, sub] =>
    main == "application".toList && (sub == "json".toList || "+json".toList.isSuffixOf sub)
  | _ => false

/-- Reads the body of a request. -/
def Request.readBody (r : Request) : Except Trouble Body :=
  if r.body.isEmpty then .ok .absent
  else if ((r.header? "content-type").map isJsonType).getD true then
    match Json.readBody r.body.toList with
    | .ok value => .ok (.json value)
    | .error (.malformed ..) => .error (.issues [⟨.notJson, [.name "body"]⟩])
    | .error (.longNumber _) => .error .unreadableBody
  else .ok .raw

/-- The record that a body has to be. -/
def Body.form {α : Type} [Inhabited α] (body : Body) (read : Form → Reading α) :
    Except Trouble α :=
  let path := [Place.name "body"]
  let reading : Reading α := match body with
    | .absent => .note .missing path
    | .json value => Form.read path value read
    | .raw => .note .notRecord path
  reading.complete.mapError .issues

/-- The record that a body may be. -/
def Body.form? {α : Type} [Inhabited α] (body : Body) (read : Form → Reading α) :
    Except Trouble (Option α) :=
  match body with
  | .absent | .json .null => .ok none
  | body => some <$> body.form read

/-! ## Endpoints -/

/-- What has to be done for a request. -/
inductive Work
  | reply (r : Reply)
  /-- An execution, whose report is the reply. -/
  | execution (e : Execution.Activity (Except Fault Execution.Report))

/-- A part of carrying out a request. Trouble does not undo what the server has done before. -/
abbrev Handler := ExceptT Trouble (StateM Server)

/-- Carries out a transaction at the time of the server. -/
def store {α : Type} (t : Instant → Transaction α) : Handler α := do
  let (result, server) := (← get).transact (t (← get).now)
  set server
  match result with
  | .ok a => return a
  | .error fault => throw (.fault fault)

/-- The tables as they are. -/
def tables : Handler Tables := do return (← get).db.tables

/-- The seconds of a time, to a tenth. -/
def uptime (now : Instant) : Double :=
  (Decimal.mk false ((now.micros + 50000) / 100000) (-1)).toDouble

/-- What is told of a service that is alive. -/
def livenessView (settings : Settings) (now : Instant) : Value :=
  record [("status", .text "ok"), ("app", .text settings.appName),
    ("version", .text settings.appVersion), ("uptime_seconds", .double (uptime now))]

/-- Whether the database can be used. -/
def readinessReply (isReachable : Bool) : Reply :=
  if isReachable then .json 200 (record [("status", .text "healthy"), ("database", .text "ok")])
  else .detail 503 (record [("status", .text "unhealthy"), ("database", .text "unavailable")])

/-- Creates a workflow. -/
def createWorkflow (r : Request) : Handler Reply := do
  let new ← (← r.readBody).form readNewWorkflow
  let stored ← store fun now => Workflow.create now new.toDraft
  return .json 201 (workflowView stored none)

/-- Changes a workflow. -/
def updateWorkflow (id : String) (r : Request) : Handler Reply := do
  let patch ← (← r.readBody).form readWorkflowPatch
  let steps := patch.steps.map fun steps => steps.map (·.toFields)
  match ← store fun now => Workflow.update now id patch.toChanges steps with
  | some stored => return .json 200 (workflowView stored none)
  | none => throw (.missing "Workflow")

/-- Shows a workflow. -/
def getWorkflow (id : String) : Handler Reply := do
  match Workflow.get? (← tables) id with
  | some stored => return .json 200 (workflowView stored none)
  | none => throw (.missing "Workflow")

/-- Shows the workflows of a workspace. -/
def listWorkflows (workspace : String) : Handler Reply := do
  let views := (Workflow.list (← tables) workspace).map fun (stored, executions) =>
    workflowView stored (some executions)
  return .json 200 (.list views)

/-- Creates a trigger. -/
def createTrigger (r : Request) : Handler Reply := do
  let new ← (← r.readBody).form readNewTrigger
  let row ← store fun now =>
    Trigger.create now (some new.workspace) (some new.workflow) (some new.name) new.creator
  return .json 201 (triggerView row)

/-- Shows the triggers of a workspace. -/
def listTriggers (workspace : String) : Handler Reply := do
  return .json 200 (.list ((Trigger.list (← tables) workspace none).map triggerView))

/-- Carries out a deletion of a thing. -/
def delete (thing : String) (t : Transaction Bool) : Handler Reply := do
  if ← store fun _ => t then return ⟨204, [], .none⟩ else throw (.missing thing)

/-- The reply that shows something. -/
def shownReply (view : Except Obstacle Value) : Except Trouble Reply :=
  (view.map (Reply.json 200)).mapError .unshown

/-- Shows an execution. -/
def getExecution (id : String) : Handler Reply := do
  let tables ← tables
  match Execution.find? tables id with
  | some row => shownReply (storedView row (Workflow.find? tables row.workflow))
  | none => throw (.fault .executionMissing)

/-- Shows the executions of a workflow. -/
def listExecutions (workflow : String) (r : Request) : Handler Reply := do
  let limit ← (readLimit (r.parameter? "limit")).complete.mapError Trouble.issues
  let rows := Execution.list (← tables) workflow (some limit)
  shownReply (.list <$> rows.mapM (storedView · none))

/-- Cancels an execution. -/
def cancelExecution (id : String) : Handler Reply := do
  let (result, server) := (← get).cancel .main id
  set server
  match result with
  | .ok row => shownReply (cancelledView row)
  | .error fault => throw (.fault fault)

/-- Receives a call from outside. Without a body its payload is null, and one that is not JSON is of
no use. -/
def receive (url : String) (r : Request) : Handler Work := do
  let signature := r.parameter? "signature"
  let payload ← match ← r.readBody with
    | .absent => pure Value.null
    | .json value => pure value
    | .raw =>
      let (fault, server) := (← get).receiveRaw url signature
      set server
      throw (.fault fault)
  return .execution
    (Execution.executeInbound (← get).rules Trigger.sourceTag url payload signature)

/-- Carries out a request for an endpoint. -/
def handle (settings : Settings) (isReachable : Bool) (r : Request) : Endpoint → Handler Work
  | .liveness => do return .reply (.json 200 (livenessView settings (← get).now))
  | .readiness => return .reply (readinessReply isReachable)
  | .createTrigger => .reply <$> createTrigger r
  | .listTriggers workspace => .reply <$> listTriggers workspace
  | .deleteTrigger id => .reply <$> delete "Webhook" (triggerTable.delete id)
  | .receive url => receive url r
  | .getExecution id => .reply <$> getExecution id
  | .cancelExecution id => .reply <$> cancelExecution id
  | .createWorkflow => .reply <$> createWorkflow r
  | .listWorkflows workspace => .reply <$> listWorkflows workspace
  | .getWorkflow id => .reply <$> getWorkflow id
  | .updateWorkflow id => .reply <$> updateWorkflow id r
  | .deleteWorkflow id => .reply <$> delete "Workflow" (Workflow.delete id)
  | .execute workflow => do
    let order := ((← (← r.readBody).form? readExecutionOrder)).getD default
    return .execution
      (Execution.execute (← get).rules workflow order.input (some order.starter))
  | .listExecutions workflow => .reply <$> listExecutions workflow r

/-- The reply to a request whose execution has ended. -/
def reportReply : Except Fault Execution.Report → Except Trouble Reply
  | .ok report => shownReply (reportView report)
  | .error fault => .error (.fault fault)

/-! ## Serving requests -/

/-- A request that is served in the background. -/
structure Deferred where
  name : String
  request : Request
  id : String
  /-- The reply, unless it waits for an execution. -/
  reply : Option Reply

/-- The state of the service. -/
structure Service where
  settings : Settings
  server : Server
  isReachable : Bool
  /-- The number of the next request that gets an id. -/
  nextRequest : Nat
  deferred : List Deferred

namespace Service

/-- A service with nothing stored. -/
def start (settings : Settings) (script : List Outbound.Scripted) : Service where
  settings := settings
  server := .fresh ⟨settings.keepLogs, settings.maxDepth⟩ script
  isReachable := true
  nextRequest := 1
  deferred := []

/-- The policy for pages of other origins. -/
def policy (s : Service) : OriginPolicy := .ofSettings s.settings

/-- The id of a request: that which the client chose, or the next number. -/
def identify (s : Service) (r : Request) : String × Service :=
  match r.header? "x-request-id" with
  | some id => if id.isEmpty then drawn else (id, s)
  | none => drawn
where
  /-- The id made of the next number. -/
  drawn : String × Service :=
    ("q-" ++ toString s.nextRequest, { s with nextRequest := s.nextRequest + 1 })

/-- A reply with the headers that every reply has. -/
def finish (s : Service) (r : Request) (id : String) (reply : Reply) : Reply :=
  reply.withHeaders (("x-request-id", id) :: s.policy.replyHeaders r)

/-- The reply that comes of carrying out a request. -/
def resolve (s : Service) (r : Request) (id : String) (result : Except Trouble Reply) : Reply :=
  s.finish r id (match result with
    | .ok reply => reply
    | .error trouble => trouble.reply s.settings.isProduction id)

/-- Where a redirected client is sent, with its parameters. -/
def location (r : Request) (path : String) : String :=
  let parameters :=
    if r.parameters.isEmpty then "" else "?" ++ Text.encodeParameters r.parameters
  Text.encodeAddress ("http://" ++ (r.header? "host").getD "" ++ path ++ parameters)

/-- Does for a request what can be done at once. -/
def begin (s : Service) (r : Request) : Except Trouble Work × Service :=
  match route s.settings.apiRoot r.method (Text.decodeAddress r.path) with
  | .found endpoint =>
    let (result, server) := (handle s.settings s.isReachable r endpoint).run s.server
    (result, { s with server })
  | .wrongMethod right =>
    (.ok (.reply ((Reply.detail 405 (.text "Method Not Allowed")).withHeaders
      [("allow", right.name)])), s)
  | .redirect path => (.ok (.reply ⟨307, [("location", location r path)], .none⟩), s)
  | .unknown => (.ok (.reply (.detail 404 (.text "Not Found"))), s)

/-- Serves a request. -/
def serve (s : Service) (r : Request) : Reply × Service :=
  match s.policy.question? r with
  | some reply => (reply, s)
  | none =>
    let (id, s) := s.identify r
    match s.begin r with
    | (.ok (.reply reply), s) => (s.resolve r id (.ok reply), s)
    | (.error trouble, s) => (s.resolve r id (.error trouble), s)
    | (.ok (.execution e), s) =>
      let (result, server) := s.server.run .main e
      let s := { s with server }
      (s.resolve r id (reportReply result), s)

/-- Keeps a request in the background under a name. -/
def defer (s : Service) (name : String) (r : Request) (id : String) (reply : Option Reply) :
    Service :=
  { s with deferred := s.deferred ++ [⟨name, r, id, reply⟩] }

/-- Serves a request in the background under a name. -/
def launch (s : Service) (name : String) (r : Request) : Service :=
  match s.policy.question? r with
  | some reply => s.defer name r "" (some reply)
  | none =>
    let (id, s) := s.identify r
    match s.begin r with
    | (.ok (.reply reply), s) => s.defer name r id (some (s.resolve r id (.ok reply)))
    | (.error trouble, s) => s.defer name r id (some (s.resolve r id (.error trouble)))
    | (.ok (.execution e), s) =>
      { s with server := s.server.launch name .main e }.defer name r id none

/-- The reply to the request of a name in the background, once there is one. -/
def reply? (s : Service) (name : String) : Option Reply := do
  let d ← s.deferred.find? (·.name == name)
  match d.reply with
  | some reply => return reply
  | none => return s.resolve d.request d.id (reportReply (← s.server.result? name))

end Service

end Stepwise.Api
