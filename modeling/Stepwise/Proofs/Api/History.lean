import Stepwise.Api.Service
import Stepwise.Proofs.Api.Reading
import Stepwise.Proofs.Server.Schedule

/-!
# A service that is used

Clients ask a service for one thing after another, in the foreground and in the background, and the
executions in the background go on in between. All that its server does for them is operations whose
input was read from requests. So what such operations keep up holds of the server at any time.
-/

namespace Stepwise

open Json

/-- What the operation is given was read from requests. -/
def Operation.IsSubmitted : Operation → Prop
  | .createWorkflow draft => ∀ step ∈ draft.steps, Api.Submitted step
  | .updateWorkflow _ _ steps => ∀ list, steps = some list → ∀ step ∈ list, Api.Submitted step
  | .execute _ _ _ input _ => Clean input
  | .receive _ _ _ payload _ => Clean payload
  | _ => True

/-- A property of servers that is kept up by all that a service does with its server, whatever
executions are in the background. -/
structure Server.Maintained (p : Server → Prop) : Prop where
  step : ∀ s op, op.IsSubmitted → p s → p (s.step op)
  background : ∀ s others, p s → p { s with background := others }

namespace Server.Maintained

variable {p : Server → Prop}

/-- The rules stay as they are anyway. -/
theorem withRules (h : Maintained p) (rules : Execution.Rules) :
    Maintained fun s => p s ∧ s.rules = rules where
  step s op hop hs := ⟨h.step s op hop hs.1, (s.rules_step op).trans hs.2⟩
  background s others hs := ⟨h.background s others hs.1, hs.2⟩

theorem of_background (h : Maintained p) {s : Server} {others : List Background}
    (hs : p { s with background := others }) : p s :=
  h.background { s with background := others } s.background hs

theorem play (h : Maintained p) {s : Server} (hs : p s) {operations : List Operation}
    (hops : ∀ op ∈ operations, op.IsSubmitted) : p (s.play operations) := by
  induction operations generalizing s with
  | nil => exact hs
  | cons op rest ih =>
    obtain ⟨hop, hrest⟩ := List.forall_mem_cons.mp hops
    exact ih (h.step s op hop hs) hrest

end Server.Maintained

namespace Api

open Input Reading Form Store Execution Server

/-! ## What handlers keep up -/

section Handlers

variable {α β : Type} {p : Server → Prop} {q : α → Prop} {r : β → Prop}

theorem run_bind_of_ok {x : Handler α} {f : α → Handler β} {s s' : Server} {a : α}
    (h : x.run s = (.ok a, s')) : (x >>= f).run s = (f a).run s' := by
  show (ExceptT.bindCont f (x.run s).1).run (x.run s).2 = _
  rw [h]
  rfl

theorem run_bind_of_error {x : Handler α} {f : α → Handler β} {s s' : Server} {trouble : Trouble}
    (h : x.run s = (.error trouble, s')) : (x >>= f).run s = (.error trouble, s') := by
  show (ExceptT.bindCont f (x.run s).1).run (x.run s).2 = _
  rw [h]
  rfl

theorem run_map_of_ok {x : Handler α} {f : α → β} {s s' : Server} {a : α}
    (h : x.run s = (.ok a, s')) : (f <$> x).run s = (.ok (f a), s') :=
  run_bind_of_ok (f := fun a => pure (f a)) h

theorem run_store (t : Instant → Transaction α) (s : Server) :
    (Api.store t).run s =
      ((s.transact (t s.now)).1.mapError Trouble.fault, (s.transact (t s.now)).2) := by
  unfold Api.store
  refine (run_bind_of_ok (a := s) rfl).trans ?_
  refine (run_bind_of_ok (a := s) rfl).trans ?_
  cases s.transact (t s.now) with
  | mk result server =>
    refine (run_bind_of_ok (a := ()) rfl).trans ?_
    cases result with
    | error fault => rfl
    | ok a => rfl

/-- The handler keeps up `p`, and `q` holds of its result if it has one. -/
def Ensures (p : Server → Prop) (q : α → Prop) (h : Handler α) : Prop :=
  ∀ s, p s → p (h.run s).2 ∧ ∀ a, (h.run s).1 = .ok a → q a

namespace Ensures

theorem pure {a : α} (h : q a) : Ensures p q (pure a) :=
  fun _ hs => ⟨hs, fun _ ha => Except.ok.inj ha ▸ h⟩

theorem throw (trouble : Trouble) : Ensures p q (throw trouble) := fun _ hs => ⟨hs, nofun⟩

theorem get : Ensures p p get := fun _ hs => ⟨hs, fun _ ha => Except.ok.inj ha ▸ hs⟩

theorem set {s : Server} (h : p s) : Ensures p (fun _ => True) (set s) :=
  fun _ _ => ⟨h, fun _ _ => trivial⟩

theorem ofExcept (e : Except Trouble α) :
    Ensures p (fun a => e = .ok a) (liftM e : Handler α) := fun _ hs => ⟨hs, fun _ ha => ha⟩

theorem bind {x : Handler α} {f : α → Handler β} (hx : Ensures p q x)
    (hf : ∀ a, q a → Ensures p r (f a)) : Ensures p r (x >>= f) := by
  intro s hs
  obtain ⟨hp, hq⟩ := hx s hs
  show p ((ExceptT.bindCont f (x.run s).1).run (x.run s).2).2 ∧
    ∀ b, ((ExceptT.bindCont f (x.run s).1).run (x.run s).2).1 = .ok b → r b
  cases ha : (x.run s).1 with
  | error trouble => exact ⟨hp, nofun⟩
  | ok a => exact hf a (hq a ha) _ hp

theorem map {x : Handler α} {f : α → β} (hx : Ensures p q x) (hf : ∀ a, q a → r (f a)) :
    Ensures p r (f <$> x) :=
  hx.bind fun a ha => pure (hf a ha)

theorem mono {q' : α → Prop} {x : Handler α} (hx : Ensures p q x) (h : ∀ a, q a → q' a) :
    Ensures p q' x :=
  fun s hs => ⟨(hx s hs).1, fun a ha => h a ((hx s hs).2 a ha)⟩

theorem store {t : Instant → Transaction α} (h : ∀ s, p s → p (s.transact (t s.now)).2) :
    Ensures p (fun _ => True) (Api.store t) := by
  intro s hs
  rw [run_store]
  exact ⟨h s hs, fun _ _ => trivial⟩

theorem tables : Ensures p (fun _ => True) Api.tables := bind get fun _ _ => pure trivial

end Ensures

end Handlers

/-! ## What is read from a request -/

theorem clean_of_readBody {r : Request} {value : Value} (h : r.readBody = .ok (.json value)) :
    Clean value := by
  unfold Request.readBody at h
  split_ifs at h
  · cases h
  · split at h
    · rename_i hread
      cases h
      exact clean_readBody hread
    · cases h
    · cases h
  · cases h

theorem readBody_of_read {r : Request} {value : Value} (hbody : r.body.isEmpty = false)
    (htype : r.header? "content-type" = none) (hread : Json.readBody r.body.toList = .ok value) :
    r.readBody = .ok (.json value) := by
  unfold Request.readBody
  rw [hbody, htype, hread]
  rfl

theorem Body.form_eq_ok {α : Type} [Inhabited α] {body : Body} {read : Form → Reading α} {a : α}
    (h : body.form read = .ok a) : ∃ fields, body = .json (.object fields) ∧
      (read ⟨fields, [.name "body"]⟩).complete = .ok a := by
  have hcomplete (reading : Reading α)
      (h : reading.complete.mapError Trouble.issues = .ok a) : reading.complete = .ok a := by
    cases hr : reading.complete with
    | error issues =>
      rw [hr] at h
      cases h
    | ok a' =>
      rw [hr] at h
      cases h
      rfl
  cases body with
  | absent => cases hcomplete (.note .missing [.name "body"]) h
  | raw => cases hcomplete (.note .notRecord [.name "body"]) h
  | json value =>
    obtain ⟨fields, rfl, hread⟩ := complete_read.mp
      (hcomplete (Form.read [.name "body"] value read) h)
    exact ⟨fields, rfl, hread⟩

theorem Body.form_of_complete {α : Type} [Inhabited α] {read : Form → Reading α} {a : α}
    {fields : Fields} (h : (read ⟨fields, [.name "body"]⟩).complete = .ok a) :
    (Body.json (.object fields)).form read = .ok a := by
  show (read ⟨fields, [.name "body"]⟩).complete.mapError Trouble.issues = .ok a
  rw [h]
  rfl

instance (form : Form) : (readExecutionOrder form).Steady := by
  unfold readExecutionOrder
  infer_instance

theorem clean_readExecutionOrder {form : Form} (hform : Clean (.object form.fields))
    {order : ExecutionOrder} (h : (readExecutionOrder form).complete = .ok order) :
    Clean order.input := by
  simp only [readExecutionOrder, complete_bind, complete_pure] at h
  obtain ⟨input, hinput, _, _, rfl⟩ := h
  cases hfound : form.first? ["input"] with
  | none =>
    rw [← (complete_optional_of_absent hfound).mp hinput]
    exact .null
  | some found =>
    have hvalue := (complete_optional_of_first? _ hfound).mp hinput
    cases hvalue
    exact hform.get? (first?_eq_some hfound)

/-- The input of an execution is JSON, if it is given at all. -/
theorem clean_order {r : Request} {body : Body} (hbody : r.readBody = .ok body)
    {order : Option ExecutionOrder} (h : body.form? readExecutionOrder = .ok order) :
    Clean (order.getD default).input := by
  unfold Body.form? at h
  split at h
  · cases h
    exact .null
  · cases h
    exact .null
  · obtain ⟨order', hform, heq⟩ := Except.ok_of_bind h
    cases heq
    obtain ⟨fields, rfl, hread⟩ := Body.form_eq_ok hform
    exact clean_readExecutionOrder (clean_of_readBody hbody) hread

/-! ## What is done for a request -/

/-- What is to be done is to reply, or to execute a workflow under the rules with input that was
read. -/
inductive Work.IsOrdered (rules : Rules) : Work → Prop
  | reply (reply : Reply) : IsOrdered rules (.reply reply)
  | execute (workflow : String) {input : Value} (triggeredBy : Option String)
      (h : Clean input) : IsOrdered rules (.execution (execute rules workflow input triggeredBy))
  | receive (url : String) {payload : Value} (signature : Option String) (h : Clean payload) :
      IsOrdered rules
        (.execution (executeInbound rules Trigger.sourceTag url payload signature))

section Handle

variable {p : Server → Prop}

/-- What is done at once for a request is operations of the server. -/
theorem ensures_handle (hk : Maintained p) (rules : Rules) (settings : Settings)
    (isReachable : Bool) (r : Request) (endpoint : Endpoint) :
    Ensures (fun s => p s ∧ s.rules = rules) (Work.IsOrdered rules)
      (handle settings isReachable r endpoint) := by
  have hkept := hk.withRules rules
  have hstep (op : Operation) (hop : op.IsSubmitted) (s : Server)
      (hs : p s ∧ s.rules = rules) : p (s.step op) ∧ (s.step op).rules = rules :=
    hkept.step s op hop hs
  have hshown {work : Handler Reply} (h : Ensures (fun s => p s ∧ s.rules = rules)
      (fun _ => True) work) : Ensures (fun s => p s ∧ s.rules = rules) (Work.IsOrdered rules)
      (.reply <$> work) := h.map fun reply _ => .reply reply
  cases endpoint with
  | liveness => exact Ensures.get.bind fun _ _ => .pure (.reply _)
  | readiness => exact .pure (.reply _)
  | createTrigger =>
    refine hshown ((Ensures.ofExcept r.readBody).bind fun body _ => ?_)
    refine (Ensures.ofExcept _).bind fun new _ => (Ensures.store fun s hs => ?_).bind fun row _ =>
      .pure trivial
    exact hstep (.createTrigger _ _ _ _) trivial s hs
  | listTriggers workspace => exact hshown (Ensures.tables.bind fun _ _ => .pure trivial)
  | deleteTrigger id =>
    refine hshown ((Ensures.store (t := fun _ => triggerTable.delete id) fun s hs =>
      hstep (.deleteTrigger id) trivial s hs).bind fun found _ => ?_)
    split_ifs
    · exact .pure trivial
    · exact .throw _
  | receive url =>
    refine (Ensures.ofExcept r.readBody).bind fun body hbody => ?_
    cases body with
    | absent =>
      refine Ensures.bind (q := (· = Value.null)) (.pure rfl) fun payload hpayload => ?_
      refine Ensures.get.bind fun s hs => .pure ?_
      exact hs.2 ▸ hpayload ▸ Work.IsOrdered.receive url _ .null
    | json value =>
      refine Ensures.bind (q := (· = value)) (.pure rfl) fun payload hpayload => ?_
      refine Ensures.get.bind fun s hs => .pure ?_
      exact hs.2 ▸ hpayload ▸ Work.IsOrdered.receive url _ (clean_of_readBody hbody)
    | raw =>
      refine Ensures.get.bind fun s hs => ?_
      refine (Ensures.set (hstep (.receiveRaw url _) trivial s hs)).bind fun _ _ => ?_
      exact (Ensures.throw (q := fun _ => False) _).bind fun _ h => h.elim
  | getExecution id =>
    refine hshown (Ensures.tables.bind fun tables _ => ?_)
    split
    · exact (Ensures.ofExcept _).mono fun _ _ => trivial
    · exact .throw _
  | cancelExecution id =>
    refine hshown (Ensures.get.bind fun s hs => ?_)
    refine (Ensures.set (hstep (.cancel .main id) trivial s hs)).bind fun _ _ => ?_
    split
    · exact (Ensures.ofExcept _).mono fun _ _ => trivial
    · exact .throw _
  | createWorkflow =>
    refine hshown ((Ensures.ofExcept r.readBody).bind fun body hbody => ?_)
    refine (Ensures.ofExcept (body.form readNewWorkflow)).bind fun new hnew => ?_
    obtain ⟨fields, rfl, hread⟩ := Body.form_eq_ok hnew
    have hsound := sound_readNewWorkflow (clean_of_readBody hbody) hread
    exact (Ensures.store (t := fun now => Workflow.create now new.toDraft) fun s hs =>
      hstep (.createWorkflow new.toDraft) (submitted_toFields hsound) s hs).bind
        fun stored _ => .pure trivial
  | listWorkflows workspace => exact hshown (Ensures.tables.bind fun _ _ => .pure trivial)
  | getWorkflow id =>
    refine hshown (Ensures.tables.bind fun tables _ => ?_)
    split
    · exact .pure trivial
    · exact .throw _
  | updateWorkflow id =>
    refine hshown ((Ensures.ofExcept r.readBody).bind fun body hbody => ?_)
    refine (Ensures.ofExcept (body.form readWorkflowPatch)).bind fun patch hpatch => ?_
    obtain ⟨fields, rfl, hread⟩ := Body.form_eq_ok hpatch
    have hsound := sound_readWorkflowPatch (clean_of_readBody hbody) hread
    have hsubmitted : ∀ list, patch.steps.map (fun steps => steps.map (·.toFields)) = some list →
        ∀ step ∈ list, Submitted step := by
      intro list hlist
      obtain ⟨steps, hsteps, rfl⟩ := Option.map_eq_some_iff.mp hlist
      exact submitted_toFields (hsound steps hsteps)
    refine (Ensures.store (t := fun now => Workflow.update now id patch.toChanges _)
      fun s hs => hstep (.updateWorkflow id patch.toChanges _) hsubmitted s hs).bind
        fun stored _ => ?_
    split
    · exact .pure trivial
    · exact .throw _
  | deleteWorkflow id =>
    refine hshown ((Ensures.store (t := fun _ => Workflow.delete id) fun s hs =>
      hstep (.deleteWorkflow id) trivial s hs).bind fun found _ => ?_)
    split_ifs
    · exact .pure trivial
    · exact .throw _
  | execute workflow =>
    refine (Ensures.ofExcept r.readBody).bind fun body hbody => ?_
    refine (Ensures.ofExcept (body.form? readExecutionOrder)).bind fun order horder => ?_
    refine Ensures.get.bind fun s hs => .pure ?_
    exact hs.2 ▸ Work.IsOrdered.execute workflow _ (clean_order hbody horder)
  | listExecutions workflow =>
    refine hshown ((Ensures.ofExcept _).bind fun limit _ => ?_)
    exact Ensures.tables.bind fun _ _ => (Ensures.ofExcept _).mono fun _ _ => trivial

end Handle

/-- The settings of a service that is given none. -/
def unset : Settings := ((Settings.read fun _ => none).run []).1

/-- The request is led to the endpoint, and asks nothing about other origins. -/
structure Leads (settings : Settings) (r : Request) (endpoint : Endpoint) : Prop where
  question : (OriginPolicy.ofSettings settings).question? r = none
  route : route settings.apiRoot r.method (Text.decodeAddress r.path) = .found endpoint

theorem leads_of_decoded {settings : Settings} {r : Request} {endpoint : Endpoint}
    (hquestion : (OriginPolicy.ofSettings settings).question? r = none)
    (hpath : Text.decodeAddress r.path = r.path)
    (hroute : route settings.apiRoot r.method r.path = .found endpoint) :
    Leads settings r endpoint := ⟨hquestion, hpath.symm ▸ hroute⟩

/-! ## Histories -/

/-- Something that happens to a service. -/
inductive Happening
  | serve (r : Request)
  | launch (name : String) (r : Request)
  /-- One of the executions in the background goes on. -/
  | proceed (n : Nat)
  /-- The answers that are held back are released. -/
  | release
  | tick (now : Instant)
  /-- The database can be reached from now on, or no longer. -/
  | reach (isReachable : Bool)

namespace Service

variable {s : Service} {r : Request} {p : Server → Prop}

/-- What a service does when something happens to it. -/
def step (s : Service) : Happening → Service
  | .serve r => (s.serve r).2
  | .launch name r => s.launch name r
  | .proceed n => { s with server := s.server.proceed n }
  | .release => { s with server := s.server.release.2 }
  | .tick now => { s with server := { s.server with now } }
  | .reach isReachable => { s with isReachable }

/-- One thing after another happens to a service. -/
def play (s : Service) (history : List Happening) : Service := history.foldl step s

@[simp] theorem server_identify (s : Service) (r : Request) :
    (s.identify r).2.server = s.server := by
  unfold identify
  split
  · split_ifs
    · rfl
    · rfl
  · rfl

@[simp] theorem settings_identify (s : Service) (r : Request) :
    (s.identify r).2.settings = s.settings := by
  unfold identify
  split
  · split_ifs
    · rfl
    · rfl
  · rfl

/-- What can be done at once keeps up what the server keeps up. -/
theorem kept_begin (hk : Maintained p) (hs : p s.server) :
    p (s.begin r).2.server ∧ (s.begin r).2.server.rules = s.server.rules ∧
      ∀ work, (s.begin r).1 = .ok work → work.IsOrdered s.server.rules := by
  unfold begin
  split
  · rename_i endpoint _
    obtain ⟨⟨hp, hrules⟩, hordered⟩ := ensures_handle hk s.server.rules s.settings s.isReachable r
      endpoint s.server ⟨hs, rfl⟩
    exact ⟨hp, hrules, hordered⟩
  · exact ⟨hs, rfl, fun work hwork => Except.ok.inj hwork ▸ .reply _⟩
  · exact ⟨hs, rfl, fun work hwork => Except.ok.inj hwork ▸ .reply _⟩
  · exact ⟨hs, rfl, fun work hwork => Except.ok.inj hwork ▸ .reply _⟩

/-- An execution that is ordered is an operation and its moves, whether it runs to its end at
once. -/
theorem kept_run (hk : Maintained p) {server : Server} (hs : p server)
    {e : Activity (Except Fault Report)} (he : Work.IsOrdered server.rules (.execution e)) :
    p (server.run .main e).2 := by
  have hmoves (op : Operation) (hop : op.IsSubmitted) (k n : Nat) :
      p (server.play (op :: List.replicate k (.proceed n))) := by
    refine hk.play hs (List.forall_mem_cons.mpr ⟨hop, fun op hmem => ?_⟩)
    rw [List.eq_of_mem_replicate hmem]
    trivial
  cases he with
  | execute workflow triggeredBy hinput =>
    obtain ⟨k, hrun⟩ := server.run_execute "" .main workflow _ triggeredBy
    have hend := hmoves (.execute "" .main workflow _ triggeredBy) hinput k server.background.length
    rw [hrun] at hend
    exact hk.of_background hend
  | receive url signature hpayload =>
    obtain ⟨k, hrun⟩ := server.run_receive "" .main url _ signature
    have hend := hmoves (.receive "" .main url _ signature) hpayload k server.background.length
    rw [hrun] at hend
    exact hk.of_background hend

/-- Or goes on in the background. -/
theorem kept_launch (hk : Maintained p) {server : Server} (hs : p server) (name : String)
    {e : Activity (Except Fault Report)} (he : Work.IsOrdered server.rules (.execution e)) :
    p (server.launch name .main e) := by
  have hmoves (op : Operation) (hop : op.IsSubmitted) (moves : List Nat) (k n : Nat) :
      p (server.play (moves.map .proceed ++ op :: List.replicate k (.proceed n))) := by
    refine hk.play hs (List.forall_mem_append.mpr
      ⟨fun op hmem => ?_, List.forall_mem_cons.mpr ⟨hop, fun op hmem => ?_⟩⟩)
    · obtain ⟨m, _, rfl⟩ := List.mem_map.mp hmem
      trivial
    · rw [List.eq_of_mem_replicate hmem]
      trivial
  cases he with
  | execute workflow triggeredBy hinput =>
    obtain ⟨moves, n, k, hrun⟩ := server.launch_execute name .main workflow _ triggeredBy
    exact hrun ▸ hmoves (.execute name .main workflow _ triggeredBy) hinput moves k n
  | receive url signature hpayload =>
    obtain ⟨moves, n, k, hrun⟩ := server.launch_receive name .main url _ signature
    exact hrun ▸ hmoves (.receive name .main url _ signature) hpayload moves k n

theorem kept_serve (hk : Maintained p) (hs : p s.server) : p (s.serve r).2.server := by
  unfold serve
  split
  · exact hs
  · obtain ⟨hp, hrules, hordered⟩ := kept_begin (s := (s.identify r).2) (r := r) hk
      (server_identify s r ▸ hs)
    dsimp only
    split
    · rename_i hbegin
      rw [hbegin] at hp
      exact hp
    · rename_i hbegin
      rw [hbegin] at hp
      exact hp
    · rename_i hbegin
      rw [hbegin] at hp hrules hordered
      exact kept_run hk hp (hrules ▸ hordered _ rfl)

theorem kept_defer (hk : Maintained p) (hs : p s.server) (name : String) :
    p (s.launch name r).server := by
  unfold Service.launch
  split
  · exact hs
  · obtain ⟨hp, hrules, hordered⟩ := kept_begin (s := (s.identify r).2) (r := r) hk
      (server_identify s r ▸ hs)
    dsimp only
    split
    · rename_i hbegin
      rw [hbegin] at hp
      exact hp
    · rename_i hbegin
      rw [hbegin] at hp
      exact hp
    · rename_i hbegin
      rw [hbegin] at hp hrules hordered
      exact kept_launch hk hp name (hrules ▸ hordered _ rfl)

theorem kept_step (hk : Maintained p) (hs : p s.server) (happening : Happening) :
    p (s.step happening).server := by
  cases happening with
  | serve r => exact kept_serve hk hs
  | launch name r => exact kept_defer hk hs name
  | proceed n => exact hk.step s.server (.proceed n) trivial hs
  | release => exact hk.step s.server .release trivial hs
  | tick now => exact hk.step s.server (.tick now) trivial hs
  | reach isReachable => exact hs

/-- What operations with input from requests keep up holds of the server of a service at any
time. -/
theorem kept_play (hk : Maintained p) (hs : p s.server) (history : List Happening) :
    p (s.play history).server := by
  induction history generalizing s with
  | nil => exact hs
  | cons happening rest ih => exact ih (kept_step hk hs happening)

/-! ## Serving a request of an endpoint -/

theorem begin_of_leads {endpoint : Endpoint} (h : Leads s.settings r endpoint)
    {result : Except Trouble Work} {server : Server}
    (hh : (handle s.settings s.isReachable r endpoint).run s.server = (result, server)) :
    s.begin r = (result, { s with server }) := by
  simp only [begin, h.route, hh]

theorem identify_eq (s : Service) (r : Request) :
    ∃ n, (s.identify r).2 = { s with nextRequest := n } := by
  unfold identify
  split
  · split_ifs
    · exact ⟨_, rfl⟩
    · exact ⟨_, rfl⟩
  · exact ⟨_, rfl⟩

/-- The reply to a request whose execution is run, or that needs none. -/
def answer (server : Server) : Except Trouble Work → Except Trouble Reply × Server
  | .ok (.reply reply) => (.ok reply, server)
  | .error trouble => (.error trouble, server)
  | .ok (.execution e) => (reportReply (server.run .main e).1, (server.run .main e).2)

/-- The reply to a request of an endpoint is that of its handler, but for headers. -/
theorem serve_of_leads {endpoint : Endpoint} (h : Leads s.settings r endpoint)
    {result : Except Trouble Work} {server : Server}
    (hh : (handle s.settings s.isReachable r endpoint).run s.server = (result, server)) :
    ∃ id headers n, s.serve r = (((match (answer server result).1 with
        | .ok reply => reply
        | .error trouble => trouble.reply s.settings.isProduction id).withHeaders headers),
      { s with server := (answer server result).2, nextRequest := n }) := by
  obtain ⟨n, hn⟩ := s.identify_eq r
  have hquestion : s.policy.question? r = none := h.question
  have hbegin : (s.identify r).2.begin r = (result, { s with server, nextRequest := n }) := by
    rw [hn]
    exact begin_of_leads (s := { s with nextRequest := n }) h hh
  refine ⟨(s.identify r).1, ("x-request-id", (s.identify r).1) :: s.policy.replyHeaders r, n, ?_⟩
  unfold serve
  simp only [hquestion, hbegin]
  cases result with
  | error trouble => rfl
  | ok work => cases work <;> rfl

theorem serve_of_ok {endpoint : Endpoint} (h : Leads s.settings r endpoint) (reply : Reply)
    {server : Server} (hh : (handle s.settings s.isReachable r endpoint).run s.server =
      (.ok (.reply reply), server)) :
    (s.serve r).1.status = reply.status ∧ (s.serve r).1.content = reply.content ∧
      (s.serve r).2.server = server := by
  obtain ⟨_, _, _, hserve⟩ := serve_of_leads h hh
  rw [hserve]
  exact ⟨rfl, rfl, rfl⟩

/-! ## Settings -/

theorem settings_begin (s : Service) (r : Request) : (s.begin r).2.settings = s.settings := by
  unfold begin
  split <;> rfl

theorem settings_serve (s : Service) (r : Request) : (s.serve r).2.settings = s.settings := by
  unfold serve
  split
  · rfl
  · have hbegin := (settings_begin (s.identify r).2 r).trans (settings_identify s r)
    dsimp only
    split <;> rename_i heq <;> rw [heq] at hbegin <;> exact hbegin

theorem settings_launch (s : Service) (name : String) (r : Request) :
    (s.launch name r).settings = s.settings := by
  unfold Service.launch
  split
  · rfl
  · have hbegin := (settings_begin (s.identify r).2 r).trans (settings_identify s r)
    dsimp only
    split <;> rename_i heq <;> rw [heq] at hbegin <;> exact hbegin

theorem settings_play (s : Service) (history : List Happening) :
    (s.play history).settings = s.settings := by
  induction history generalizing s with
  | nil => rfl
  | cons happening rest ih =>
    refine (ih (s.step happening)).trans ?_
    cases happening with
    | serve r => exact s.settings_serve r
    | launch name r => exact s.settings_launch name r
    | _ => rfl

end Service

end Api

end Stepwise
