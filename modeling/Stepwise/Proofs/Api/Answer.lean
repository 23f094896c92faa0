import Stepwise.Proofs.Api.History
import Stepwise.Proofs.Json.Strings
import Stepwise.Proofs.Server.Foreground
import Stepwise.Proofs.Value.Equality

/-!
# What is answered to an execution

A client that has a workflow executed is told of success if and only if the execution is recorded as
completed, all of its variables are named by texts and none is nested too deeply. It is told the
variables as they are shown afterwards, too, unless the input is nested too deeply to be shown. An
execution that names a variable otherwise is refused, although its record is completed.

Half of a surrogate pair that stands alone could not be encoded in an answer either. Reading
replaces it, so what is said here is said of texts that spell halves only in pairs.
-/

namespace Stepwise

open Store

namespace Server

/-- The ids of all records stay drawn ones. -/
theorem kept_numbered : Maintained Numbered where
  step _ op _ h := h.step op
  background _ _ h := h

end Server

namespace Api

open Execution Json Server

/-- The field of a name in a reply. -/
def Reply.field? (reply : Reply) (name : String) : Option Value :=
  match reply.content with
  | .json (.object fields) => Fields.get? fields (.text name)
  | _ => none

theorem status_faultReply_ne (isProduction : Bool) (id : String) (fault : Fault) :
    (faultReply isProduction id fault).status ≠ 200 := by
  have hrejection (rejection : Rejection) : rejection.status ≠ 200 := by
    cases rejection <;> decide
  unfold faultReply
  split
  · exact hrejection _
  · split_ifs
    · exact (by decide : 400 ≠ 200)
    · exact (by decide : 500 ≠ 200)

/-- What is not carried out is not answered as a success. -/
theorem Trouble.status_reply_ne (isProduction : Bool) (id : String) (trouble : Trouble) :
    (trouble.reply isProduction id).status ≠ 200 := by
  cases trouble with
  | issues list => exact (by decide : 422 ≠ 200)
  | unreadableBody => exact (by decide : 400 ≠ 200)
  | missing thing => exact (by decide : 404 ≠ 200)
  | fault f => exact status_faultReply_ne isProduction id f
  | unshown obstacle => exact (by decide : 400 ≠ 200)

/-- All variables are named by texts. -/
def HasTextNames (report : Report) : Prop := ∀ field ∈ report.output, isNamed field.1 = true

/-- No variable is nested more deeply than is shown. -/
def HasShownDepth (report : Report) : Prop := depthOfFields report.output ≤ depthLimit

theorem reportView_of_shown {report : Report} (hnames : HasTextNames report)
    (hdepth : HasShownDepth report) :
    reportView report = .ok (record [("success", .bool true), ("execution_id", .text report.id),
      ("output", shown (.object report.output))]) := by
  have hkeys : (report.output.map Prod.fst).filter (!isNamed ·) = [] := by
    rw [List.filter_eq_nil_iff]
    rintro key hkey
    obtain ⟨field, hfield, rfl⟩ := List.mem_map.mp hkey
    simp [hnames field hfield]
  unfold reportView
  rw [hkeys]
  exact if_pos hdepth

/-- Only a report with variables named by texts and of a depth that is shown is shown. -/
theorem shown_of_reportView {report : Report} {view : Value} (h : reportView report = .ok view) :
    HasTextNames report ∧ HasShownDepth report := by
  unfold reportView at h
  split at h
  next hkeys =>
    refine ⟨fun field hfield => ?_, ?_⟩
    · have hkey := List.filter_eq_nil_iff.mp hkeys _ (List.mem_map_of_mem hfield)
      simpa using hkey
    · by_contra hdepth
      cases (if_neg hdepth).symm.trans h
  next => cases h

/-- The report of an execution is answered if it can be shown, and nothing else is answered as
one. -/
theorem reportReply_cases (result : Except Fault Report) :
    (∃ report view, result = .ok report ∧ reportView report = .ok view ∧
      reportReply result = .ok (.json 200 view)) ∨
    (∃ trouble, reportReply result = .error trouble) ∧
      ∀ report, result = .ok report → ¬ (HasTextNames report ∧ HasShownDepth report) := by
  cases result with
  | error fault => exact .inr ⟨⟨.fault fault, rfl⟩, nofun⟩
  | ok report =>
    cases hview : reportView report with
    | ok view => exact .inl ⟨report, view, rfl, hview, by simp only [reportReply, hview]; rfl⟩
    | error obstacle =>
      refine .inr ⟨⟨.unshown obstacle, by simp only [reportReply, hview]; rfl⟩, ?_⟩
      rintro _ heq ⟨hnames, hdepth⟩
      cases heq
      cases (reportView_of_shown hnames hdepth).symm.trans hview

/-- Variables that hold what JSON can hold and are named by texts are stored as they are. -/
theorem settle_output {report : Report} (hs : report.Sound) (h : HasTextNames report) :
    settle (.object report.output) = .object report.output := by
  have htexts : ∀ field ∈ report.output, ∃ s, field.1 = .text s := by
    intro field hfield
    have hnamed := h field hfield
    cases hkey : field.1 with
    | text s => exact ⟨s, rfl⟩
    | _ =>
      rw [hkey] at hnamed
      cases hnamed
  exact settle_of_proper (.object (hs.2.named htexts) hs.1)

/-- The text that comes with what happens, if one does. -/
def Happening.text? : Happening → Option String
  | .serve r | .launch _ r => some r.body
  | _ => none

/-- The texts that a service reads: those of the answers from outside and those of requests, the
last one included. -/
def receivedTexts (script : List Outbound.Scripted) (history : List Happening) (r : Request) :
    List String :=
  script.filterMap (·.outcome.toOption.map (·.body)) ++ history.filterMap (·.text?) ++ [r.body]

namespace Service

variable {s : Service} {r look : Request} {workflow id : String}

/-- How the execution ends that a request orders. -/
def report? (s : Service) (r : Request) : Option (Except Fault Report) :=
  match s.begin r with
  | (.ok (.execution e), s) => some (s.server.run .main e).1
  | _ => none

/-- A request for an execution is refused without an effect, or orders one with an input that was
received. -/
theorem handle_execute (s : Service) (r : Request) (workflow : String) :
    let out := (handle s.settings s.isReachable r (.execute workflow)).run s.server
    (∃ trouble, out = (.error trouble, s.server)) ∨ ∃ input triggeredBy, Clean input ∧
      out = (.ok (.execution (execute s.server.rules workflow input triggeredBy)), s.server) := by
  cases hbody : r.readBody with
  | error trouble =>
    refine .inl ⟨trouble, run_bind_of_error ?_⟩
    rw [hbody]
    rfl
  | ok body =>
    have hread : (liftM r.readBody : Handler Body).run s.server = (.ok body, s.server) := by
      rw [hbody]
      rfl
    cases horder : body.form? readExecutionOrder with
    | error trouble =>
      refine .inl ⟨trouble, (run_bind_of_ok hread).trans (run_bind_of_error ?_)⟩
      rw [horder]
      rfl
    | ok order =>
      refine .inr ⟨_, some (order.getD default).starter, clean_order hbody horder, ?_⟩
      refine (run_bind_of_ok hread).trans ((run_bind_of_ok (a := order) ?_).trans rfl)
      rw [horder]
      rfl

/-- A request for an execution is answered by its report, if it has one that can be shown, and by a
refusal otherwise. -/
theorem serve_execute (h : Leads s.settings r (.execute workflow)) :
    (s.report? r = none ∧ (s.serve r).1.status ≠ 200 ∧ (s.serve r).2.server = s.server) ∨
    ∃ input triggeredBy, Clean input ∧
      let out := s.server.run .main (execute s.server.rules workflow input triggeredBy)
      s.report? r = some out.1 ∧ (s.serve r).2.server = out.2 ∧
        ((∃ report view, out.1 = .ok report ∧ reportView report = .ok view ∧
            (s.serve r).1.status = 200 ∧ (s.serve r).1.content = .json view) ∨
          (s.serve r).1.status ≠ 200 ∧
            ∀ report, out.1 = .ok report → ¬ (HasTextNames report ∧ HasShownDepth report)) := by
  obtain ⟨trouble, hh⟩ | ⟨input, triggeredBy, hinput, hh⟩ := s.handle_execute r workflow
  · obtain ⟨id, headers, n, hserve⟩ := serve_of_leads h hh
    have hreport : s.report? r = none := by
      unfold report?
      rw [begin_of_leads h hh]
    rw [hserve]
    exact .inl ⟨hreport, trouble.status_reply_ne _ id, rfl⟩
  · obtain ⟨id, headers, n, hserve⟩ := serve_of_leads h hh
    refine .inr ⟨input, triggeredBy, hinput, ?_⟩
    intro out
    have hreport : s.report? r = some out.1 := by
      unfold report?
      rw [begin_of_leads h hh]
    refine ⟨hreport, by rw [hserve]; rfl, ?_⟩
    obtain ⟨report, view, hok, hview, hreply⟩ | ⟨⟨trouble, hreply⟩, hnone⟩ :=
      reportReply_cases out.1
    · refine .inl ⟨report, view, hok, hview, ?_⟩
      rw [hserve]
      simp only [answer, out, hreply]
      exact ⟨rfl, rfl⟩
    · refine .inr ⟨?_, hnone⟩
      rw [hserve]
      simp only [answer, out, hreply]
      exact trouble.status_reply_ne _ id

/-- An execution that is there is shown, unless its input is nested too deeply. -/
theorem serve_getExecution (h : Leads s.settings look (.getExecution id)) {row : ExecutionRow}
    (hrow : Execution.find? s.server.db.tables id = some row)
    (hdepth : depth row.output ≤ 1 + depthLimit) :
    ((s.serve look).1.status = 200 ↔ depth row.input ≤ depthLimit) ∧
      ((s.serve look).1.status = 200 →
        (s.serve look).1.field? "output" = some (shown row.output)) := by
  let owner := Workflow.find? s.server.db.tables row.workflow
  have hget : (getExecution id).run s.server =
      (shownReply (storedView row owner), s.server) := by
    refine (run_bind_of_ok (a := s.server.db.tables) rfl).trans ?_
    rw [hrow]
    rfl
  by_cases hinput : depth row.input ≤ depthLimit
  · simp only [storedView, executionView, if_pos (And.intro hinput hdepth)] at hget
    obtain ⟨hstatus, hcontent, _⟩ := serve_of_ok h _ (run_map_of_ok hget)
    refine ⟨iff_of_true hstatus hinput, fun _ => ?_⟩
    unfold Reply.field?
    rw [hcontent]
    rfl
  · simp only [storedView, executionView, if_neg (fun h => hinput (And.left h))] at hget
    have hstatus : (s.serve look).1.status ≠ 200 := by
      obtain ⟨id, headers, n, hserve⟩ := serve_of_leads h (run_bind_of_error hget)
      rw [hserve]
      exact Trouble.status_reply_ne _ id _
    exact ⟨iff_of_false hstatus hinput, fun h => absurd h hstatus⟩

/-- The answer to a request for an execution is a success if and only if the one record that was
made is completed, all variables are named by texts and none is nested too deeply; and what it tells
of the variables is what is shown of the record afterwards, if its input is not nested too deeply to
be shown. Texts that spell half of a surrogate pair alone are left aside, since reading replaces the
half instead of keeping what cannot be encoded. -/
theorem answer_tells_of_run (settings : Settings) (script : List Outbound.Scripted)
    (history : List Happening) (hr : Leads settings r (.execute workflow))
    (_hpaired : ∀ text ∈ receivedTexts script history r, isPaired text) :
    let s := (start settings script).play history
    let after := (s.serve r).2
    ((∃ row, s.server.newRecords after.server = [row] ∧ row.status = Status.completed.name) ↔
      ∃ report, s.report? r = some (.ok report)) ∧
    ((s.serve r).1.status = 200 ↔
      (∃ row, s.server.newRecords after.server = [row] ∧ row.status = Status.completed.name) ∧
        ∀ report, s.report? r = some (.ok report) → HasTextNames report ∧ HasShownDepth report) ∧
    ((s.serve r).1.status = 200 → ∃ row output, s.server.newRecords after.server = [row] ∧
      (s.serve r).1.field? "execution_id" = some (.text row.id) ∧
      (s.serve r).1.field? "output" = some output ∧
      ∀ look, Leads settings look (.getExecution row.id) →
        ((after.serve look).1.status = 200 ↔ depth row.input ≤ depthLimit) ∧
          ((after.serve look).1.status = 200 →
            (after.serve look).1.field? "output" = some output)) := by
  intro s after
  have hstocked : Stocked s.server.db := kept_play kept_stocked (stocked_fresh _ _) history
  have hnumbered : s.server.Numbered := kept_play kept_numbered (numbered_fresh _ _) history
  have hsettings : s.settings = settings := settings_play _ history
  obtain ⟨hreport, hstatus, hserver⟩ | ⟨input, triggeredBy, hinput, hreport, hserver, hanswer⟩ :=
    serve_execute (s := s) (hsettings.symm ▸ hr)
  · have hnone : s.server.newRecords after.server = [] :=
      newRecords_of_ids (congrArg recordIds hserver)
    rw [hnone, hreport]
    simp [hstatus]
  · have hcompleted : (∃ row, s.server.newRecords after.server = [row] ∧
        row.status = Status.completed.name) ↔ ∃ report, s.report? r = some (.ok report) := by
      have hrun :=
        completed_iff_reported hnumbered s.server.rules workflow input triggeredBy
      rw [← hserver] at hrun
      simpa only [hreport, Option.some.injEq] using hrun
    refine ⟨hcompleted, ?_⟩
    obtain ⟨report, view, hok, hview, hstatus, hcontent⟩ | ⟨hstatus, hnone⟩ := hanswer
    · have hok' : s.report? r = some (.ok report) := hreport.trans (congrArg some hok)
      obtain ⟨row, hrecords, hnew, hid, _, houtput⟩ := record_of_reported hnumbered hok
      rw [← hserver] at hrecords
      obtain ⟨hnames, hdepth⟩ := shown_of_reportView hview
      cases (reportView_of_shown hnames hdepth).symm.trans hview
      refine ⟨iff_of_true hstatus ⟨hcompleted.mpr ⟨report, hok'⟩, fun other hother => ?_⟩,
        fun _ => ⟨row, shown (.object report.output), newRecords_of_append hrecords hnew, ?_, ?_,
          ?_⟩⟩
      · cases hok'.symm.trans hother
        exact ⟨hnames, hdepth⟩
      · unfold Reply.field?
        rw [hcontent, hid]
        rfl
      · unfold Reply.field?
        rw [hcontent]
        rfl
      · intro look hlook
        rw [settle_output (sound_run hstocked .main _ _ hinput _ hok) hnames] at houtput
        have hshallow : depth row.output ≤ 1 + depthLimit := by
          rw [houtput]
          exact Nat.add_le_add_left hdepth 1
        have hshown := serve_getExecution (s := after)
          (((settings_serve s r).trans hsettings).symm ▸ hlook) (find?_of_append hrecords hnew)
          hshallow
        rwa [houtput] at hshown
    · refine ⟨iff_of_false hstatus fun ⟨hrecord, hshown⟩ => ?_, fun h => absurd h hstatus⟩
      obtain ⟨report, hok⟩ := hcompleted.mp hrecord
      exact hnone report (Option.some.inj (hreport.symm.trans hok)) (hshown report hok)

/-- A workflow whose one step sets a variable of a name. -/
def setting (name : String) : Request :=
  ⟨"POST", "/api/v1/workflows/", [], [],
    "\x7b\"workspace_id\":\"w\",\"name\":\"n\",\"steps\":[\x7b\"name\":\"s\",\"type\":\"action\","
      ++ "\"config\":\x7b\"actionType\":\"set_variable\",\"name\":" ++ name
      ++ ",\"value\":1\x7d\x7d]\x7d"⟩

/-- The workflow is to be executed. -/
def executing : Request := ⟨"POST", "/api/v1/workflows/u-1/execute", [], [], ""⟩

/-- Its execution is looked at. -/
def looking : Request := ⟨"GET", "/api/v1/workflows/executions/r-1", [], [], ""⟩

/-- The service after the creation of a workflow. -/
def prepared (name : String) : Service := (start unset []).play [.serve (setting name)]

theorem leads_executing : Leads unset executing (.execute "u-1") :=
  leads_of_decoded rfl (by decide +kernel) rfl

theorem leads_looking : Leads unset looking (.getExecution "r-1") :=
  leads_of_decoded rfl (by decide +kernel) rfl

theorem paired_executing :
    ∀ text ∈ receivedTexts [] [.serve (setting "\"x\"")] executing, isPaired text := by
  decide +kernel

/-- A variable that is named by a text: its execution is answered with it, and shown with it. -/
theorem named_run_answered : Leads unset executing (.execute "u-1") ∧
    let s := prepared "\"x\""
    (s.serve executing).1.field? "output" = some (.object [(.text "x", .int 1)]) ∧
      ((s.serve executing).2.serve looking).1.status = 200 ∧
      ((s.serve executing).2.serve looking).1.field? "output" =
        some (.object [(.text "x", .int 1)]) := by
  refine ⟨leads_executing, ?_⟩
  intro s
  have hstatus : (s.serve executing).1.status = 200 := by decide +kernel
  have houtput : (s.serve executing).1.field? "output" = some (.object [(.text "x", .int 1)]) := by
    decide +kernel
  have hfirst : (s.serve executing).1.field? "execution_id" = some (.text "r-1") := by
    decide +kernel
  obtain ⟨_, _, hanswer⟩ :=
    answer_tells_of_run unset [] [.serve (setting "\"x\"")] leads_executing paired_executing
  obtain ⟨row, output, _, hid, hout, hshown⟩ := hanswer hstatus
  have hrow : row.id = "r-1" := Value.text.inj (Option.some.inj (hid.symm.trans hfirst))
  cases hout.symm.trans houtput
  obtain ⟨_, hafterwards⟩ := hshown looking (hrow.symm ▸ leads_looking)
  have hlook : ((s.serve executing).2.serve looking).1.status = 200 := by decide +kernel
  exact ⟨houtput, hlook, hafterwards hlook⟩

/-- A variable that is named by a number: its execution is refused, but the record is completed. -/
theorem completed_run_refused : ((prepared "5").serve executing).1.status = 400 ∧
    ((prepared "5").server.newRecords ((prepared "5").serve executing).2.server).map (·.status) =
      [Status.completed.name] := by
  decide +kernel

end Service

end Api

end Stepwise
