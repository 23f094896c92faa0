import Stepwise.Proofs.Server.Play

/-!
# What a server does is made of moves

A server lets an execution in the foreground run to its end, and one in the background as far as it
can. Both are rows of moves of that execution, and so is a round over all executions. So what holds
after all operations, in any order, holds of a server that works in its own order.
-/

namespace Stepwise.Server

open Store

variable {s : Server}

/-! ## Moves do not look at the other executions -/

theorem respond_background (s : Server) (others : List Background) (controller : Controller)
    (r : Execution.Request) :
    ({ s with background := others } : Server).respond controller r =
      ((s.respond controller r).1, { (s.respond controller r).2 with background := others }) := by
  cases r with
  | run id request => cases request <;> rfl
  | _ => rfl

theorem exchange_background (s : Server) (others : List Background) (controller : Controller)
    (pending : Option Pending) (r : Execution.Request) :
    exchange controller ({ s with background := others }, pending) r =
      ((exchange controller (s, pending) r).1,
        ({ (exchange controller (s, pending) r).2.1 with background := others },
          (exchange controller (s, pending) r).2.2)) := by
  by_cases hr : IsPrompt r
  · rw [exchange_of_prompt _ _ _ hr, exchange_of_prompt _ _ _ hr, respond_background]
  · obtain ⟨id, call, rfl⟩ := send_of_not_prompt hr
    cases pending <;> rfl

theorem move_background (s : Server) (others : List Background) (b : Background) :
    ({ s with background := others } : Server).move b =
      ((s.move b).1, { (s.move b).2 with background := others }) := by
  obtain ⟨name, controller, program, pending⟩ := b
  cases program with
  | done result => rfl
  | ask r next =>
    unfold move
    dsimp only
    rw [exchange_background]
    generalize exchange controller (s, pending) r = out
    obtain ⟨answer, s', pending'⟩ := out
    cases answer <;> rfl

theorem proceed_background {others : List Background} {n : Nat} {b : Background}
    (h : others[n]? = some b) (s : Server) :
    ({ s with background := others } : Server).proceed n =
      { (s.move b).2 with background := others.set n (s.move b).1 } := by
  rw [proceed_of_some h, move_background]

/-- Moves that begin with a given one. -/
theorem play_move {others : List Background} {n k : Nat} {b : Background} {out : Server}
    (h : others[n]? = some b)
    (hk : ({ (s.move b).2 with background := others.set n (s.move b).1 } : Server).play
      (List.replicate k (.proceed n)) = out) :
    ({ s with background := others } : Server).play (List.replicate (k + 1) (.proceed n)) =
      out := by
  rw [List.replicate_succ, play_cons]
  show (Server.proceed _ n).play _ = out
  rw [proceed_background h]
  exact hk

theorem getElem?_set_of_some {others : List Background} {n : Nat} {b : Background}
    (h : others[n]? = some b) (b' : Background) : (others.set n b')[n]? = some b' := by
  obtain ⟨hn, _⟩ := List.getElem?_eq_some_iff.mp h
  exact List.getElem?_set_self hn

theorem set_of_some {others : List Background} {n : Nat} {b : Background}
    (h : others[n]? = some b) : others.set n b = others := by
  obtain ⟨hn, rfl⟩ := List.getElem?_eq_some_iff.mp h
  exact List.set_getElem_self hn

/-- A call that is answered at once takes two moves. -/
theorem play_send {others : List Background} {n k : Nat} {name id : String}
    {controller : Controller} {call : Outbound.Call}
    {next : Outbound.Outcome → Execution.Activity (Except Fault Execution.Report)} {out : Server}
    (h : others[n]? = some ⟨name, controller, .ask (.run id (.send call)) next, none⟩)
    (hk : ({ (s.send call).2 with
      background := others.set n ⟨name, controller, next (s.send call).1.outcome, none⟩ } :
        Server).play (List.replicate k (.proceed n)) = out) :
    ({ s with background := others } : Server).play (List.replicate (k + 2) (.proceed n)) =
      out := by
  refine play_move h (play_move (getElem?_set_of_some h _) ?_)
  rw [List.set_set]
  exact hk

/-! ## Executions in the foreground -/

/-- An execution that runs to its end makes moves until it has ended. -/
theorem run_eq_play (controller : Controller) (name : String) (n : Nat)
    (e : Execution.Activity (Except Fault Execution.Report)) (s : Server)
    {others : List Background} (h : others[n]? = some ⟨name, controller, e, none⟩) :
    ∃ k, ({ s with background := others } : Server).play (List.replicate k (.proceed n)) =
      { (s.run controller e).2 with
        background := others.set n ⟨name, controller, .done (s.run controller e).1, none⟩ } := by
  induction e generalizing s others with
  | done result =>
    refine ⟨0, ?_⟩
    show { s with background := others } =
      { s with background := others.set n ⟨name, controller, .done result, none⟩ }
    rw [set_of_some h]
  | ask r next ih =>
    obtain ⟨k, hk⟩ := ih (s.respond controller r).1 (s.respond controller r).2
      (getElem?_set_of_some h _)
    rw [List.set_set] at hk
    by_cases hr : IsPrompt r
    · refine ⟨k + 1, play_move h ?_⟩
      rw [move_of_prompt s name controller hr]
      exact hk
    · obtain ⟨id, call, rfl⟩ := send_of_not_prompt hr
      exact ⟨k + 2, play_send h hk⟩

/-! ## Executions in the background -/

theorem advance_of_some {s s' : Server} {name : String} {controller : Controller}
    {r : Execution.Request} {next : r.Answer → Execution.Activity (Except Fault Execution.Report)}
    {pending pending' : Option Pending} {answer : r.Answer}
    (h : respondLater controller (s, pending) r = (some answer, (s', pending'))) :
    s.advance ⟨name, controller, .ask r next, pending⟩ =
      s'.advance ⟨name, controller, next answer, pending'⟩ := by
  simp only [advance, Program.advance, h]

theorem advance_of_none {s s' : Server} {name : String} {controller : Controller}
    {r : Execution.Request} {next : r.Answer → Execution.Activity (Except Fault Execution.Report)}
    {pending pending' : Option Pending}
    (h : respondLater controller (s, pending) r = (none, (s', pending'))) :
    s.advance ⟨name, controller, .ask r next, pending⟩ =
      (⟨name, controller, .ask r next, pending'⟩, s') := by
  simp only [advance, Program.advance, h]

/-- A request other than a call is answered as in the foreground, or not yet. -/
theorem respondLater_of_prompt (s : Server) (controller : Controller) {r : Execution.Request}
    (hr : IsPrompt r) (pending : Option Pending) :
    respondLater controller (s, pending) r = (none, (s, pending)) ∨
      respondLater controller (s, pending) r =
        (some (s.respond controller r).1, ((s.respond controller r).2, pending)) := by
  cases r with
  | run id request =>
    cases request with
    | send call => exact hr.elim
    | wait micros =>
      have hwait : respondLater controller (s, pending) (.run id (.wait micros)) =
          if isLong micros && !s.breaksOff id micros then (none, (s, pending))
          else (some (s.breaksOff id micros), (s, pending)) := by
        cases pending <;> rfl
      rw [hwait]
      split_ifs
      · exact .inl rfl
      · exact .inr rfl
    | _ => cases pending <;> exact .inr rfl
  | _ => cases pending <;> exact .inr rfl

/-- An execution that goes on as far as it can makes moves until it waits. -/
theorem advance_eq_play (controller : Controller) (name : String) (n : Nat)
    (e : Execution.Activity (Except Fault Execution.Report)) (s : Server)
    (pending : Option Pending) {others : List Background}
    (h : others[n]? = some ⟨name, controller, e, pending⟩) :
    ∃ k, ({ s with background := others } : Server).play (List.replicate k (.proceed n)) =
      { (s.advance ⟨name, controller, e, pending⟩).2 with
        background := others.set n (s.advance ⟨name, controller, e, pending⟩).1 } := by
  induction e generalizing s pending others with
  | done result =>
    refine ⟨0, ?_⟩
    show { s with background := others } =
      { s with background := others.set n ⟨name, controller, .done result, pending⟩ }
    rw [set_of_some h]
  | ask r next ih =>
    by_cases hr : IsPrompt r
    · obtain hlater | hlater := respondLater_of_prompt s controller hr pending
      · rw [advance_of_none hlater, set_of_some h]
        exact ⟨0, rfl⟩
      · obtain ⟨k, hk⟩ := ih (s.respond controller r).1 (s.respond controller r).2 pending
          (getElem?_set_of_some h _)
        rw [advance_of_some hlater]
        refine ⟨k + 1, play_move h ?_⟩
        rw [move_of_prompt s name controller hr]
        rw [List.set_set] at hk
        exact hk
    · obtain ⟨id, call, rfl⟩ := send_of_not_prompt hr
      cases pending with
      | some pending =>
        by_cases hreleased : pending.released = true
        · obtain ⟨k, hk⟩ := ih pending.outcome s none (getElem?_set_of_some h _)
          have hlater : respondLater controller (s, some pending) (.run id (.send call)) =
              (some pending.outcome, (s, none)) := if_pos hreleased
          rw [advance_of_some hlater]
          rw [List.set_set] at hk
          exact ⟨k + 1, play_move h hk⟩
        · have hlater : respondLater controller (s, some pending) (.run id (.send call)) =
              (none, (s, some pending)) := if_neg hreleased
          rw [advance_of_none hlater, set_of_some h]
          exact ⟨0, rfl⟩
      | none =>
        by_cases hheld : (s.send call).1.held = true
        · have hlater : respondLater controller (s, none) (.run id (.send call)) =
              (none, ((s.send call).2, some ⟨(s.send call).1.outcome, false⟩)) := if_pos hheld
          have hmove : s.move ⟨name, controller, .ask (.run id (.send call)) next, none⟩ =
              (⟨name, controller, .ask (.run id (.send call)) next,
                some ⟨(s.send call).1.outcome, !(s.send call).1.held⟩⟩, (s.send call).2) := rfl
          rw [hheld] at hmove
          rw [advance_of_none hlater]
          refine ⟨1, play_move h ?_⟩
          rw [hmove]
          rfl
        · obtain ⟨k, hk⟩ := ih (s.send call).1.outcome (s.send call).2 none
            (getElem?_set_of_some h _)
          have hlater : respondLater controller (s, none) (.run id (.send call)) =
              (some (s.send call).1.outcome, ((s.send call).2, none)) := if_neg hheld
          rw [advance_of_some hlater]
          rw [List.set_set] at hk
          exact ⟨k + 2, play_send h hk⟩

/-! ## Rounds -/

theorem advanceEach_eq_play (todo : List Background) (s : Server) (before : List Background) :
    ∃ moves : List Nat, ({ s with background := before ++ todo } : Server).play
        (moves.map .proceed) =
      { (s.advanceEach todo).2 with background := before ++ (s.advanceEach todo).1 } := by
  induction todo generalizing s before with
  | nil => exact ⟨[], rfl⟩
  | cons b rest ih =>
    have hb : (before ++ b :: rest)[before.length]? = some b := by simp
    obtain ⟨k, hk⟩ := advance_eq_play b.controller b.name before.length b.program s b.pending hb
    obtain ⟨moves, hmoves⟩ := ih (s.advance b).2 (before ++ [(s.advance b).1])
    refine ⟨List.replicate k before.length ++ moves, ?_⟩
    rw [List.map_append, List.map_replicate, play_append, hk]
    simpa [advanceEach] using hmoves

/-- A round over all executions is made of moves of each. -/
theorem settle_eq_play (s : Server) :
    ∃ moves : List Nat, s.play (moves.map .proceed) = s.settle :=
  advanceEach_eq_play s.background s []

theorem advanceEach_concat (s : Server) (todo : List Background) (b : Background) :
    s.advanceEach (todo ++ [b]) =
      ((s.advanceEach todo).1 ++ [((s.advanceEach todo).2.advance b).1],
        ((s.advanceEach todo).2.advance b).2) := by
  induction todo generalizing s with
  | nil => rfl
  | cons a rest ih =>
    show ((s.advance a).1 :: ((s.advance a).2.advanceEach (rest ++ [b])).1,
      ((s.advance a).2.advanceEach (rest ++ [b])).2) = _
    rw [ih]
    rfl

/-- An execution that is launched goes on after a round over those before it. -/
theorem launch_eq (s : Server) (name : String) (controller : Controller)
    (e : Execution.Activity (Except Fault Execution.Report)) :
    ∃ (moves : List Nat) (t : Server) (others : List Background),
      s.play (moves.map .proceed) = { t with background := others } ∧
        s.launch name controller e = { (t.advance ⟨name, controller, e, none⟩).2 with
          background := others ++ [(t.advance ⟨name, controller, e, none⟩).1] } := by
  let entered := s.enter name controller e
  obtain ⟨moves, hmoves⟩ := advanceEach_eq_play s.background entered []
  refine ⟨moves, (entered.advanceEach s.background).2, (entered.advanceEach s.background).1,
    hmoves, ?_⟩
  have hlaunch : s.launch name controller e =
      { (entered.advanceEach (s.background ++ [⟨name, controller, e, none⟩])).2 with
        background := (entered.advanceEach (s.background ++ [⟨name, controller, e, none⟩])).1 } :=
    rfl
  rw [hlaunch, advanceEach_concat]

/-! ## The operations behind -/

theorem getElem?_concat (others : List Background) (b : Background) :
    (others ++ [b])[others.length]? = some b := by simp

/-- An execution in the foreground is an execution that begins, and its moves. -/
theorem run_execute (s : Server) (name : String) (controller : Controller) (workflow : String)
    (input : Value) (triggeredBy : Option String) : ∃ k,
    let e := Execution.execute s.rules workflow input triggeredBy
    s.play (.execute name controller workflow input triggeredBy ::
        List.replicate k (.proceed s.background.length)) =
      { (s.run controller e).2 with
        background :=
          s.background ++ [⟨name, controller, .done (s.run controller e).1, none⟩] } := by
  obtain ⟨k, hk⟩ := run_eq_play controller name s.background.length
    (Execution.execute s.rules workflow input triggeredBy) s (getElem?_concat s.background _)
  rw [List.set_append_right _ _ (Nat.le_refl _), Nat.sub_self] at hk
  exact ⟨k, hk⟩

/-- A call in the foreground is a call that comes in, and the moves of its execution. -/
theorem run_receive (s : Server) (name : String) (controller : Controller) (url : String)
    (payload : Value) (signature : Option String) : ∃ k,
    let e := Execution.executeInbound s.rules Trigger.sourceTag url payload signature
    s.play (.receive name controller url payload signature ::
        List.replicate k (.proceed s.background.length)) =
      { (s.run controller e).2 with
        background :=
          s.background ++ [⟨name, controller, .done (s.run controller e).1, none⟩] } := by
  rw [Execution.executeInbound_eq]
  obtain ⟨k, hk⟩ := run_eq_play controller name s.background.length _
    (s.transact (Trigger.accept s.now url payload signature)).2
    (getElem?_concat s.background ⟨name, controller, Execution.afterAccept s.rules
      Trigger.sourceTag payload (s.transact (Trigger.accept s.now url payload signature)).1, none⟩)
  rw [List.set_append_right _ _ (Nat.le_refl _), Nat.sub_self] at hk
  refine ⟨k, ?_⟩
  rw [play_cons, step_receive]
  exact hk

/-- What is launched in the background goes on after a round over the executions before it. -/
theorem launch_execute (s : Server) (name : String) (controller : Controller) (workflow : String)
    (input : Value) (triggeredBy : Option String) : ∃ (moves : List Nat) (n k : Nat),
    s.play (moves.map .proceed ++ .execute name controller workflow input triggeredBy ::
        List.replicate k (.proceed n)) =
      s.launch name controller (Execution.execute s.rules workflow input triggeredBy) := by
  obtain ⟨moves, t, others, hmoves, hlaunch⟩ := s.launch_eq name controller
    (Execution.execute s.rules workflow input triggeredBy)
  obtain ⟨k, hk⟩ := advance_eq_play controller name others.length
    (Execution.execute s.rules workflow input triggeredBy) t none (getElem?_concat others _)
  rw [List.set_append_right _ _ (Nat.le_refl _), Nat.sub_self] at hk
  have hrules : t.rules = s.rules := (congrArg rules hmoves).symm.trans (rules_play s _)
  rw [← hrules] at hk hlaunch ⊢
  refine ⟨moves, others.length, k, ?_⟩
  rw [play_append, hmoves, hlaunch]
  exact hk

theorem launch_receive (s : Server) (name : String) (controller : Controller) (url : String)
    (payload : Value) (signature : Option String) : ∃ (moves : List Nat) (n k : Nat),
    s.play (moves.map .proceed ++ .receive name controller url payload signature ::
        List.replicate k (.proceed n)) =
      s.launch name controller (Execution.executeInbound s.rules Trigger.sourceTag url payload
        signature) := by
  obtain ⟨moves, t, others, hmoves, hlaunch⟩ := s.launch_eq name controller
    (Execution.executeInbound s.rules Trigger.sourceTag url payload signature)
  have hrules : t.rules = s.rules := (congrArg rules hmoves).symm.trans (rules_play s _)
  have haccepted : respondLater controller (t, none) (.accept url payload signature) =
      (some (t.transact (Trigger.accept t.now url payload signature)).1,
        ((t.transact (Trigger.accept t.now url payload signature)).2, none)) := rfl
  obtain ⟨k, hk⟩ := advance_eq_play controller name others.length _
    (t.transact (Trigger.accept t.now url payload signature)).2 none
    (getElem?_concat others ⟨name, controller, Execution.afterAccept t.rules
      Trigger.sourceTag payload (t.transact (Trigger.accept t.now url payload signature)).1, none⟩)
  rw [List.set_append_right _ _ (Nat.le_refl _), Nat.sub_self] at hk
  rw [← hrules] at hlaunch ⊢
  rw [Execution.executeInbound_eq, advance_of_some haccepted] at hlaunch
  refine ⟨moves, others.length, k, ?_⟩
  rw [play_append, hmoves, Execution.executeInbound_eq, hlaunch, play_cons, step_receive]
  exact hk

end Stepwise.Server
