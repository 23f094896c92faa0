import Mathlib.Tactic.Common
import Stepwise.Execution.Record
import Stepwise.Task.Store
import Stepwise.Trigger.Inbound
import Stepwise.Workflow.Edit

/-!
# Transactions that spare a part of the tables

Most transactions change one or two tables and leave the others as they are. Whether they succeed or
fail, the ids that they draw are not drawn again. Both are said of a transaction at once, for any
part of the tables, and pass through sequencing; unlike for transactions that leave a part aside,
nothing is said of their faults.
-/

namespace Stepwise.Store

/-- No id of the supply was given back. -/
structure Supply.Before (supply supply' : Supply) : Prop where
  row : supply.row ≤ supply'.row
  fresh : supply.fresh ≤ supply'.fresh

namespace Supply.Before

theorem refl (supply : Supply) : supply.Before supply := ⟨Nat.le_refl _, Nat.le_refl _⟩

theorem trans {a b c : Supply} (hab : a.Before b) (hbc : b.Before c) : a.Before c :=
  ⟨Nat.le_trans hab.row hbc.row, Nat.le_trans hab.fresh hbc.fresh⟩

end Supply.Before

namespace Transaction

variable {α β γ : Type} {view : Tables → γ}

/-- The transaction gives back no id to the supply, and if it succeeds, the part of the tables is as
before. -/
def Spares (view : Tables → γ) (t : Transaction α) : Prop :=
  ∀ tables supply, supply.Before (t tables supply).2 ∧
    ∀ a tables', (t tables supply).1 = .ok (a, tables') → view tables' = view tables

theorem spares_result (a : α) : Spares view (result a) := by
  intro tables supply
  refine ⟨.refl _, fun b tables' h => ?_⟩
  cases h
  rfl

theorem spares_pure (a : α) : Spares view (pure a : Transaction α) := spares_result a

theorem spares_fail (fault : Fault) : Spares view (fail fault : Transaction α) :=
  fun _ _ => ⟨.refl _, fun _ _ h => nomatch h⟩

theorem spares_ofExcept (r : Except Fault α) : Spares view (ofExcept r) := by
  cases r with
  | ok a => exact spares_result a
  | error fault => exact spares_fail fault

theorem spares_tables : Spares view tables := by
  intro tables supply
  refine ⟨.refl _, fun b tables' h => ?_⟩
  cases h
  rfl

theorem spares_modify {f : Tables → Tables} (hf : ∀ tables, view (f tables) = view tables) :
    Spares view (modify f) := by
  intro tables supply
  refine ⟨.refl _, fun b tables' h => ?_⟩
  cases h
  exact hf tables

theorem spares_drawRowId : Spares view drawRowId := by
  intro tables supply
  refine ⟨⟨Nat.le_succ _, Nat.le_refl _⟩, fun b tables' h => ?_⟩
  cases h
  rfl

theorem Spares.bind {t : Transaction α} {next : α → Transaction β} (ht : Spares view t)
    (hn : ∀ a, Spares view (next a)) : Spares view (t >>= next) := by
  intro tables supply
  obtain ⟨hbefore, hview⟩ := ht tables supply
  show supply.Before (t.andThen next tables supply).2 ∧
    ∀ b tables', (t.andThen next tables supply).1 = .ok (b, tables') → _
  unfold Transaction.andThen
  cases hr : t tables supply with
  | mk r supply' =>
    rw [hr] at hbefore hview
    cases r with
    | error fault => exact ⟨hbefore, fun _ _ h => nomatch h⟩
    | ok out =>
      obtain ⟨a, tables'⟩ := out
      obtain ⟨hbefore', hview'⟩ := hn a tables' supply'
      refine ⟨hbefore.trans hbefore', fun b tables'' h => ?_⟩
      rw [hview' b tables'' h]
      exact hview a tables' rfl

theorem Spares.mapM {f : α → Transaction β} (hf : ∀ a, Spares view (f a)) (items : List α) :
    Spares view (items.mapM f) := by
  have hloop (items : List α) (before : List β) :
      Spares view (List.mapM.loop f items before) := by
    induction items generalizing before with
    | nil => exact spares_result _
    | cons a rest ih => exact (hf a).bind fun b => ih (b :: before)
  exact hloop items []

end Transaction

open Transaction

/-- What a transaction spares is the same after it, whether it succeeds or fails. -/
theorem Database.transact_spares {α γ : Type} {view : Tables → γ} {t : Transaction α}
    (ht : Spares view t) (db : Database) :
    db.supply.Before (db.transact t).2.supply ∧
      view (db.transact t).2.tables = view db.tables := by
  obtain ⟨hbefore, hview⟩ := ht db.tables db.supply
  unfold Database.transact
  cases hr : t db.tables db.supply with
  | mk r supply =>
    rw [hr] at hbefore hview
    cases r with
    | error fault => exact ⟨hbefore, rfl⟩
    | ok out => exact ⟨hbefore, hview out.1 out.2 rfl⟩

/-! ## Operations of tables -/

namespace Table

variable {γ ρ : Type} {view : Tables → γ} {t : Table ρ}

theorem spares_fillingOf (now : Instant) (data : Fields) (c : Column ρ) :
    Spares view (fillingOf now data c) := by
  unfold fillingOf
  dsimp only
  split
  · exact spares_pure _
  · split
    · exact spares_pure _
    · exact spares_pure _
    · exact spares_drawRowId.bind fun _ => spares_pure _
    · exact spares_pure _

theorem spares_insert (hset : ∀ rows tables, view (t.setRows rows tables) = view tables)
    (now : Instant) (data : Fields) : Spares view (t.insert now data) := by
  unfold insert
  split
  · exact spares_fail _
  · refine (Spares.mapM (fun c => spares_fillingOf now data c) _).bind fun fillings => ?_
    refine (spares_ofExcept _).bind fun cells => spares_tables.bind fun tables => ?_
    split
    · exact spares_fail _
    · exact (spares_modify fun tables => hset _ tables).bind fun _ => spares_pure _

theorem spares_rewrite (hset : ∀ rows tables, view (t.setRows rows tables) = view tables)
    (now : Instant) (id : String) (values : List (Column ρ × Value)) :
    Spares view (t.rewrite now id values) := by
  refine (spares_ofExcept _).bind fun cells => spares_tables.bind fun tables => ?_
  split
  · exact spares_pure _
  · dsimp only
    split
    · exact spares_fail _
    · exact (spares_modify fun tables => hset _ tables).bind fun _ => spares_pure _

theorem spares_update (hset : ∀ rows tables, view (t.setRows rows tables) = view tables)
    (now : Instant) (id : String) (data : Fields) : Spares view (t.update now id data) := by
  refine spares_tables.bind fun tables => ?_
  split
  · exact spares_pure _
  · dsimp only
    split_ifs
    · exact spares_pure _
    · exact spares_rewrite hset now id _

theorem spares_delete (hset : ∀ rows tables, view (t.setRows rows tables) = view tables)
    (id : String) : Spares view (t.delete id) := by
  unfold delete
  refine spares_tables.bind fun tables => ?_
  split_ifs
  · exact spares_pure _
  · exact (spares_modify fun tables => hset _ tables).bind fun _ => spares_pure _

end Table

/-- The tables but for those that the steps of a run change. -/
def Tables.besidesTasks (tables : Tables) : Tables :=
  { tables with tasks := [], notifications := [] }

/-- The tables but for those of workflows and their steps. -/
def Tables.besidesWorkflows (tables : Tables) : Tables :=
  { tables with workflows := [], steps := [] }

/-- The tables but for those that the deletion of a workflow takes rows from. -/
def Tables.besidesHistory (tables : Tables) : Tables :=
  { tables with workflows := [], steps := [], executions := [] }

/-- The tables but for that of executions. -/
def Tables.besidesExecutions (tables : Tables) : Tables :=
  { tables with executions := [] }

/-- The tables but for that of triggers. -/
def Tables.besidesTriggers (tables : Tables) : Tables :=
  { tables with triggers := [] }

theorem spares_changeTrigger (now : Instant) (id : String) (data : Fields) :
    Spares Tables.besidesTriggers (triggerTable.update now id data) :=
  Table.spares_update (fun _ _ => rfl) now id data

theorem spares_deleteTrigger (id : String) :
    Spares Tables.besidesTriggers (triggerTable.delete id) :=
  Table.spares_delete (fun _ _ => rfl) id

end Stepwise.Store

/-! ## The store behind runs -/

namespace Stepwise.Task

open Store Transaction

section

variable {γ : Type} {view : Tables → γ}
  (hset : ∀ rows tables, view (taskTable.setRows rows tables) = view tables)
include hset

theorem spares_create (now : Instant) (fields : Fields) : Spares view (create now fields) :=
  (Table.spares_insert hset now _).bind fun _ => spares_pure _

theorem spares_update (now : Instant) (id : Value) (fields : Fields) :
    Spares view (update now id fields) := by
  refine (spares_ofExcept _).bind fun name => ?_
  refine (Table.spares_update hset now name _).bind fun row => ?_
  split
  · exact spares_pure _
  · exact spares_fail _

theorem spares_delete (id : Value) : Spares view (delete id) := by
  refine (spares_ofExcept _).bind fun name => ?_
  refine (Table.spares_delete hset name).bind fun found => ?_
  split_ifs
  · exact spares_pure _
  · exact spares_fail _

end

theorem spares_notify (now : Instant) (user title message : Value) :
    Spares Tables.besidesTasks (notify now user title message) :=
  (Table.spares_insert (fun _ _ => rfl) now _).bind fun _ => spares_pure _

end Stepwise.Task

/-! ## Workflows -/

namespace Stepwise.Workflow

open Store Transaction

theorem spares_drawId : Spares Tables.besidesWorkflows drawId := by
  intro tables supply
  refine ⟨⟨Nat.le_refl _, Nat.le_succ _⟩, fun b tables' h => ?_⟩
  cases h
  rfl

/-- A set draws an id for every step up to the first fault. -/
theorem le_registerAll (next : Nat) (known : List StepSet.Known) (steps : List Fields) :
    next ≤ (StepSet.registerAll next known steps).2 := by
  induction steps generalizing next known with
  | nil => exact Nat.le_refl _
  | cons step rest ih =>
    unfold StepSet.registerAll
    split
    · exact Nat.le_trans (Nat.le_succ _) (ih _ _)
    · exact Nat.le_succ _

theorem le_build (workflow : String) (first : Nat) (steps : List Fields) :
    first ≤ (StepSet.build workflow first steps).2 := by
  have hle := le_registerAll first [] steps
  unfold StepSet.build
  split
  · rename_i h
    rw [h] at hle
    exact hle
  · rename_i h
    rw [h] at hle
    exact hle

theorem spares_buildSteps (workflow : String) (steps : List Fields) :
    Spares Tables.besidesWorkflows (buildSteps workflow steps) := by
  intro tables supply
  unfold buildSteps
  dsimp only
  refine ⟨⟨Nat.le_refl _, le_build workflow supply.fresh steps⟩, fun built tables' h => ?_⟩
  cases hbuild : (StepSet.build workflow supply.fresh steps).1 with
  | error fault =>
    rw [hbuild] at h
    cases h
  | ok built' =>
    rw [hbuild] at h
    cases h
    rfl

theorem spares_insertSteps (now : Instant) (steps : List NewStep) :
    Spares Tables.besidesWorkflows (insertSteps now steps) := by
  refine (spares_ofExcept _).bind fun rows => spares_tables.bind fun tables => ?_
  split
  · exact spares_fail _
  · exact spares_modify fun _ => rfl

theorem spares_insertRow (row : WorkflowRow) :
    Spares Tables.besidesWorkflows (insertRow row) := by
  refine spares_tables.bind fun tables => ?_
  split_ifs
  · exact spares_fail _
  · exact spares_modify fun _ => rfl

theorem spares_create (now : Instant) (d : Draft) :
    Spares Tables.besidesWorkflows (create now d) := by
  refine spares_drawId.bind fun id => (spares_buildSteps id d.steps).bind fun steps => ?_
  split
  · exact spares_fail _
  · exact spares_fail _
  · refine (spares_insertRow _).bind fun _ => (spares_insertSteps now steps).bind fun _ => ?_
    exact spares_tables.bind fun _ => spares_pure _

theorem spares_beginEdit (id : String) (changes : Changes) (steps : Option (List Fields)) :
    Spares Tables.besidesWorkflows (beginEdit id changes steps) := by
  refine spares_tables.bind fun tables => ?_
  split
  · exact spares_fail _
  · cases steps with
    | none => exact (spares_pure _).bind fun _ => spares_pure _
    | some steps =>
      have hbuilt : Spares Tables.besidesWorkflows (some <$> buildSteps id steps) :=
        (spares_buildSteps id steps).bind fun built => spares_pure (some built)
      exact hbuilt.bind fun _ => spares_pure _

theorem spares_commitEdit (now : Instant) (e : Edit) :
    Spares Tables.besidesWorkflows (commitEdit now e) := by
  refine (Table.spares_rewrite (fun _ _ => rfl) now _ _).bind fun _ => ?_
  split
  · exact spares_pure _
  · have hclear : Spares Tables.besidesWorkflows (Transaction.modify fun tables =>
        { tables with steps := tables.steps.filter (·.workflow != e.row.id) }) :=
      spares_modify fun _ => rfl
    exact hclear.bind fun _ => spares_insertSteps now _

theorem spares_update (now : Instant) (id : String) (changes : Changes)
    (steps : Option (List Fields)) :
    Spares Tables.besidesWorkflows (update now id changes steps) :=
  (spares_beginEdit id changes steps).bind fun e => (spares_commitEdit now e).bind fun _ =>
    spares_tables.bind fun _ => spares_pure _

theorem spares_delete (id : String) : Spares Tables.besidesHistory (delete id) := by
  refine spares_tables.bind fun tables => ?_
  split_ifs
  · exact spares_pure _
  · refine (spares_modify ?_).bind fun _ => spares_pure _
    exact fun _ => rfl

end Stepwise.Workflow

/-! ## Executions -/

namespace Stepwise.Execution

open Store Transaction

theorem spares_start (now : Instant) (workflow : String) (input : Value)
    (triggeredBy : Option String) :
    Spares Tables.besidesExecutions (start now workflow input triggeredBy) := by
  refine spares_drawRowId.bind fun id => ?_
  split_ifs
  · exact spares_fail _
  · refine spares_tables.bind fun tables => ?_
    split_ifs
    · exact spares_fail _
    · refine (spares_modify ?_).bind fun _ => spares_pure _
      exact fun _ => rfl

/-- An execution that is not recorded leaves the tables as they are. -/
theorem spares_startRaw : Spares id startRaw :=
  spares_drawRowId.bind fun _ => spares_fail _

end Stepwise.Execution

/-! ## Triggers -/

namespace Stepwise.Trigger

open Store Transaction

theorem spares_drawToken : Spares Tables.besidesTriggers drawToken := by
  intro tables supply
  refine ⟨⟨Nat.le_refl _, Nat.le_refl _⟩, fun b tables' h => ?_⟩
  cases h
  rfl

theorem spares_create (now : Instant) (workspace workflow name creator : Option String) :
    Spares Tables.besidesTriggers (create now workspace workflow name creator) := by
  refine spares_tables.bind fun tables => ?_
  split
  · exact spares_fail _
  · split_ifs
    · exact spares_fail _
    · refine spares_drawToken.bind fun url => spares_drawToken.bind fun secret =>
        spares_drawRowId.bind fun id => ?_
      split
      · exact spares_fail _
      · exact spares_fail _
      · dsimp only
        refine spares_tables.bind fun tables => ?_
        split_ifs
        · exact spares_fail _
        · exact spares_fail _
        · refine (spares_modify ?_).bind fun _ => spares_pure _
          exact fun _ => rfl

theorem spares_accept (now : Instant) (url : String) (payload : Option Value)
    (signature : Option String) :
    Spares Tables.besidesTriggers (accept now url payload signature) := by
  refine spares_tables.bind fun tables => ?_
  split
  · exact spares_fail _
  · split_ifs
    · exact spares_fail _
    · refine (spares_ofExcept _).bind fun isAdmitted => ?_
      split_ifs
      · exact spares_fail _
      · refine (spares_modify ?_).bind fun _ => spares_pure _
        exact fun _ => rfl

end Stepwise.Trigger
