import Mathlib.Tactic.Common
import Stepwise.Proofs.Run.Uncancelled
import Stepwise.Task.Store

/-!
# Transactions that leave a part of the tables alone

What a run asks of the store changes tasks and notifications only, and never fails as a cancelled
run does. Both are said of a transaction at once, for any part of the tables and with what is known
of its result, and pass through sequencing.
-/

namespace Stepwise.Store

namespace Transaction

variable {α β γ : Type} {view : Tables → γ}

/-- The transaction leaves a part of the tables as it is, its result is as `post` says, and it does
not fail as cancelled. -/
def Aside (view : Tables → γ) (post : α → Prop) (t : Transaction α) : Prop :=
  ∀ tables supply, match (t tables supply).1 with
    | .ok (a, tables') => view tables' = view tables ∧ post a
    | .error fault => fault ≠ .cancelled

theorem aside_result {post : α → Prop} {a : α} (h : post a) : Aside view post (result a) :=
  fun _ _ => ⟨rfl, h⟩

theorem aside_pure {post : α → Prop} {a : α} (h : post a) :
    Aside view post (pure a : Transaction α) := aside_result h

theorem aside_fail {post : α → Prop} {fault : Fault} (h : fault ≠ .cancelled) :
    Aside view post (fail fault) := fun _ _ => h

theorem aside_ofExcept {r : Except Fault α} (h : Uncancelled r) :
    Aside view (fun _ => True) (ofExcept r) := by
  cases r with
  | ok a => exact aside_result trivial
  | error fault => exact fun _ _ => (uncancelled_error fault).mp h

theorem aside_tables : Aside view (fun _ => True) tables := fun _ _ => ⟨rfl, trivial⟩

theorem aside_modify {f : Tables → Tables} (h : ∀ tables, view (f tables) = view tables) :
    Aside view (fun _ => True) (modify f) := fun tables _ => ⟨h tables, trivial⟩

theorem aside_drawRowId : Aside view (fun _ => True) drawRowId := fun _ _ => ⟨rfl, trivial⟩

theorem Aside.bind {post : α → Prop} {post' : β → Prop} {t : Transaction α}
    {next : α → Transaction β} (ht : Aside view post t)
    (hn : ∀ a, post a → Aside view post' (next a)) : Aside view post' (t >>= next) := by
  intro tables supply
  have h := ht tables supply
  show match (t.andThen next tables supply).1 with
    | .ok (b, tables') => view tables' = view tables ∧ post' b
    | .error fault => fault ≠ .cancelled
  unfold Transaction.andThen
  cases hr : t tables supply with
  | mk r supply' =>
    rw [hr] at h
    cases r with
    | error fault => exact h
    | ok out =>
      obtain ⟨a, tables'⟩ := out
      obtain ⟨hview, ha⟩ : view tables' = view tables ∧ post a := h
      have h' := hn a ha tables' supply'
      rw [hview] at h'
      exact h'

theorem Aside.mapM {post : β → Prop} {f : α → Transaction β} (hf : ∀ a, Aside view post (f a))
    (items : List α) : Aside view (fun bs => ∀ b ∈ bs, post b) (items.mapM f) := by
  have hloop (items : List α) (before : List β) (hb : ∀ b ∈ before, post b) :
      Aside view (fun bs => ∀ b ∈ bs, post b) (List.mapM.loop f items before) := by
    induction items generalizing before with
    | nil => exact aside_result fun b h => hb b (List.mem_reverse.mp h)
    | cons a rest ih =>
      refine (hf a).bind fun b h => ih (b :: before) fun b' h' => ?_
      rcases List.mem_cons.mp h' with rfl | hmem
      · exact h
      · exact hb b' hmem
  exact hloop items [] (by simp)

end Transaction

/-- What a transaction leaves alone is the same after it, whether it succeeds or fails. -/
theorem Database.transact_aside {α γ : Type} {view : Tables → γ} {post : α → Prop}
    {t : Transaction α} (ht : Transaction.Aside view post t) (db : Database) :
    view (db.transact t).2.tables = view db.tables ∧ Uncancelled (db.transact t).1 := by
  have h := ht db.tables db.supply
  unfold Database.transact
  cases hr : t db.tables db.supply with
  | mk r supply =>
    rw [hr] at h
    cases r with
    | error fault => exact ⟨rfl, (uncancelled_error fault).mpr h⟩
    | ok out => exact ⟨h.1, uncancelled_ok out.1⟩

/-! ## Operations of tables -/

open Transaction

theorem uncancelled_cell (sort : ColumnSort) (binding : Binding) (value : Value) :
    Uncancelled (sort.cell binding value) := by
  have hunsupported (value : Value) : binding.unsupported value ≠ .cancelled := nofun
  unfold ColumnSort.cell
  split
  · simp
  · simp
  · split
    · simp
    · split
      · simp
      · simp
      · simp [hunsupported]
  all_goals simp [hunsupported]

namespace Table

variable {γ ρ : Type} {view : Tables → γ} {t : Table ρ}

theorem aside_fillingOf (now : Instant) (data : Fields) (c : Column ρ) :
    Aside view (fun _ => True) (fillingOf now data c) := by
  unfold fillingOf
  dsimp only
  split
  · exact aside_pure trivial
  · split
    · exact aside_pure trivial
    · exact aside_pure trivial
    · exact aside_drawRowId.bind fun _ _ => aside_pure trivial
    · exact aside_pure trivial

theorem uncancelled_fillingCell (c : Column ρ) (binding : Binding) (filling : Filling) :
    Uncancelled (filling.cell c binding) := by
  cases filling with
  | given value => exact uncancelled_cell _ _ _
  | supplied content => exact uncancelled_ok _

theorem uncancelled_newCells (fillings : List Filling) : Uncancelled (t.newCells fillings) := by
  refine Uncancelled.mapM fun (c, filling) _ => ?_
  exact (uncancelled_fillingCell c _ filling).bind fun _ => uncancelled_ok _

theorem uncancelled_changedCells (id : String) (values : List (Column ρ × Value)) :
    Uncancelled (t.changedCells id values) := by
  refine Uncancelled.mapM fun (c, value) _ => ?_
  exact (uncancelled_cell _ _ _).bind fun _ => uncancelled_ok _

/-- A row is inserted, unless one of its contents or the row as a whole is refused. -/
theorem aside_insert (hset : ∀ rows tables, view (t.setRows rows tables) = view tables)
    (now : Instant) (data : Fields) : Aside view (fun _ => True) (t.insert now data) := by
  unfold insert
  split
  · exact aside_fail (by simp)
  · refine (Aside.mapM (fun c => aside_fillingOf now data c) _).bind fun fillings _ => ?_
    refine (aside_ofExcept (uncancelled_newCells fillings)).bind fun cells _ => ?_
    dsimp only
    refine aside_tables.bind fun tables _ => ?_
    split
    · exact aside_fail (by simp)
    · exact (aside_modify fun tables => hset _ tables).bind fun _ _ => aside_pure trivial

theorem aside_rewrite (hset : ∀ rows tables, view (t.setRows rows tables) = view tables)
    (now : Instant) (id : String) (values : List (Column ρ × Value)) :
    Aside view (fun _ => True) (t.rewrite now id values) := by
  refine (aside_ofExcept (uncancelled_changedCells id values)).bind fun cells _ => ?_
  refine aside_tables.bind fun tables _ => ?_
  split
  · exact aside_pure trivial
  · dsimp only
    split
    · exact aside_fail (by simp)
    · exact (aside_modify fun tables => hset _ tables).bind fun _ _ => aside_pure trivial

theorem aside_update (hset : ∀ rows tables, view (t.setRows rows tables) = view tables)
    (now : Instant) (id : String) (data : Fields) :
    Aside view (fun _ => True) (t.update now id data) := by
  refine aside_tables.bind fun tables _ => ?_
  split
  · exact aside_pure trivial
  · dsimp only
    split_ifs
    · exact aside_pure trivial
    · exact aside_rewrite hset now id _

theorem aside_delete (hset : ∀ rows tables, view (t.setRows rows tables) = view tables)
    (id : String) : Aside view (fun _ => True) (t.delete id) := by
  unfold delete
  refine aside_tables.bind fun tables _ => ?_
  split_ifs
  · exact aside_pure trivial
  · exact (aside_modify fun tables => hset _ tables).bind fun _ _ => aside_pure trivial

end Table

end Stepwise.Store

/-! ## The store behind runs -/

namespace Stepwise.Task

open Store Transaction

theorem uncancelled_idOf? (id : Value) : Uncancelled (idOf? id) := by
  unfold idOf?
  split_ifs
  · split
    all_goals simp
  · simp

theorem aside_create (now : Instant) (fields : Fields) :
    Aside Tables.executions (fun _ => True) (create now fields) :=
  (Table.aside_insert (by simp [taskTable]) now _).bind fun _ _ => aside_pure trivial

theorem aside_update (now : Instant) (id : Value) (fields : Fields) :
    Aside Tables.executions (fun _ => True) (update now id fields) := by
  refine (aside_ofExcept (uncancelled_idOf? id)).bind fun name _ => ?_
  refine (Table.aside_update (by simp [taskTable]) now name _).bind fun row _ => ?_
  split
  · exact aside_pure trivial
  · exact aside_fail (by simp)

theorem aside_delete (id : Value) :
    Aside Tables.executions (fun _ => True) (delete id) := by
  refine (aside_ofExcept (uncancelled_idOf? id)).bind fun name _ => ?_
  refine (Table.aside_delete (by simp [taskTable]) name).bind fun found _ => ?_
  split_ifs
  · exact aside_pure trivial
  · exact aside_fail (by simp)

theorem aside_notify (now : Instant) (user title message : Value) :
    Aside Tables.executions (fun _ => True) (notify now user title message) :=
  (Table.aside_insert (by simp [notificationTable]) now _).bind fun _ _ => aside_pure trivial

end Stepwise.Task
