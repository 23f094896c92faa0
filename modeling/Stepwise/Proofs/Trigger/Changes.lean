import Mathlib.Tactic.Common
import Stepwise.Proofs.Server.Play
import Stepwise.Proofs.Store.Columns
import Stepwise.Proofs.Trigger.Acceptance

/-!
# Changes of triggers

A trigger can be given new values in most of its columns, and it can be deleted. Neither of them
touches what is kept of the calls of any other trigger, and a change does not touch what is kept of
its own.
-/

namespace Stepwise

open Store

namespace Trigger

/-- A column that a change may write is none of those that the book of a trigger shows. -/
theorem bookOf_write {c : Column TriggerRow} (hc : c ∈ triggerTable.columns)
    (hn : c.name ∉ bookkept) (content : Cell) (row : TriggerRow) :
    bookOf (c.write content row) = bookOf row := by
  revert c
  simp [triggerTable, bookkept, bookOf]

theorem bookOf_fill {cells : List (Column TriggerRow × Cell)}
    (h : ∀ cell ∈ cells, cell.1 ∈ triggerTable.columns ∧ cell.1.name ∉ bookkept)
    (row : TriggerRow) :
    bookOf (Table.fill row cells) = bookOf row := by
  induction cells generalizing row with
  | nil => rfl
  | cons cell rest ih =>
    obtain ⟨⟨hc, hn⟩, hrest⟩ := List.forall_mem_cons.mp h
    exact (ih hrest _).trans (bookOf_write hc hn _ _)

/-- What a change may give values for leaves the books of all triggers as they are. -/
theorem books_change (db : Database) (now : Instant) (id : String) (change : Change) :
    (db.transact (triggerTable.update now id change.data)).2.tables.triggers.map bookOf =
      db.tables.triggers.map bookOf := by
  obtain ⟨out, tables, supply, hr, heq⟩ | ⟨fault, supply, _, heq⟩ :=
    db.transact_cases (triggerTable.update now id change.data)
  · rw [heq]
    obtain ⟨-, ⟨-, -, rfl⟩ | ⟨row, -, ⟨-, -, rfl⟩ | ⟨cells, hcells, hwritten⟩⟩⟩ :=
      Table.update_cases hr
    · rfl
    · rfl
    · cases hwritten with
      | missing _ => rfl
      | found _ _ =>
        obtain ⟨written, hwritten, hrow⟩ := Table.rewritten_changes hcells now
        show (db.tables.triggers.map _).map bookOf = _
        rw [List.map_map]
        refine List.map_congr_left fun old hold => ?_
        show bookOf (if old.id == id then _ else old) = bookOf old
        split_ifs with hold'
        · rw [hrow]
          refine bookOf_fill (fun cell hcell => ⟨(hwritten cell hcell).1, fun hkept => ?_⟩) old
          obtain hname | hgiven := (hwritten cell hcell).2
          · rw [hname] at hkept
            revert hkept
            decide
          · exact hgiven (change.spares _ hkept)
        · rfl
  · rw [heq]

/-- A deletion takes triggers away and leaves the others as they are. -/
theorem triggers_delete (db : Database) (id : String) :
    (db.transact (triggerTable.delete id)).2.tables.triggers.Sublist db.tables.triggers := by
  unfold Database.transact
  have hdelete : triggerTable.delete id db.tables db.supply =
      (if (triggerTable.find? db.tables id).isNone = true then .ok (false, db.tables)
        else .ok (true, { db.tables with
          triggers := db.tables.triggers.filter (triggerTable.idOf · != id) }), db.supply) := by
    show (if (triggerTable.find? db.tables id).isNone = true then _ else _ : Transaction Bool)
      db.tables db.supply = _
    split_ifs
    · rfl
    · rfl
  rw [hdelete]
  split_ifs
  · exact List.Sublist.refl _
  · exact List.filter_sublist

end Trigger

end Stepwise
