import Mathlib.Data.List.Forall2
import Mathlib.Tactic.Common
import Stepwise.Store.Schema

/-!
# Faults that differ in drawn ids

A statement that the database refuses is quoted with the values that were bound to it, and the id of
a new row is one of them. Two insertions of the same values may draw different ids. They are refused
for the same reason, then, and what is quoted is the same but for the ids.
-/

namespace Stepwise

open Store

/-- The id that is drawn for a row by its number. -/
def Store.rowId (n : Nat) : String := "r-" ++ toString n

/-- Two bound values are the same, or both are ids that were drawn for rows. -/
def Store.SameButId (value value' : Value) : Prop :=
  value = value' ∨ ∃ n n', value = .text (rowId n) ∧ value' = .text (rowId n')

/-- Two statements with values bound to them that are the same but for ids. -/
structure Store.Statement.Alike (s s' : Statement) : Prop where
  text : s.text = s'.text
  bound : List.Forall₂ SameButId s.bound s'.bound

/-- Two faults are the same, but for ids in a statement that was refused. -/
inductive Fault.Alike : Fault → Fault → Prop
  | same (fault : Fault) : Alike fault fault
  | refused (complaint : Complaint) {s s' : Statement} (h : s.Alike s') :
      Alike (.refused complaint s) (.refused complaint s')

/-- Two results are related, or both are faults, which are alike. -/
inductive ResultsAlike {α α' : Type} (r : α → α' → Prop) : Except Fault α → Except Fault α' → Prop
  | ok {a : α} {a' : α'} (h : r a a') : ResultsAlike r (.ok a) (.ok a')
  | error {fault fault' : Fault} (h : fault.Alike fault') :
      ResultsAlike r (.error fault) (.error fault')

theorem Store.SameButId.refl (value : Value) : SameButId value value := .inl rfl

namespace Fault.Alike

variable {fault fault' : Fault}

/-- A cancellation quotes nothing. -/
theorem eq_cancelled_iff (h : fault.Alike fault') : fault = .cancelled ↔ fault' = .cancelled := by
  cases h with
  | same => exact Iff.rfl
  | refused complaint h => simp

end Fault.Alike

namespace ResultsAlike

variable {α α' β β' : Type} {r : α → α' → Prop} {q : β → β' → Prop}

theorem refl (result : Except Fault α) : ResultsAlike (· = ·) result result := by
  cases result with
  | ok a => exact .ok rfl
  | error fault => exact .error (.same fault)

theorem bind {result : Except Fault α} {result' : Except Fault α'} {f : α → Except Fault β}
    {f' : α' → Except Fault β'} (h : ResultsAlike r result result')
    (hf : ∀ a a', r a a' → ResultsAlike q (f a) (f' a')) :
    ResultsAlike q (result >>= f) (result' >>= f') := by
  cases h with
  | ok h => exact hf _ _ h
  | error h => exact .error h

theorem mapM {items : List α} {items' : List α'} {f : α → Except Fault β}
    {f' : α' → Except Fault β'} (h : List.Forall₂ r items items')
    (hf : ∀ a a', r a a' → ResultsAlike q (f a) (f' a')) :
    ResultsAlike (List.Forall₂ q) (items.mapM f) (items'.mapM f') := by
  induction h with
  | nil => exact .ok .nil
  | cons ha _ ih =>
    rw [List.mapM_cons, List.mapM_cons]
    exact (hf _ _ ha).bind fun b b' hb => ih.bind fun bs bs' hbs => .ok (.cons hb hbs)

end ResultsAlike

namespace Store

/-- What is made of a value does not depend on where it is bound, and neither does the complaint. -/
theorem ColumnSort.alike_cell (sort : ColumnSort) (value : Value) (number : Nat)
    {s s' : Statement} (h : s.Alike s') :
    ResultsAlike (· = ·) (sort.cell ⟨s, number⟩ value) (sort.cell ⟨s', number⟩ value) := by
  have hunsupported (value : Value) : (Binding.unsupported ⟨s, number⟩ value).Alike
      (Binding.unsupported ⟨s', number⟩ value) := .refused _ h
  unfold ColumnSort.cell
  split
  all_goals try exact .refl _
  · split
    · exact .refl _
    · split
      · exact .refl _
      · exact .refl _
      · exact .error (hunsupported _)
  · exact .error (hunsupported _)

namespace Table

variable {ρ : Type} {t : Table ρ}

/-- Two columns are filled alike: with the same, or with an id that was drawn. -/
inductive Filling.Alike : Filling → Filling → Prop
  | same (filling : Filling) : Alike filling filling
  | drawn (n n' : Nat) :
      Alike (.supplied (.text (rowId n))) (.supplied (.text (rowId n')))

variable {fillings fillings' : List Filling}

theorem alike_insertionWith (h : List.Forall₂ Filling.Alike fillings fillings') :
    (t.insertionWith fillings).Alike (t.insertionWith fillings') where
  text := rfl
  bound := by
    unfold insertionWith insertion
    dsimp only
    generalize t.columns = columns
    induction h generalizing columns with
    | nil => simp
    | @cons filling filling' _ _ hfilling _ ih =>
      cases columns with
      | nil => simp
      | cons c rest =>
        rw [List.zip_cons_cons, List.zip_cons_cons, List.filter_cons, List.filter_cons]
        split_ifs
        · refine .cons ?_ (ih rest)
          cases hfilling with
          | same => exact .refl _
          | drawn n n' => exact .inr ⟨n, n', rfl, rfl⟩
        · exact ih rest

/-- Two columns have the same contents, or ids that were drawn. -/
def CellsAlike (cell cell' : Column ρ × Cell) : Prop :=
  cell.1 = cell'.1 ∧
    (cell.2 = cell'.2 ∨ ∃ n n', cell.2 = .text (rowId n) ∧ cell'.2 = .text (rowId n'))

theorem alike_newCells (h : List.Forall₂ Filling.Alike fillings fillings') :
    ResultsAlike (List.Forall₂ CellsAlike) (t.newCells fillings) (t.newCells fillings') := by
  have hzip : List.Forall₂ (fun (x y : Column ρ × Filling) => x.1 = y.1 ∧ x.2.Alike y.2)
      (t.columns.zip fillings) (t.columns.zip fillings') := by
    generalize t.columns = columns
    induction h generalizing columns with
    | nil => simp
    | cons hfilling _ ih =>
      cases columns with
      | nil => simp
      | cons c rest => exact .cons ⟨rfl, hfilling⟩ (ih rest)
  refine .mapM hzip ?_
  rintro ⟨c, filling⟩ ⟨_, filling'⟩ ⟨rfl, hfilling⟩
  cases hfilling with
  | same =>
    cases filling with
    | given value =>
      have hcell := c.sort.alike_cell value (placeOf t.columns c.name)
        (alike_insertionWith h : (t.insertionWith fillings).Alike _)
      exact hcell.bind fun content content' heq => .ok ⟨rfl, .inl heq⟩
    | supplied content => exact .ok ⟨rfl, .inl rfl⟩
  | drawn n n' => exact .ok ⟨rfl, .inr ⟨n, n', rfl, rfl⟩⟩

/-- The row that fillings of its columns make, if it may stand beside the others. -/
def place (t : Table ρ) (others : List ρ) (fillings : List Filling) : Except Fault ρ := do
  let cells ← t.newCells fillings
  let row := fill t.blank cells
  match t.violation? others row cells with
  | some complaint => .error (.refused complaint (t.insertionWith fillings))
  | none => return row

/-- Beside no other rows, the ids make no difference. -/
theorem alike_place (h : List.Forall₂ Filling.Alike fillings fillings') :
    ResultsAlike (fun _ _ => True) (t.place [] fillings) (t.place [] fillings') := by
  refine (alike_newCells h).bind fun cells cells' hcells => ?_
  have hmissing : t.violation? [] (fill t.blank cells) cells =
      t.violation? [] (fill t.blank cells') cells' := by
    have hclash (row : ρ) : (t.columns.findSome? fun c =>
        if c.unique && ([] : List ρ).any fun other => sameCell (c.read other) (c.read row) then
          some (Complaint.notUnique t.name c.name) else none) = none := by
      simp
    unfold violation?
    dsimp only
    rw [hclash, hclash]
    congr 1
    induction hcells with
    | nil => rfl
    | @cons cell cell' _ _ hcell _ ih =>
      obtain ⟨c, content⟩ := cell
      obtain ⟨_, content'⟩ := cell'
      obtain ⟨rfl, hcontent⟩ := hcell
      rw [List.findSome?_cons, List.findSome?_cons, ih]
      obtain heq | ⟨n, n', hid, hid'⟩ := hcontent
      · dsimp only at heq
        rw [heq]
      · dsimp only at hid hid'
        rw [hid, hid']
  dsimp only
  rw [hmissing]
  cases t.violation? [] (fill t.blank cells') cells' with
  | some complaint => exact .error (.refused complaint (alike_insertionWith h))
  | none => exact .ok trivial

end Table

end Store

end Stepwise
