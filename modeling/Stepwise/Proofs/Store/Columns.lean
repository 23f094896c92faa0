import Mathlib.Data.List.Nodup
import Mathlib.Tactic.Common
import Stepwise.Proofs.Store.InPlace
import Stepwise.Proofs.Value.Fields
import Stepwise.Proofs.Workflow.Accepted
import Stepwise.Store.Schema

/-!
# What insertions and changes write

An insertion fills all columns of a new row, with the values that it gives or with contents that the
columns have of their own. A change writes the columns that it gives values for, except those that
hold an equal value already, and the time of the change. Where the columns of a table do not
interfere, each of them then holds what was written to it, and the others hold what they held
before.
-/

namespace Stepwise.Store

/-! ## Contents -/

/-- A content of the sort of a column. -/
inductive Cell.Fits : ColumnSort → Cell → Prop
  | text (s : String) : Fits .text (.text s)
  | int (n : Int) : Fits .int (.int n)
  | bool (b : Bool) : Fits .bool (.bool b)
  | time (t : Instant) : Fits .time (.time t)
  | json (v : Value) : Fits .json (.json v)

/-- The content that is made of a value is of the sort of its column, but a column of texts makes
nothing of a NaN. -/
theorem ColumnSort.fits_cell {sort : ColumnSort} {binding : Binding} {value : Value}
    {content : Cell} (hv : value ≠ .null) (h : sort.cell binding value = .ok content) :
    content.Fits sort ∨ content = .null ∧ sort = .text := by
  unfold ColumnSort.cell at h
  split at h
  · cases h
    exact .inl (.json _)
  · exact absurd rfl hv
  · split at h
    · cases h
      exact .inl (.text _)
    · split at h
      · cases h
        exact .inr ⟨rfl, rfl⟩
      · cases h
      · cases h
  · cases h
    exact .inl (.int _)
  · cases h
    exact .inl (.int _)
  · cases h
    exact .inl (.int _)
  · cases h
    exact .inl (.int _)
  · cases h
  · cases h
    exact .inl (.bool _)
  · cases h
    exact .inl (.bool _)
  · cases h
    exact .inl (.bool _)
  · cases h
  · cases h

/-- What is made of a value does not depend on where it is bound. -/
theorem ColumnSort.cell_of_cell {sort : ColumnSort} {binding : Binding} {value : Value}
    {content : Cell} (h : sort.cell binding value = .ok content) (binding' : Binding) :
    sort.cell binding' value = .ok content := by
  rw [← h]
  unfold ColumnSort.cell at h ⊢
  split at h
  all_goals try rfl
  · split at h
    · rfl
    · split at h
      · rfl
      · rfl
      · cases h
  · cases h

namespace Column

variable {ρ : Type} {c : Column ρ}

/-- A content that the column can hold. -/
def Holds (c : Column ρ) (content : Cell) : Prop :=
  content.Fits c.sort ∨ content = .null ∧ c.nullable = true ∧ c.sort ≠ .json

/-- A content that the column has of its own in a new row; any id will do. -/
inductive HasDefault (c : Column ρ) (now : Instant) : Cell → Prop
  | null (h : c.default = .null) : HasDefault c now .null
  | cell {content : Cell} (h : c.default = .cell content) : HasDefault c now content
  | rowId (h : c.default = .rowId) (id : String) : HasDefault c now (.text id)
  | now (h : c.default = .now) : HasDefault c now (.time now)

/-- The column of a new row holds what it makes of the value given for it, or a content of its own
if that value is null, which in a column of JSON is a value like any other. -/
structure Begins (c : Column ρ) (now : Instant) (value : Value) (row : ρ) : Prop where
  given : value ≠ .null → ∀ binding, c.sort.cell binding value = .ok (c.read row)
  default : value = .null → c.sort ≠ .json → c.HasDefault now (c.read row)

/-- The column of a row after a change holds what it makes of the value given for it. It is left as
it was if the value is null, and also if it held an equal value. -/
structure Revises (c : Column ρ) (value : Value) (before after : ρ) : Prop where
  kept : value = .null ∨ (c.read before).toValue.equal value = true →
    c.read after = c.read before
  written : value ≠ .null → (c.read before).toValue.equal value = false →
    ∀ binding, c.sort.cell binding value = .ok (c.read after)

end Column

namespace Table

variable {ρ : Type} {t : Table ρ}

/-- Each column holds what is written to it, and nothing else changes it. What it has of its own in
a new row is of its sort, or nothing. -/
structure Lawful (t : Table ρ) : Prop where
  nodup : (t.columns.map (·.name)).Nodup
  fits_default : ∀ c ∈ t.columns, ∀ now content, c.HasDefault now content →
    content = .null ∨ content.Fits c.sort
  read_write : ∀ c ∈ t.columns, ∀ content row, c.Holds content →
    c.read (c.write content row) = content
  read_write_of_ne : ∀ c ∈ t.columns, ∀ d ∈ t.columns, d.name ≠ c.name → ∀ content row,
    c.read (d.write content row) = c.read row

theorem Lawful.read_fill_of_ne (h : t.Lawful) {c : Column ρ} (hc : c ∈ t.columns)
    {cells : List (Column ρ × Cell)}
    (hcells : ∀ cell ∈ cells, cell.1 ∈ t.columns ∧ cell.1.name ≠ c.name) (row : ρ) :
    c.read (fill row cells) = c.read row := by
  induction cells generalizing row with
  | nil => rfl
  | cons cell rest ih =>
    obtain ⟨⟨hmem, hne⟩, hrest⟩ := List.forall_mem_cons.mp hcells
    exact (ih hrest _).trans (h.read_write_of_ne c hc cell.1 hmem hne cell.2 row)

theorem Lawful.read_fill (h : t.Lawful) {cells : List (Column ρ × Cell)}
    (hcolumns : ∀ cell ∈ cells, cell.1 ∈ t.columns) (hnodup : (cells.map (·.1.name)).Nodup)
    {c : Column ρ} {content : Cell} (hmem : (c, content) ∈ cells) (hholds : c.Holds content)
    (row : ρ) : c.read (fill row cells) = content := by
  induction cells generalizing row with
  | nil => cases hmem
  | cons cell rest ih =>
    obtain ⟨hcell, hrest⟩ := List.forall_mem_cons.mp hcolumns
    obtain ⟨hnotin, hnodup⟩ := List.nodup_cons.mp hnodup
    obtain rfl | hmem := List.mem_cons.mp hmem
    · refine (h.read_fill_of_ne hcell (fun other hother => ⟨hrest other hother, ?_⟩) _).trans
        (h.read_write c hcell content row hholds)
      intro heq
      exact hnotin (List.mem_map.mpr ⟨other, hother, heq⟩)
    · exact ih hrest hnodup hmem _

/-! ## Changes -/

variable {now : Instant} {id : String} {data : Fields} {row : ρ}
variable {values : List (Column ρ × Value)} {cells : List (Column ρ × Cell)}

theorem newValue?_eq_some_iff {c : Column ρ} {value : Value} :
    newValue? row data c = some value ↔ data.get? (.text c.name) = some value ∧ value ≠ .null ∧
      (c.read row).toValue.equal value = false := by
  unfold newValue?
  split
  · simp_all
  · simp_all
  · rename_i given hnull hgiven
    rw [hgiven]
    split_ifs with hequal
    · simp only [Option.some.injEq, false_iff, not_and]
      rintro rfl -
      simp [hequal]
    · simp only [Option.some.injEq]
      constructor
      · rintro rfl
        exact ⟨rfl, hnull, by simpa using hequal⟩
      · exact fun h => h.1

/-- A column is changed to a value that is given for it and that it does not hold already. -/
theorem mem_changes {c : Column ρ} {value : Value} :
    (c, value) ∈ t.changes row data ↔ c ∈ t.columns ∧ data.get? (.text c.name) = some value ∧
      value ≠ .null ∧ (c.read row).toValue.equal value = false := by
  simp only [changes, List.mem_filterMap, Option.map_eq_some_iff, newValue?_eq_some_iff,
    Prod.mk.injEq]
  constructor
  · rintro ⟨d, hd, v, hv, rfl, rfl⟩
    exact ⟨hd, hv⟩
  · rintro ⟨hc, hv⟩
    exact ⟨c, hc, value, hv, rfl, rfl⟩

theorem map_fst_changes_sublist : ((t.changes row data).map (·.1)).Sublist t.columns := by
  unfold changes
  induction t.columns with
  | nil => exact .slnil
  | cons c rest ih =>
    rw [List.filterMap_cons]
    cases newValue? row data c with
    | none => exact ih.cons c
    | some value => exact ih.cons_cons c

/-- The contents that are written are those that the columns make of the values. -/
theorem forall₂_of_changedCells (h : t.changedCells id values = .ok cells) :
    List.Forall₂ (fun (value : Column ρ × Value) (cell : Column ρ × Cell) => value.1 = cell.1 ∧
      ∀ binding, value.1.sort.cell binding value.2 = .ok cell.2) values cells := by
  refine (Except.mapM_eq_ok_iff.mp h).imp fun value cell hcell => ?_
  obtain ⟨content, hcontent, hcell⟩ := Except.ok_of_bind hcell
  cases hcell
  exact ⟨rfl, ColumnSort.cell_of_cell hcontent⟩

theorem map_fst_changedCells (h : t.changedCells id values = .ok cells) :
    cells.map (·.1) = values.map (·.1) := by
  have hsame : List.Forall₂ (· = ·) (values.map (·.1)) (cells.map (·.1)) := by
    rw [List.forall₂_map_left_iff, List.forall₂_map_right_iff]
    exact (forall₂_of_changedCells h).imp fun _ _ hcell => hcell.1
  rw [List.forall₂_eq_eq_eq] at hsame
  exact hsame.symm

theorem exists_value_of_mem (h : t.changedCells id values = .ok cells) {c : Column ρ}
    {content : Cell} (hcell : (c, content) ∈ cells) : ∃ value, (c, value) ∈ values ∧
      ∀ binding, c.sort.cell binding value = .ok content := by
  obtain ⟨⟨d, value⟩, hvalue, rfl, hcontent⟩ :=
    exists_mem_of_forall₂ (forall₂_of_changedCells h) hcell
  exact ⟨value, hvalue, hcontent⟩

theorem exists_content_of_mem (h : t.changedCells id values = .ok cells) {c : Column ρ}
    {value : Value} (hvalue : (c, value) ∈ values) : ∃ content, (c, content) ∈ cells ∧
      ∀ binding, c.sort.cell binding value = .ok content := by
  obtain ⟨⟨d, content⟩, hcell, rfl, hcontent⟩ :=
    exists_mem_of_forall₂ (forall₂_of_changedCells h).flip hvalue
  exact ⟨content, hcell, hcontent⟩

/-- A change that is written writes only columns of the table that it gives values for. -/
theorem given_of_changes (h : t.changedCells id (t.changes row data) = .ok cells) :
    ∀ cell ∈ cells, cell.1 ∈ t.columns ∧ data.get? (.text cell.1.name) ≠ none := by
  rintro ⟨c, content⟩ hcell
  obtain ⟨value, hvalue, -⟩ := exists_value_of_mem h hcell
  obtain ⟨hc, hgiven, -⟩ := mem_changes.mp hvalue
  exact ⟨hc, by simp [hgiven]⟩

/-! ## Rows that are permitted -/

/-- A row may stand beside the others if it holds something where it must, and nothing that another
row holds where rows are kept apart. -/
theorem violation?_eq_none_iff {others : List ρ} : t.violation? others row cells = none ↔
    (∀ c, (c, Cell.null) ∈ cells → c.nullable = true) ∧
      ∀ c ∈ t.columns, c.unique = true → ∀ other ∈ others,
        sameCell (c.read other) (c.read row) = false := by
  unfold violation?
  dsimp only
  rw [Option.orElse_eq_orElse, Option.orElse_eq_or, Option.or_eq_none_iff,
    List.findSome?_eq_none_iff, List.findSome?_eq_none_iff]
  refine and_congr ⟨fun h c hcell => by simpa using h (c, .null) hcell, ?_⟩ ?_
  · rintro h ⟨c, content⟩ hcell
    cases content with
    | null => exact if_pos (h c hcell)
    | _ => rfl
  · refine forall₂_congr fun c _ => ?_
    simp

/-- Where no column that keeps rows apart has the same content in another row, the other rows do not
matter. -/
theorem violation?_of_apart {others : List ρ} (h : ∀ c ∈ t.columns, c.unique = true →
    ∀ other ∈ others, sameCell (c.read other) (c.read row) = false) :
    t.violation? others row cells = t.violation? [] row cells := by
  unfold violation?
  dsimp only
  congr 1
  funext _
  refine (List.findSome?_eq_none_iff.mpr fun c hc => if_neg fun hclash => ?_).trans
    (List.findSome?_eq_none_iff.mpr fun c _ => by simp).symm
  obtain ⟨hunique, hany⟩ := Bool.and_eq_true_iff.mp hclash
  obtain ⟨other, hother, hsame⟩ := List.any_eq_true.mp hany
  rw [h c hc hunique other hother] at hsame
  cases hsame

/-! ## New rows -/

variable {fillings : List Filling}

theorem forall₂_of_newCells (h : t.newCells fillings = .ok cells) :
    List.Forall₂ (fun (x : Column ρ × Filling) (cell : Column ρ × Cell) => x.1 = cell.1 ∧
      ∃ binding, x.2.cell x.1 binding = .ok cell.2) (t.columns.zip fillings) cells := by
  refine (Except.mapM_eq_ok_iff.mp h).imp fun x cell hcell => ?_
  obtain ⟨content, hcontent, hcell⟩ := Except.ok_of_bind hcell
  cases hcell
  exact ⟨rfl, _, hcontent⟩

theorem exists_cell_of_filling (h : t.newCells fillings = .ok cells) {c : Column ρ}
    {filling : Filling} (hmem : (c, filling) ∈ t.columns.zip fillings) :
    ∃ content, (c, content) ∈ cells ∧ ∃ binding, filling.cell c binding = .ok content := by
  obtain ⟨⟨d, content⟩, hcell, rfl, hcontent⟩ :=
    exists_mem_of_forall₂ (forall₂_of_newCells h).flip hmem
  exact ⟨content, hcell, hcontent⟩

/-- A column of a new row holds what it is filled with. -/
theorem Lawful.read_fill_newCells (h : t.Lawful) (hcells : t.newCells fillings = .ok cells)
    (hlength : t.columns.length ≤ fillings.length) {c : Column ρ} {content : Cell}
    (hcell : (c, content) ∈ cells) (hholds : c.Holds content) (row : ρ) :
    c.read (fill row cells) = content := by
  have hcolumns : cells.map (·.1) = t.columns := by
    rw [← List.map_fst_zip hlength, ← List.forall₂_eq_eq_eq, List.forall₂_map_left_iff,
      List.forall₂_map_right_iff]
    exact (forall₂_of_newCells hcells).flip.imp fun _ _ hcell => hcell.1.symm
  refine h.read_fill (fun cell hcell => hcolumns ▸ List.mem_map_of_mem hcell) ?_ hcell hholds row
  have hnodup := h.nodup
  rwa [← hcolumns, List.map_map] at hnodup

/-- What a column of a new row is filled with: the value given for it, or a content of its own. -/
inductive Fills (now : Instant) (data : Fields) (c : Column ρ) : Filling → Prop
  | given {value : Value} (h : data.get? (.text c.name) = some value)
      (hv : value = .null → c.sort = .json) : Fills now data c (.given value)
  | supplied {content : Cell} (h : data.field c.name = .null) (hc : c.HasDefault now content) :
      Fills now data c (.supplied content)

section

variable {c : Column ρ} {filling : Filling} {tables tables' : Tables} {supply supply' : Supply}

theorem hasDefault_of_fillingOf
    (h : fillingOf now [] c tables supply = (.ok (filling, tables'), supply')) :
    ∃ content, filling = .supplied content ∧ c.HasDefault now content := by
  unfold fillingOf at h
  cases hdefault : c.default with
  | null =>
    rw [hdefault] at h
    cases h
    exact ⟨_, rfl, .null hdefault⟩
  | cell content =>
    rw [hdefault] at h
    cases h
    exact ⟨_, rfl, .cell hdefault⟩
  | rowId =>
    rw [hdefault] at h
    cases h
    exact ⟨_, rfl, .rowId hdefault _⟩
  | now =>
    rw [hdefault] at h
    cases h
    exact ⟨_, rfl, .now hdefault⟩

theorem fills_of_fillingOf
    (h : fillingOf now data c tables supply = (.ok (filling, tables'), supply')) :
    Fills now data c filling := by
  have hsupplied (hnull : data.field c.name = .null) (heq : fillingOf now data c =
      fillingOf now [] c) : Fills now data c filling := by
    rw [heq] at h
    obtain ⟨content, rfl, hcontent⟩ := hasDefault_of_fillingOf h
    exact .supplied hnull hcontent
  cases hgiven : data.get? (.text c.name) with
  | none =>
    refine hsupplied (Fields.field_of_get?_eq_none hgiven) ?_
    unfold fillingOf
    rw [hgiven]
    rfl
  | some value =>
    by_cases hdefault : value = .null ∧ c.sort ≠ .json
    · obtain ⟨rfl, hsort⟩ := hdefault
      refine hsupplied (Fields.field_of_get? hgiven) ?_
      unfold fillingOf
      rw [hgiven]
      dsimp only
      rw [if_neg hsort]
      rfl
    · have hv (hnull : value = .null) : c.sort = .json :=
        not_not.mp fun hsort => hdefault ⟨hnull, hsort⟩
      have heq : fillingOf now data c = pure (.given value) := by
        unfold fillingOf
        rw [hgiven]
        cases value with
        | null =>
          dsimp only
          rw [if_pos (hv rfl)]
        | _ => rfl
      rw [heq] at h
      cases h
      exact .given hgiven hv

end

/-- A row that is permitted begins with what is given for it. -/
theorem Lawful.begins_of_newCells (h : t.Lawful)
    (hfillings : List.Forall₂ (Fills now data) t.columns fillings)
    (hcells : t.newCells fillings = .ok cells) {others : List ρ} {after : ρ}
    (hpermitted : t.violation? others after cells = none) {c : Column ρ} (hc : c ∈ t.columns)
    (row : ρ) : c.Begins now (data.field c.name) (fill row cells) := by
  have hlength : t.columns.length ≤ fillings.length := Nat.le_of_eq hfillings.length_eq
  have hzipped : c ∈ (t.columns.zip fillings).map (·.1) := by rwa [List.map_fst_zip hlength]
  obtain ⟨⟨c, filling⟩, hmem, rfl⟩ := List.mem_map.mp hzipped
  obtain ⟨content, hcell, binding, hcontent⟩ := exists_cell_of_filling hcells hmem
  have hread (hholds : c.Holds content) : c.read (fill row cells) = content :=
    h.read_fill_newCells hcells hlength hcell hholds row
  have hnullable (hnull : content = .null) : c.nullable = true :=
    (violation?_eq_none_iff.mp hpermitted).1 c (hnull ▸ hcell)
  cases (List.forall₂_iff_zip.mp hfillings).2 hmem with
  | @given value hgiven hjson =>
    rw [Fields.field_of_get? hgiven]
    refine ⟨fun hv binding' => ?_, fun hv hsort => absurd (hjson hv) hsort⟩
    rw [hread]
    · exact ColumnSort.cell_of_cell hcontent binding'
    · obtain hfits | ⟨hnull, htext⟩ := ColumnSort.fits_cell hv hcontent
      · exact .inl hfits
      · exact .inr ⟨hnull, hnullable hnull, by rw [htext]; nofun⟩
  | @supplied content' hnull hdefault =>
    obtain rfl : content' = content := Except.ok.inj hcontent
    rw [hnull]
    refine ⟨fun hv => absurd rfl hv, fun _ hsort => ?_⟩
    rw [hread]
    · exact hdefault
    · obtain hnull | hfits := h.fits_default c hc now content' hdefault
      · exact .inr ⟨hnull, hnullable hnull, hsort⟩
      · exact .inl hfits

/-! ## Rows that are rewritten -/

theorem fill_append (row : ρ) (cells later : List (Column ρ × Cell)) :
    fill row (cells ++ later) = fill (fill row cells) later := List.foldl_append

/-- The columns that show the time of a change. -/
theorem touched (t : Table ρ) (now : Instant) :
    ∀ cell ∈ (t.columns.filter (·.name == "updated_at")).map (·, Cell.time now),
      cell.1 ∈ t.columns ∧ cell.1.name = "updated_at" := by
  refine List.forall_mem_map.mpr fun c hc => ?_
  obtain ⟨hmem, hname⟩ := List.mem_filter.mp hc
  exact ⟨hmem, beq_iff_eq.mp hname⟩

theorem Lawful.read_rewritten (h : t.Lawful) {c : Column ρ} (hc : c ∈ t.columns)
    (hname : c.name ≠ "updated_at") :
    c.read (t.rewritten now cells row) = c.read (fill row cells) := by
  unfold rewritten
  rw [fill_append]
  refine h.read_fill_of_ne hc (fun cell hcell => ?_) _
  obtain ⟨hmem, htouched⟩ := t.touched now cell hcell
  exact ⟨hmem, fun heq => hname (heq.symm.trans htouched)⟩

/-- A content that a change writes into a column is one that the column can hold, unless it is
nothing in a column that must hold something. -/
theorem holds_of_changedCells (h : t.changedCells id (t.changes row data) = .ok cells)
    {c : Column ρ} {content : Cell} (hcell : (c, content) ∈ cells)
    (hnull : c.sort = .text → content = .null → c.nullable = true) : c.Holds content := by
  obtain ⟨value, hvalue, hcontent⟩ := exists_value_of_mem h hcell
  obtain ⟨-, -, hne, -⟩ := mem_changes.mp hvalue
  obtain hfits | ⟨rfl, htext⟩ := ColumnSort.fits_cell hne (hcontent default)
  · exact .inl hfits
  · exact .inr ⟨rfl, hnull htext rfl, by rw [htext]; nofun⟩

theorem Lawful.nodup_changedCells (h : t.Lawful)
    (hcells : t.changedCells id (t.changes row data) = .ok cells) :
    (cells.map (·.1.name)).Nodup := by
  have hsub : ((t.changes row data).map (·.1)).Sublist t.columns := map_fst_changes_sublist
  rw [← map_fst_changedCells hcells] at hsub
  have hnodup := h.nodup.sublist (hsub.map (·.name))
  rwa [List.map_map] at hnodup

/-- A column that a change gives no other value for keeps its content. -/
theorem Lawful.read_rewritten_of_kept (h : t.Lawful)
    (hcells : t.changedCells id (t.changes row data) = .ok cells) {c : Column ρ}
    (hc : c ∈ t.columns) (hname : c.name ≠ "updated_at") (hnone : newValue? row data c = none)
    (now : Instant) (old : ρ) : c.read (t.rewritten now cells old) = c.read old := by
  rw [h.read_rewritten hc hname]
  refine h.read_fill_of_ne hc (fun cell hcell =>
    ⟨(given_of_changes hcells cell hcell).1, fun heq => ?_⟩) old
  obtain ⟨d, content⟩ := cell
  obtain ⟨value, hvalue, -⟩ := exists_value_of_mem hcells hcell
  obtain ⟨hd, hgiven⟩ := mem_changes.mp hvalue
  obtain rfl : d = c := List.inj_on_of_nodup_map h.nodup hd hc heq
  rw [newValue?_eq_some_iff.mpr hgiven] at hnone
  cases hnone

/-- A column that a change gives another value for holds what the column makes of it. -/
theorem Lawful.read_rewritten_of_changed (h : t.Lawful)
    (hcells : t.changedCells id (t.changes row data) = .ok cells) {c : Column ρ}
    (hc : c ∈ t.columns) (hname : c.name ≠ "updated_at") {value : Value}
    (hvalue : newValue? row data c = some value)
    (hnull : ∀ content, (c, content) ∈ cells → c.sort = .text → content = .null →
      c.nullable = true) (now : Instant) (old : ρ) (binding : Binding) :
    c.sort.cell binding value = .ok (c.read (t.rewritten now cells old)) := by
  obtain ⟨content, hcell, hcontent⟩ :=
    exists_content_of_mem hcells (mem_changes.mpr ⟨hc, newValue?_eq_some_iff.mp hvalue⟩)
  rw [h.read_rewritten hc hname, h.read_fill
    (fun cell hcell => (given_of_changes hcells cell hcell).1) (h.nodup_changedCells hcells) hcell
    (holds_of_changedCells hcells hcell (hnull content hcell)) old]
  exact hcontent binding

/-- A change that is written revises all columns but the time of the change. -/
theorem Lawful.revises_of_changedCells (h : t.Lawful)
    (hcells : t.changedCells id (t.changes row data) = .ok cells) {others : List ρ} {after : ρ}
    (hpermitted : t.violation? others after cells = none) {c : Column ρ} (hc : c ∈ t.columns)
    (hname : c.name ≠ "updated_at") (now : Instant) :
    c.Revises (data.field c.name) row (t.rewritten now cells row) where
  kept hvalue := by
    refine h.read_rewritten_of_kept hcells hc hname ?_ now row
    refine Option.eq_none_iff_forall_ne_some.mpr fun value hnew => ?_
    obtain ⟨hgiven, hnull, hother⟩ := newValue?_eq_some_iff.mp hnew
    rw [Fields.field_of_get? hgiven] at hvalue
    obtain hvalue | hvalue := hvalue
    · exact hnull hvalue
    · rw [hvalue] at hother
      cases hother
  written hnull hother := by
    have hgiven := Fields.get?_of_field_ne_null hnull
    exact h.read_rewritten_of_changed hcells hc hname
      (newValue?_eq_some_iff.mpr ⟨hgiven, hnull, hother⟩)
      (fun _ hcell _ hcontent =>
        (violation?_eq_none_iff.mp hpermitted).1 c (hcontent ▸ hcell)) now row

/-- All that a change writes: columns that values are given for, and the time of the change. -/
theorem rewritten_changes (h : t.changedCells id (t.changes row data) = .ok cells)
    (now : Instant) :
    ∃ written, (∀ cell ∈ written, cell.1 ∈ t.columns ∧
        (cell.1.name = "updated_at" ∨ data.get? (.text cell.1.name) ≠ none)) ∧
      ∀ old, t.rewritten now cells old = fill old written := by
  refine ⟨_, List.forall_mem_append.mpr ⟨fun cell hcell => ?_, fun cell hcell => ?_⟩,
    fun _ => rfl⟩
  · obtain ⟨hmem, hgiven⟩ := given_of_changes h cell hcell
    exact ⟨hmem, .inr hgiven⟩
  · obtain ⟨hmem, hname⟩ := t.touched now cell hcell
    exact ⟨hmem, .inl hname⟩

/-! ## Statements that are carried out -/

/-- The tables with contents written into columns of the row of an id. -/
def withCells (t : Table ρ) (now : Instant) (id : String) (cells : List (Column ρ × Cell))
    (tables : Tables) : Tables :=
  t.setRows ((t.rows tables).map fun old =>
    if t.idOf old == id then t.rewritten now cells old else old) tables

section Replaced

variable {f : ρ → ρ} (hf : ∀ row, t.idOf (f row) = t.idOf row)

include hf

theorem map_idOf_replaced (rows : List ρ) (id : String) :
    (rows.map fun old => if t.idOf old == id then f old else old).map t.idOf =
      rows.map t.idOf := by
  rw [List.map_map]
  refine List.map_congr_left fun row _ => ?_
  dsimp only [Function.comp]
  split_ifs
  · exact hf row
  · rfl

/-- What takes the place of the row of an id is found by it. -/
theorem find?_replaced (rows : List ρ) (id : String) :
    (rows.map fun old => if t.idOf old == id then f old else old).find? (t.idOf · == id) =
      (rows.find? (t.idOf · == id)).map f := by
  rw [List.find?_map]
  have hsame : (t.idOf · == id) ∘ (fun old => if t.idOf old == id then f old else old) =
      (t.idOf · == id) := by
    funext row
    dsimp only [Function.comp]
    split_ifs
    · rw [hf]
    · rfl
  rw [hsame]
  cases hfind : rows.find? (t.idOf · == id) with
  | none => rfl
  | some row =>
    have hid : (t.idOf row == id) = true := List.find?_some (p := (t.idOf · == id)) hfind
    simp only [Option.map_some, hid, if_true]

/-- The other rows stay as they are. -/
theorem filter_replaced (rows : List ρ) (id : String) :
    (rows.map fun old => if t.idOf old == id then f old else old).filter (t.idOf · != id) =
      rows.filter (t.idOf · != id) := by
  induction rows with
  | nil => rfl
  | cons row rest ih =>
    rw [List.map_cons, List.filter_cons, List.filter_cons, ih]
    by_cases hid : t.idOf row = id
    · simp [hid, hf]
    · simp [hid]

end Replaced

variable {out : Option ρ} {tables tables' : Tables} {supply supply' : Supply}

/-- Values that are written: the row of the id is found and may stand beside the others, or there is
none, and then nothing is written. -/
inductive Rewritten (t : Table ρ) (now : Instant) (id : String) (tables : Tables)
    (cells : List (Column ρ × Cell)) : Option ρ → Tables → Prop
  | missing (h : t.find? tables id = none) : Rewritten t now id tables cells none tables
  | found {old : ρ} (h : t.find? tables id = some old)
      (hpermitted : t.violation? ((t.rows tables).filter (t.idOf · != id))
        (t.rewritten now cells old) cells = none) :
      Rewritten t now id tables cells (some (t.rewritten now cells old))
        (t.withCells now id cells tables)

theorem rewrite_eq_ok
    (h : t.rewrite now id values tables supply = (.ok (out, tables'), supply')) :
    supply' = supply ∧ ∃ cells, t.changedCells id values = .ok cells ∧
      Rewritten t now id tables cells out tables' := by
  obtain ⟨cells, _, _, hread, h⟩ := Transaction.ok_of_bind h
  obtain ⟨hcells, rfl, rfl⟩ := Transaction.ofExcept_eq_ok hread
  obtain ⟨_, _, _, htables, h⟩ := Transaction.ok_of_bind h
  cases htables
  cases hfind : t.find? tables id with
  | none =>
    rw [hfind] at h
    cases h
    exact ⟨rfl, cells, hcells, .missing hfind⟩
  | some old =>
    rw [hfind] at h
    dsimp only at h
    cases hviolation : t.violation? ((t.rows tables).filter (t.idOf · != id))
        (t.rewritten now cells old) cells with
    | some complaint =>
      rw [hviolation] at h
      cases h
    | none =>
      rw [hviolation] at h
      cases h
      exact ⟨rfl, cells, hcells, .found hfind hviolation⟩

/-- A change that succeeds finds the row of the id and writes what it changes, if it really changes
something, or it finds none. -/
theorem update_cases (h : t.update now id data tables supply = (.ok (out, tables'), supply')) :
    supply' = supply ∧
      (t.find? tables id = none ∧ out = none ∧ tables' = tables ∨
        ∃ old, t.find? tables id = some old ∧
          (t.changes old data = [] ∧ out = some old ∧ tables' = tables ∨
            ∃ cells, t.changedCells id (t.changes old data) = .ok cells ∧
              Rewritten t now id tables cells out tables')) := by
  obtain ⟨_, _, _, htables, h⟩ := Transaction.ok_of_bind h
  cases htables
  cases hfind : t.find? tables id with
  | none =>
    rw [hfind] at h
    cases h
    exact ⟨rfl, .inl ⟨rfl, rfl, rfl⟩⟩
  | some old =>
    rw [hfind] at h
    dsimp only at h
    split_ifs at h with hempty
    · cases h
      exact ⟨rfl, .inr ⟨old, rfl, .inl ⟨by simpa using hempty, rfl, rfl⟩⟩⟩
    · obtain ⟨hsupply, hwritten⟩ := rewrite_eq_ok h
      exact ⟨hsupply, .inr ⟨old, rfl, .inr hwritten⟩⟩

/-- What a change that changes nothing finds is revised already. -/
theorem revises_of_unchanged (h : t.changes row data = []) {c : Column ρ} (hc : c ∈ t.columns) :
    c.Revises (data.field c.name) row row where
  kept _ := rfl
  written hnull hother := by
    have hmem := mem_changes.mpr ⟨hc, Fields.get?_of_field_ne_null hnull, hnull, hother⟩
    rw [h] at hmem
    cases hmem

/-- A change that succeeds hands over the row that it finds, revised. -/
theorem Lawful.revises_of_update (h : t.Lawful)
    (hupdate : t.update now id data tables supply = (.ok (some row, tables'), supply')) :
    ∃ old, t.find? tables id = some old ∧ ∀ c ∈ t.columns, c.name ≠ "updated_at" →
      c.Revises (data.field c.name) old row := by
  obtain ⟨-, ⟨-, hnone, -⟩ | ⟨old, hfind, ⟨hunchanged, hsame, -⟩ | ⟨cells, hcells, hwritten⟩⟩⟩ :=
    update_cases hupdate
  · cases hnone
  · cases hsame
    exact ⟨row, hfind, fun c hc _ => revises_of_unchanged hunchanged hc⟩
  · cases hwritten with
    | found hfound hpermitted =>
      obtain rfl := Option.some.inj (hfind.symm.trans hfound)
      exact ⟨old, hfind, fun c hc hname =>
        h.revises_of_changedCells hcells hpermitted hc hname now⟩

end Table

/-- The columns of workflows do not interfere. -/
theorem lawful_workflowTable : workflowTable.Lawful where
  nodup := by decide
  fits_default := by
    simp only [workflowTable, List.forall_mem_cons]
    refine ⟨?_, ?_, ?_, ?_, ?_, ?_, ?_, ?_, ?_, ?_, ?_, ?_, nofun⟩
    all_goals
      rintro _ _ (⟨⟨⟩⟩ | ⟨⟨⟩⟩ | ⟨⟨⟩, _⟩ | ⟨⟨⟩⟩)
      first
        | exact .inl rfl
        | exact .inr (by constructor)
  read_write := by
    simp only [workflowTable, List.forall_mem_cons]
    refine ⟨?_, ?_, ?_, ?_, ?_, ?_, ?_, ?_, ?_, ?_, ?_, ?_, nofun⟩
    all_goals
      rintro _ row (⟨⟨⟩⟩ | ⟨rfl, hnullable, hsort⟩)
      · rfl
      · first
          | rfl
          | cases hnullable
  read_write_of_ne := by
    simp [workflowTable]

/-- Nor do those of tasks. -/
theorem lawful_taskTable : taskTable.Lawful where
  nodup := by decide
  fits_default := by
    simp only [taskTable, List.forall_mem_cons]
    refine ⟨?_, ?_, ?_, ?_, ?_, ?_, ?_, ?_, ?_, nofun⟩
    all_goals
      rintro _ _ (⟨⟨⟩⟩ | ⟨⟨⟩⟩ | ⟨⟨⟩, _⟩ | ⟨⟨⟩⟩)
      first
        | exact .inl rfl
        | exact .inr (by constructor)
  read_write := by
    simp only [taskTable, List.forall_mem_cons]
    refine ⟨?_, ?_, ?_, ?_, ?_, ?_, ?_, ?_, ?_, nofun⟩
    all_goals
      rintro _ row (⟨⟨⟩⟩ | ⟨rfl, hnullable, hsort⟩)
      · rfl
      · first
          | rfl
          | cases hnullable
  read_write_of_ne := by
    simp [taskTable]

/-- Nor do those of notifications. -/
theorem lawful_notificationTable : notificationTable.Lawful where
  nodup := by decide
  fits_default := by
    simp only [notificationTable, List.forall_mem_cons]
    refine ⟨?_, ?_, ?_, ?_, ?_, ?_, ?_, ?_, nofun⟩
    all_goals
      rintro _ _ (⟨⟨⟩⟩ | ⟨⟨⟩⟩ | ⟨⟨⟩, _⟩ | ⟨⟨⟩⟩)
      first
        | exact .inl rfl
        | exact .inr (by constructor)
  read_write := by
    simp only [notificationTable, List.forall_mem_cons]
    refine ⟨?_, ?_, ?_, ?_, ?_, ?_, ?_, ?_, nofun⟩
    all_goals
      rintro _ row (⟨⟨⟩⟩ | ⟨rfl, hnullable, hsort⟩)
      · rfl
      · first
          | rfl
          | cases hnullable
  read_write_of_ne := by
    simp [notificationTable]

end Stepwise.Store
