import Mathlib.Tactic.Common
import Stepwise.Api.View
import Stepwise.Proofs.Api.Reading
import Stepwise.Proofs.Workflow.Acceptance
import Stepwise.Proofs.Workflow.Revision

/-!
# Steps that are submitted again

The rows of a step set that was read from a request can themselves be submitted: they are shown with
everything that the reading of a step asks for, their ids serve as names, and their references lead
to one another. They are then stored under new ids, and are otherwise as they were.
-/

namespace Stepwise.Workflow

open Store StepSet Json Api

/-- The rows of the steps of a workflow, as they are after steps were submitted. -/
structure Presentable (rows : List StepRow) : Prop where
  id : ∀ row ∈ rows, row.id ≠ ""
  ids : (rows.map (·.id)).Nodup
  position : ∀ (i : Nat) (row : StepRow), rows[i]? = some row → row.position = i
  name : ∀ row ∈ rows, row.name ≠ ""
  kind : ∀ row ∈ rows, ∃ kind : StepKind, row.type = kind.name
  config : ∀ row ∈ rows, ∃ fields, row.config = .object fields ∧ Clean (.object fields)
  parent : ∀ row ∈ rows, ∀ id, row.parent = some id → ∃ target ∈ rows, target.id = id ∧
    ∃ kind, StepKind.ofName? target.type = some kind ∧ kind.isContainer = true
  next : ∀ row ∈ rows, ∀ id, row.next = some id → ∃ target ∈ rows, target.id = id

theorem object_orElse (fields : Fields) :
    (Value.object fields).orElse (.object []) = .object fields := by
  cases fields <;> rfl

/-- What is stored for submitted steps can be submitted again. -/
theorem ShowsSet.presentable {now : Instant} {workflow : String} {first : Nat}
    {steps : List Fields} {rows : List StepRow} (h : ShowsSet now workflow first steps rows)
    (hs : ∀ step ∈ steps, Submitted step) : Presentable rows := by
  have hshown {row : StepRow} (hrow : row ∈ rows) : ∃ (s : SubmittedStep) (i : Nat), s.Sound ∧
      steps[i]? = some s.toFields ∧ rows[i]? = some row ∧
      ShowsStep now workflow (freshId (first + i)) i s.toFields row := by
    obtain ⟨i, hi⟩ := List.mem_iff_getElem?.mp hrow
    obtain ⟨step, hstep, hshows⟩ := h.showsStep hi
    obtain ⟨s, hsound, rfl⟩ := hs step (List.mem_of_getElem? hstep)
    exact ⟨s, i, hsound, hstep, hi, hshows⟩
  refine ⟨fun row hrow => ?_, h.nodup_ids, fun i row hi => ?_, fun row hrow => ?_,
    fun row hrow => ?_, fun row hrow => ?_, h.container, fun row hrow id hid => ?_⟩
  · obtain ⟨_, _, _, _, _, hshows⟩ := hshown hrow
    rw [hshows.id_eq]
    intro hempty
    have := congrArg String.length hempty
    simp [freshId] at this
  · obtain ⟨_, _, hshows⟩ := h.showsStep hi
    exact hshows.position_eq
  · obtain ⟨s, _, hsound, _, _, hshows⟩ := hshown hrow
    have hname : some s.name = some row.name := hshows.name_eq
    exact Option.some.inj hname ▸ hsound.name
  · obtain ⟨s, _, _, _, _, hshows⟩ := hshown hrow
    have htype : some s.kind.name = some row.type := hshows.type_eq
    exact ⟨s.kind, (Option.some.inj htype).symm⟩
  · obtain ⟨s, _, hsound, _, _, hshows⟩ := hshown hrow
    have hconfig : row.config = settle ((Value.object s.config).orElse (.object [])) :=
      hshows.config_eq
    rw [object_orElse, settle_of_proper hsound.config] at hconfig
    exact ⟨s.config, hconfig, hsound.config⟩
  · obtain ⟨_, i, _, hstep, hi, _⟩ := hshown hrow
    exact (h.next i _ row hstep hi).exists_row id hid

/-! ## The rows as submitted steps -/

/-- A row read as a submitted step, which is named by its id. -/
def asSubmitted (row : StepRow) : SubmittedStep where
  handle := some row.id
  name := row.name
  kind := (StepKind.ofName? row.type).getD .action
  config := match row.config with
    | .object fields => fields
    | _ => []
  parent := row.parent
  next := row.next

/-- The fields that are submitted for a row. -/
def resubmitted (row : StepRow) : Fields := (asSubmitted row).toFields

namespace Presentable

variable {rows : List StepRow} {row : StepRow}

theorem kind_eq (h : Presentable rows) (hrow : row ∈ rows) :
    (asSubmitted row).kind.name = row.type := by
  obtain ⟨kind, hkind⟩ := h.kind row hrow
  show ((StepKind.ofName? row.type).getD .action).name = row.type
  rw [hkind, StepKind.ofName?_name, Option.getD_some]

theorem config_eq (h : Presentable rows) (hrow : row ∈ rows) :
    Value.object (asSubmitted row).config = row.config := by
  obtain ⟨fields, hconfig, _⟩ := h.config row hrow
  unfold asSubmitted
  rw [hconfig]

theorem clean_config (h : Presentable rows) (hrow : row ∈ rows) : Clean row.config := by
  obtain ⟨fields, hconfig, hclean⟩ := h.config row hrow
  exact hconfig ▸ hclean

/-- What is read is fit to be stored. -/
theorem submitted (h : Presentable rows) (hrow : row ∈ rows) : Submitted (resubmitted row) :=
  ⟨asSubmitted row, ⟨h.name row hrow, (h.config_eq hrow).symm ▸ h.clean_config hrow⟩, rfl⟩

end Presentable

theorem ownName?_resubmitted {row : StepRow} (h : row.id ≠ "") :
    ownName? (resubmitted row) = some (.text row.id) := by
  have htruthy : (Value.text row.id).isTruthy = true := by
    simpa [Value.isTruthy] using h
  show (if (Value.text row.id).isTruthy = true then some (Key.text row.id) else none) = _
  rw [if_pos htruthy]

/-- Rows refer to one another by ids as the steps submitted for them do by names. -/
theorem names_resubmitted_iff {field : String} {step : Fields} {link : Option String}
    {target : StepRow} (hfield : step.field field = .ofText? link) (h : target.id ≠ "") :
    Names step field (resubmitted target) ↔ link = some target.id := by
  unfold Names
  rw [hfield, ownName?_resubmitted h]
  cases link with
  | none =>
    refine iff_of_false ?_ nofun
    rintro ⟨key, own, hkey, hown, hsame⟩
    cases hkey
    cases hown
    cases hsame
  | some id =>
    constructor
    · rintro ⟨key, own, hkey, hown, hsame⟩
      cases hkey
      cases hown
      rw [Key.same_text, beq_iff_eq] at hsame
      rw [hsame]
    · intro heq
      cases heq
      exact ⟨_, _, rfl, rfl, by rw [Key.same_text, beq_iff_eq]⟩

theorem field_parent_resubmitted (row : StepRow) :
    (resubmitted row).field "parent_id" = .ofText? row.parent := rfl

theorem field_next_resubmitted (row : StepRow) :
    (resubmitted row).field "next_step_id" = .ofText? row.next := rfl

/-! ## Acceptance -/

theorem formed_resubmitted (row : StepRow) : Formed (resubmitted row) where
  name := ⟨row.name, rfl⟩
  type := ⟨(asSubmitted row).kind.name, rfl⟩
  id _ := ⟨.text row.id, rfl⟩

namespace Presentable

variable {rows : List StepRow} {row : StepRow}

theorem apart (h : Presentable rows) (first : Nat) :
    Apart (entries first (rows.map resubmitted)) := by
  refine apart_entries ?_
  rw [List.pairwise_map]
  have hids := h.ids
  rw [List.Nodup, List.pairwise_map] at hids
  refine hids.imp_of_mem fun ha hb hne x y hx hy => ?_
  rw [ownName?_resubmitted (h.id _ ha)] at hx
  rw [ownName?_resubmitted (h.id _ hb)] at hy
  cases hx
  cases hy
  simpa using hne

/-- A reference to a row leads to what is submitted for it. -/
theorem refers (h : Presentable rows) (first : Nat) {target : StepRow} (ht : target ∈ rows) :
    ∃ known, Refers (entries first (rows.map resubmitted)) (.text target.id) (some known) ∧
      known.type = .text target.type := by
  obtain ⟨j, hj⟩ := List.mem_iff_getElem?.mp ht
  have hother : (rows.map resubmitted)[j]? = some (resubmitted target) := by
    rw [List.getElem?_map, hj]
    rfl
  have hkey : (Value.text target.id).toKey? = some (.text target.id) := rfl
  obtain ⟨known, hrefers, htype⟩ := exists_refers (h.apart first)
    hkey nofun hother (formed_resubmitted target).complete (ownName?_resubmitted (h.id _ ht))
    (by rw [Key.same_text, beq_iff_eq])
  have htype' : (resubmitted target).get? (.text "type") =
      some (.text (asSubmitted target).kind.name) := rfl
  rw [htype', h.kind_eq ht] at htype
  exact ⟨known, hrefers, (Option.some.inj htype).symm⟩

theorem resolves (h : Presentable rows) (first : Nat) (hrow : row ∈ rows) :
    Resolves (entries first (rows.map resubmitted)) (resubmitted row) where
  parent := by
    rw [field_parent_resubmitted]
    cases hparent : row.parent with
    | none => exact ⟨none, .nothing rfl, nofun⟩
    | some id =>
      obtain ⟨target, ht, rfl, kind, hkind, hcontainer⟩ := h.parent row hrow id hparent
      obtain ⟨known, hrefers, htype⟩ := h.refers first ht
      refine ⟨some known, hrefers, fun parent heq => ?_⟩
      cases heq
      rw [htype, isContainerType, hkind]
      exact congrArg Except.ok hcontainer
  next := by
    rw [field_next_resubmitted]
    cases hnext : row.next with
    | none => exact ⟨none, .nothing rfl⟩
    | some id =>
      obtain ⟨target, ht, rfl⟩ := h.next row hrow id hnext
      obtain ⟨known, hrefers, _⟩ := h.refers first ht
      exact ⟨some known, hrefers⟩

/-- The rows of a workflow are accepted as steps, and can be stored as such. -/
theorem accepted (h : Presentable rows) (now : Instant) (workflow : String) (first : Nat) :
    ∃ built stored, (build workflow first (rows.map resubmitted)).1 = .ok built ∧
      built.mapM (stepRow now) = .ok stored := by
  have hformed : ∀ step ∈ rows.map resubmitted, Formed step := by
    intro step hstep
    obtain ⟨row, _, rfl⟩ := List.mem_map.mp hstep
    exact formed_resubmitted row
  have hresolves : ∀ step ∈ rows.map resubmitted,
      Resolves (entries first (rows.map resubmitted)) step := by
    intro step hstep
    obtain ⟨row, hrow, rfl⟩ := List.mem_map.mp hstep
    exact h.resolves first hrow
  have hcomplete : ∀ step ∈ rows.map resubmitted, Complete step :=
    fun step hstep => (hformed step hstep).complete
  obtain ⟨built, hbuilt⟩ := exists_build hcomplete (h.apart first) hresolves workflow
  obtain ⟨stored, hstored⟩ := (built_of_build hbuilt).1.exists_rows hformed now
  exact ⟨built, stored, by rw [hbuilt], hstored⟩

end Presentable

/-! ## What is left as it was -/

/-- A link leads from one of the rows to another if and only if it does so between the rows of the
same indices. -/
structure MirrorsLink (link : StepRow → Option String) (before after : List StepRow) : Prop where
  none_iff : ∀ (i : Nat) (old new : StepRow), before[i]? = some old → after[i]? = some new →
    (link new = none ↔ link old = none)
  some_iff : ∀ (i j : Nat) (old new target target' : StepRow), before[i]? = some old →
    after[i]? = some new → before[j]? = some target → after[j]? = some target' →
    (link new = some target'.id ↔ link old = some target.id)

/-- The rows are as others but for their ids, to which references are adapted, and for the times at
which they were stored. -/
structure Mirrors (before after : List StepRow) : Prop where
  length_eq : after.length = before.length
  row : ∀ (i : Nat) (old new : StepRow), before[i]? = some old → after[i]? = some new →
    new.name = old.name ∧ new.type = old.type ∧ new.config = old.config ∧
      new.position = old.position
  parent : MirrorsLink (·.parent) before after
  next : MirrorsLink (·.next) before after

theorem MirrorsLink.refl (link : StepRow → Option String) (rows : List StepRow) :
    MirrorsLink link rows rows where
  none_iff i old new hold hnew := by
    cases hold.symm.trans hnew
    rfl
  some_iff i j old new target target' hold hnew ht ht' := by
    cases hold.symm.trans hnew
    cases ht.symm.trans ht'
    rfl

theorem exists_between {a b : List StepRow} (h : b.length = a.length) {i : Nat} {old : StepRow}
    (hold : a[i]? = some old) : ∃ middle, b[i]? = some middle := by
  obtain ⟨hi, _⟩ := List.getElem?_eq_some_iff.mp hold
  exact ⟨_, List.getElem?_eq_getElem (h.symm ▸ hi)⟩

theorem MirrorsLink.trans {link : StepRow → Option String} {a b c : List StepRow}
    (h : MirrorsLink link a b) (h' : MirrorsLink link b c) (hlength : b.length = a.length) :
    MirrorsLink link a c where
  none_iff i old new hold hnew := by
    obtain ⟨middle, hmiddle⟩ := exists_between hlength hold
    exact (h'.none_iff i middle new hmiddle hnew).trans (h.none_iff i old middle hold hmiddle)
  some_iff i j old new target target' hold hnew ht ht' := by
    obtain ⟨middle, hmiddle⟩ := exists_between hlength hold
    obtain ⟨between, hbetween⟩ := exists_between hlength ht
    exact (h'.some_iff i j middle new between target' hmiddle hnew hbetween ht').trans
      (h.some_iff i j old middle target between hold hmiddle ht hbetween)

namespace Mirrors

theorem refl (rows : List StepRow) : Mirrors rows rows where
  length_eq := rfl
  row i old new hold hnew := by
    cases hold.symm.trans hnew
    exact ⟨rfl, rfl, rfl, rfl⟩
  parent := .refl _ rows
  next := .refl _ rows

theorem trans {a b c : List StepRow} (h : Mirrors a b) (h' : Mirrors b c) : Mirrors a c where
  length_eq := h'.length_eq.trans h.length_eq
  row i old new hold hnew := by
    obtain ⟨middle, hmiddle⟩ := exists_between h.length_eq hold
    obtain ⟨hname, htype, hconfig, hposition⟩ := h.row i old middle hold hmiddle
    obtain ⟨hname', htype', hconfig', hposition'⟩ := h'.row i middle new hmiddle hnew
    exact ⟨hname'.trans hname, htype'.trans htype, hconfig'.trans hconfig,
      hposition'.trans hposition⟩
  parent := h.parent.trans h'.parent h.length_eq
  next := h.next.trans h'.next h.length_eq

end Mirrors

theorem ofText?_eq_null {link : Option String} : Value.ofText? link = .null ↔ link = none := by
  cases link <;> simp [Value.ofText?]

/-- Links that show the references submitted for others mirror them. -/
theorem Presentable.mirrorsLink {rows rows' : List StepRow} (h : Presentable rows)
    {link : StepRow → Option String} {field : String}
    (hfield : ∀ row, (resubmitted row).field field = .ofText? (link row))
    (hlink : ∀ (i : Nat) (step : Fields) (row : StepRow), (rows.map resubmitted)[i]? = some step →
      rows'[i]? = some row → ShowsLink (rows.map resubmitted) rows' (step.field field)
        (Names step field) (link row)) : MirrorsLink link rows rows' := by
  have hstep {i : Nat} {old : StepRow} (hold : rows[i]? = some old) :
      (rows.map resubmitted)[i]? = some (resubmitted old) := by
    rw [List.getElem?_map, hold]
    rfl
  refine ⟨fun i old new hold hnew => ?_, fun i j old new target target' hold hnew ht ht' => ?_⟩
  · have hnone := (hlink i _ new (hstep hold) hnew).none_iff
    rwa [hfield, ofText?_eq_null] at hnone
  · have hsome := (hlink i _ new (hstep hold) hnew).some_iff j _ target' (hstep ht) ht'
    exact hsome.trans (names_resubmitted_iff (hfield old) (h.id target (List.mem_of_getElem? ht)))

/-- Rows that show what is submitted for others mirror them. -/
theorem Presentable.mirrors {rows rows' : List StepRow} (h : Presentable rows) {now : Instant}
    {workflow : String} {first : Nat}
    (hs : ShowsSet now workflow first (rows.map resubmitted) rows') : Mirrors rows rows' := by
  refine ⟨by rw [hs.length_eq, List.length_map], fun i old new hold hnew => ?_,
    h.mirrorsLink field_parent_resubmitted hs.parent,
    h.mirrorsLink field_next_resubmitted hs.next⟩
  have hmem := List.mem_of_getElem? hold
  have hstep : (rows.map resubmitted)[i]? = some (resubmitted old) := by
    rw [List.getElem?_map, hold]
    rfl
  have hshows := hs.step i _ new hstep hnew
  have hname : some old.name = some new.name := hshows.name_eq
  have htype : some (asSubmitted old).kind.name = some new.type := hshows.type_eq
  have hconfig : new.config =
      settle ((Value.object (asSubmitted old).config).orElse (.object [])) := hshows.config_eq
  rw [h.kind_eq hmem] at htype
  rw [object_orElse, h.config_eq hmem, settle_of_proper (h.clean_config hmem)] at hconfig
  exact ⟨(Option.some.inj hname).symm, (Option.some.inj htype).symm, hconfig,
    hshows.position_eq.trans (h.position i old hold).symm⟩

end Stepwise.Workflow
