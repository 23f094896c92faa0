import Mathlib.Tactic.Common
import Stepwise.Api.View
import Stepwise.Json.Read
import Stepwise.Proofs.Json.Proper
import Stepwise.Proofs.Workflow.Accepted

/-!
# What is received stays as it is

A value that was read from JSON text is one that JSON can hold. It is stored as it is, and shown as
it is unless it holds a number that JSON does not know.
-/

namespace Stepwise

namespace Fields

theorem mem_set {fields : Fields} {key : Key} {value : Value} {field : Key × Value}
    (h : field ∈ fields.set key value) :
    field ∈ fields ∨ field.2 = value ∧ (field.1 = key ∨ ∃ old ∈ fields, old.1 = field.1) := by
  induction fields with
  | nil =>
    rw [List.mem_singleton.mp h]
    exact .inr ⟨rfl, .inl rfl⟩
  | cons old rest ih =>
    obtain ⟨k, v⟩ := old
    unfold set at h
    split_ifs at h
    · obtain rfl | hrest := List.mem_cons.mp h
      · exact .inr ⟨rfl, .inr ⟨_, List.mem_cons_self, rfl⟩⟩
      · exact .inl (List.mem_cons_of_mem _ hrest)
    · obtain rfl | hrest := List.mem_cons.mp h
      · exact .inl List.mem_cons_self
      · obtain hold | ⟨hvalue, hkey⟩ := ih hrest
        · exact .inl (List.mem_cons_of_mem _ hold)
        · refine .inr ⟨hvalue, hkey.imp_right ?_⟩
          rintro ⟨old, hold, heq⟩
          exact ⟨old, List.mem_cons_of_mem _ hold, heq⟩

theorem named_nil : Named [] := ⟨nofun, .nil⟩

theorem Named.cons {name : String} {value : Value} {rest : Fields} (h : Named rest)
    (hnew : ∀ field ∈ rest, field.1 ≠ .text name) : Named ((.text name, value) :: rest) := by
  refine ⟨List.forall_mem_cons.mpr ⟨⟨name, rfl⟩, h.texts⟩, List.nodup_cons.mpr ⟨?_, h.distinct⟩⟩
  intro hmem
  obtain ⟨field, hfield, heq⟩ := List.mem_map.mp hmem
  exact hnew field hfield heq

/-- Setting a field keeps names distinct. -/
theorem Named.set {fields : Fields} (h : Named fields) (name : String) (value : Value) :
    Named (fields.set (.text name) value) := by
  induction fields with
  | nil => exact named_nil.cons nofun
  | cons field rest ih =>
    obtain ⟨key, old⟩ := field
    obtain ⟨s, rfl⟩ := h.texts _ List.mem_cons_self
    have hapart : ∀ field ∈ rest, field.1 ≠ .text s := fun field hfield heq =>
      (List.nodup_cons.mp h.distinct).1 (List.mem_map.mpr ⟨field, hfield, heq⟩)
    unfold Fields.set
    split_ifs with hsame
    · exact h.tail.cons hapart
    · refine (ih h.tail).cons fun field hfield heq => ?_
      obtain hold | ⟨_, hkey | ⟨old, hold, hkey⟩⟩ := mem_set hfield
      · exact hapart field hold heq
      · rw [heq] at hkey
        cases hkey
        simp at hsame
      · exact hapart old hold (hkey.trans heq)

theorem mem_of_get? {fields : Fields} {key : Key} {value : Value}
    (h : fields.get? key = some value) : ∃ field ∈ fields, field.2 = value := by
  induction fields with
  | nil => cases h
  | cons field rest ih =>
    unfold get? at h
    split_ifs at h
    · cases h
      exact ⟨field, List.mem_cons_self, rfl⟩
    · obtain ⟨found, hfound, heq⟩ := ih h
      exact ⟨found, List.mem_cons_of_mem _ hfound, heq⟩

theorem exists_same_of_get? {fields : Fields} {value : Value}
    (h : fields.get? key = some value) : ∃ field ∈ fields, field.1.same key = true := by
  induction fields with
  | nil => cases h
  | cons field rest ih =>
    obtain ⟨k, v⟩ := field
    unfold get? at h
    split_ifs at h with hsame
    · exact ⟨_, List.mem_cons_self, hsame⟩
    · obtain ⟨found, hfound, hkey⟩ := ih h
      exact ⟨found, List.mem_cons_of_mem _ hfound, hkey⟩

end Fields

namespace Json

/-- A value as it comes from JSON, whatever numbers are in it. -/
abbrev Clean (value : Value) : Prop := Proper (fun _ => True) value

namespace Clean

variable {fields : Fields}

theorem named (h : Clean (.object fields)) : fields.Named := by
  cases h with
  | object hn _ => exact hn

theorem field (h : Clean (.object fields)) : ∀ field ∈ fields, Clean field.2 := by
  cases h with
  | object _ hf => exact hf

theorem items {items : List Value} (h : Clean (.list items)) : ∀ item ∈ items, Clean item := by
  cases h with
  | list hi => exact hi

theorem get? (h : Clean (.object fields)) {key : Key} {value : Value}
    (hget : fields.get? key = some value) : Clean value := by
  obtain ⟨field, hfield, rfl⟩ := Fields.mem_of_get? hget
  exact h.field field hfield

theorem fieldOf (h : Clean (.object fields)) (name : String) : Clean (fields.field name) := by
  unfold Fields.field
  cases hget : fields.get? (.text name) with
  | none => exact .null
  | some value => exact h.get? hget

theorem set (h : Clean (.object fields)) (name : String) {value : Value} (hv : Clean value) :
    Clean (.object (fields.set (.text name) value)) := by
  refine .object (h.named.set name value) fun field hfield => ?_
  obtain hold | ⟨heq, _⟩ := Fields.mem_set hfield
  · exact h.field field hold
  · rw [heq]
    exact hv

theorem merge (h : Clean (.object fields)) {extra : Fields}
    (he : ∀ field ∈ extra, (∃ s, field.1 = .text s) ∧ Clean field.2) :
    Clean (.object (fields.merge extra)) := by
  induction extra generalizing fields with
  | nil => exact h
  | cons field rest ih =>
    obtain ⟨⟨⟨s, hs⟩, hv⟩, hrest⟩ := List.forall_mem_cons.mp he
    obtain ⟨key, value⟩ := field
    obtain rfl : key = .text s := hs
    exact ih (h.set s hv) hrest

end Clean

theorem clean_ofList {entries : Fields}
    (h : ∀ field ∈ entries, (∃ s, field.1 = .text s) ∧ Clean field.2) :
    Clean (.object (Fields.ofList entries)) :=
  Clean.merge (.object Fields.named_nil nofun : Clean (.object [])) h

/-! ## Reading -/

theorem clean_readNumber {cursor after : Cursor} {value : Value}
    (h : readNumber cursor = .ok (value, after)) : Clean value := by
  unfold readNumber at h
  dsimp only at h
  -- Whatever its parts are, the text is refused or comes to a whole number or a double.
  split_ifs at h <;> cases h
  all_goals first | exact .int _ | exact .double trivial

theorem clean_readWord {cursor after : Cursor} {value : Value}
    (h : readWord cursor = .ok (value, after)) : Clean value := by
  unfold readWord at h
  dsimp only at h
  split at h
  · rename_i word found hfind
    cases h
    have hmem := List.mem_of_find?_eq_some hfind
    simp only [List.mem_cons, Prod.mk.injEq, List.not_mem_nil, or_false] at hmem
    obtain ⟨_, rfl⟩ | ⟨_, rfl⟩ | ⟨_, rfl⟩ | ⟨_, rfl⟩ | ⟨_, rfl⟩ | ⟨_, rfl⟩ := hmem
    · exact .null
    · exact .bool true
    · exact .bool false
    · exact .double trivial
    · exact .double trivial
    · exact .double trivial
  · exact clean_readNumber h

/-- Values, items and fields read each other with less fuel, so the induction is on all three. -/
theorem clean_of_fuel (fuel : Nat) :
    (∀ cursor value after, readValue fuel cursor = .ok (value, after) → Clean value) ∧
    (∀ cursor items after, readItems fuel cursor = .ok (items, after) →
      ∀ item ∈ items, Clean item) ∧
    ∀ cursor fields after, readFields fuel cursor = .ok (fields, after) →
      ∀ field ∈ fields, (∃ s, field.1 = .text s) ∧ Clean field.2 := by
  induction fuel with
  | zero =>
    refine ⟨fun _ _ _ h => ?_, fun _ _ _ h => ?_, fun _ _ _ h => ?_⟩
    · rw [readValue] at h
      cases h
    · rw [readItems] at h
      cases h
    · rw [readFields] at h
      cases h
  | succ fuel ih =>
    obtain ⟨ihvalue, ihitems, ihfields⟩ := ih
    refine ⟨fun cursor value after h => ?_, fun cursor items after h => ?_,
      fun cursor fields after h => ?_⟩
    · rw [readValue] at h
      split at h
      · obtain ⟨_, _, h⟩ := Except.ok_of_bind h
        cases h
        exact .text _
      · dsimp only at h
        split at h
        · cases h
          exact .list nofun
        · obtain ⟨_, hitems, h⟩ := Except.ok_of_bind h
          cases h
          exact .list (ihitems _ _ _ hitems)
      · dsimp only at h
        split at h
        · cases h
          exact .object Fields.named_nil nofun
        · obtain ⟨_, hfields, h⟩ := Except.ok_of_bind h
          cases h
          exact clean_ofList (ihfields _ _ _ hfields)
      · exact clean_readWord h
    · rw [readItems] at h
      obtain ⟨_, hvalue, h⟩ := Except.ok_of_bind h
      dsimp only at h
      split at h
      · cases h
        exact List.forall_mem_singleton.mpr (ihvalue _ _ _ hvalue)
      · obtain ⟨_, hitems, h⟩ := Except.ok_of_bind h
        cases h
        exact List.forall_mem_cons.mpr ⟨ihvalue _ _ _ hvalue, ihitems _ _ _ hitems⟩
      · cases h
    · rw [readFields] at h
      split at h
      · obtain ⟨_, _, h⟩ := Except.ok_of_bind h
        dsimp only at h
        split at h
        · obtain ⟨_, hvalue, h⟩ := Except.ok_of_bind h
          split at h
          · cases h
            exact List.forall_mem_singleton.mpr ⟨⟨_, rfl⟩, ihvalue _ _ _ hvalue⟩
          · obtain ⟨_, hfields, h⟩ := Except.ok_of_bind h
            cases h
            exact List.forall_mem_cons.mpr
              ⟨⟨⟨_, rfl⟩, ihvalue _ _ _ hvalue⟩, ihfields _ _ _ hfields⟩
          · cases h
        · cases h
      · cases h

theorem clean_read {s : List Char} {value : Value} (h : read s = .ok value) : Clean value := by
  unfold read at h
  obtain ⟨_, hvalue, h⟩ := Except.ok_of_bind h
  dsimp only at h
  split at h
  · cases h
    exact (clean_of_fuel _).1 _ _ _ hvalue
  · cases h

/-- What a body is read as is a value that JSON can hold. -/
theorem clean_readBody {s : List Char} {value : Value} (h : readBody s = .ok value) :
    Clean value := by
  unfold readBody at h
  split at h
  · exact clean_read h
  · exact clean_read h

end Json

/-! ## Showing -/

namespace Api

open Json

theorem shownItems_eq_map (items : List Value) : shownItems items = items.map shown := by
  induction items with
  | nil => rfl
  | cons item rest ih => rw [shownItems, ih, List.map_cons]

theorem shownFields_eq_map (fields : Fields) : shownFields fields = fields.map fun field =>
    (.text (shownKey field.1), shown field.2) := by
  induction fields with
  | nil => rfl
  | cons field rest ih => rw [shownFields, ih, List.map_cons]

theorem finiteItems_iff {items : List Value} :
    finiteItems items = true ↔ ∀ item ∈ items, isFinite item = true := by
  induction items with
  | nil => simp [finiteItems]
  | cons item rest ih => simp [finiteItems, ih]

theorem isFinite_of_finiteFields {fields : Fields} (h : finiteFields fields = true) :
    ∀ field ∈ fields, isFinite field.2 = true := by
  induction fields with
  | nil => nofun
  | cons field rest ih =>
    simp only [finiteFields, Bool.and_eq_true] at h
    exact List.forall_mem_cons.mpr ⟨h.1.2, ih h.2⟩

/-- Without infinite numbers and without NaN, what JSON can hold is shown as it is. -/
theorem shown_of_finite {value : Value} (h : Clean value) (hf : isFinite value = true) :
    shown value = value := by
  induction h with
  | @double x _ =>
    have hx : x.isFinite = true := hf
    rw [shown, if_pos hx]
  | @list items _ ih =>
    have hitems := finiteItems_iff.mp hf
    rw [shown, shownItems_eq_map, List.map_congr_left fun item hitem =>
      ih item hitem (hitems item hitem), List.map_id']
  | @object fields hn _ ih =>
    have hvalues : ∀ field ∈ fields, isFinite field.2 = true := isFinite_of_finiteFields hf
    have hfields : shownFields fields = fields := by
      rw [shownFields_eq_map]
      refine (List.map_congr_left fun field hfield => ?_).trans (List.map_id fields)
      obtain ⟨key, value⟩ := field
      obtain ⟨s, rfl⟩ := hn.texts _ hfield
      have hvalue : shown value = value := ih _ hfield (hvalues _ hfield)
      simp [hvalue, shownKey, keyText]
    rw [shown, hfields, Fields.ofList_of_named hn]
  | _ => rfl

end Api

end Stepwise
