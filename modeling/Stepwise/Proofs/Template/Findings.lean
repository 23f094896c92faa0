import Stepwise.Proofs.Json.Received
import Stepwise.Template.Interpolate

/-!
# What templates find

What is found inside a value that JSON can hold is such a value too. The root that paths begin at
need not be one, since the variables under it may have any names, but all below it is.
-/

namespace Stepwise

namespace Json

/-- The items or fields of the value are such as JSON can hold, whatever names the fields have. -/
structure Within (value : Value) : Prop where
  items : ∀ items, value = .list items → ∀ item ∈ items, Clean item
  fields : ∀ fields, value = .object fields → ∀ field ∈ fields, Clean field.2

theorem Clean.within {value : Value} (h : Clean value) : Within value where
  items := by
    rintro items rfl
    exact h.items
  fields := by
    rintro fields rfl
    exact h.field

end Json

namespace Template

open Json

variable {value found : Value} {root : Fields}

theorem clean_step (h : Within value) {segment : List Char}
    (hs : step value segment = .ok (some found)) : Clean found := by
  unfold step at hs
  split at hs
  · rename_i fields
    obtain ⟨field, hfield, rfl⟩ := Fields.mem_of_get? (Except.ok.inj hs)
    exact h.fields fields rfl field hfield
  · rename_i items
    split_ifs at hs
    · cases hs
    · cases hr : readIndex segment with
      | error fault =>
        rw [hr] at hs
        cases hs
      | ok i =>
        rw [hr] at hs
        exact h.items items rfl found (List.mem_of_getElem? (Except.ok.inj hs))
  · cases hs

theorem within_walk {path : List (List Char)} (h : Within value)
    (hw : walk value path = .ok (some found)) : Within found := by
  induction path generalizing value with
  | nil =>
    cases hw
    exact h
  | cons segment rest ih =>
    obtain ⟨next, hnext, hrest⟩ := Except.ok_of_bind hw
    cases next with
    | none => cases hrest
    | some next => exact ih (clean_step h hnext).within hrest

theorem exists_segments (path : List Char) :
    ∃ first rest, segments path = first :: rest := by
  unfold segments
  cases Text.trim path with
  | nil => exact ⟨[], [], rfl⟩
  | cons c rest =>
    unfold splitOn
    split_ifs
    · exact ⟨_, _, rfl⟩
    · split
      · exact ⟨_, _, rfl⟩
      · exact ⟨_, _, rfl⟩

theorem within_lookup (h : ∀ field ∈ root, Within field.2) {path : List Char}
    (hl : lookup path root = .ok (some found)) : Within found := by
  obtain ⟨first, rest, hpath⟩ := exists_segments path
  unfold lookup at hl
  rw [hpath] at hl
  dsimp only at hl
  split_ifs at hl
  · obtain ⟨next, hnext, hrest⟩ := Except.ok_of_bind hl
    cases next with
    | none => cases hrest
    | some next =>
      obtain ⟨field, hfield, rfl⟩ := Fields.mem_of_get? (Except.ok.inj hnext)
      exact within_walk (h field hfield) hrest
  · split at hl
    · rename_i vars hvars
      obtain ⟨field, hfield, heq⟩ := Fields.mem_of_get? hvars
      exact within_walk (heq ▸ h field hfield) hl
    · cases hl

/-- Filling a template gives a text, or the value that stood in its place. -/
theorem clean_interpolate (h : Clean value) (hi : interpolate root value = .ok found) :
    Clean found := by
  cases value with
  | text s =>
    cases hf : fill root s.toList with
    | error fault =>
      rw [interpolate, hf] at hi
      cases hi
    | ok filled =>
      rw [interpolate, hf] at hi
      cases hi
      exact .text _
  | _ =>
    cases hi
    exact h

theorem within_resolve (hroot : ∀ field ∈ root, Within field.2) (h : Clean value)
    (hr : resolve root value = .ok found) : Within found := by
  unfold resolve at hr
  split at hr
  · split at hr
    · obtain ⟨at?, hat, hrest⟩ := Except.ok_of_bind hr
      cases at? with
      | none => exact (clean_interpolate h hrest).within
      | some value =>
        cases hrest
        exact within_lookup hroot hat
    · exact (clean_interpolate h hr).within
  · cases hr
    exact h.within

end Template

end Stepwise
