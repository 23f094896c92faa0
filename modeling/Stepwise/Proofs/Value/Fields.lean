import Mathlib.Tactic.Common
import Stepwise.Proofs.Json.Received

/-!
# Fields with distinct names

The fields of an object and the variables of a run have distinct names, which setting a field keeps.
So the field of a name is the only one, and a lookup finds it.
-/

namespace Stepwise.Fields

theorem field_of_get? {fields : Fields} {name : String} {value : Value}
    (h : fields.get? (.text name) = some value) : fields.field name = value := by
  rw [field, h, Option.getD_some]

theorem field_of_get?_eq_none {fields : Fields} {name : String}
    (h : fields.get? (.text name) = none) : fields.field name = .null := by
  rw [field, h, Option.getD_none]

/-- A field that is not null is there. -/
theorem get?_of_field_ne_null {fields : Fields} {name : String} (h : fields.field name ≠ .null) :
    fields.get? (.text name) = some (fields.field name) := by
  cases hget : fields.get? (.text name) with
  | none => exact absurd (field_of_get?_eq_none hget) h
  | some value => rw [field_of_get? hget]

/-- No two fields have one name. -/
def Apart (fields : Fields) : Prop := fields.Pairwise fun a b => a.1.same b.1 = false

theorem Apart.set {fields : Fields} (h : Apart fields) (key : Key) (value : Value) :
    Apart (fields.set key value) := by
  induction fields with
  | nil => exact List.pairwise_singleton _ _
  | cons field rest ih =>
    obtain ⟨hfield, hrest⟩ := List.pairwise_cons.mp h
    obtain ⟨k, v⟩ := field
    unfold Fields.set
    split_ifs with hsame
    · exact List.pairwise_cons.mpr ⟨hfield, hrest⟩
    · refine List.pairwise_cons.mpr ⟨fun new hnew => ?_, ih hrest⟩
      obtain hold | ⟨_, hkey | ⟨old, hold, hkey⟩⟩ := mem_set hnew
      · exact hfield new hold
      · rw [hkey]
        exact Bool.eq_false_iff.mpr hsame
      · rw [← hkey]
        exact hfield old hold

/-- Names that are texts are distinct ones if no two fields have one name. -/
theorem Apart.named {fields : Fields} (h : Apart fields)
    (ht : ∀ field ∈ fields, ∃ s, field.1 = .text s) : Named fields where
  texts := ht
  distinct := by
    refine List.pairwise_map.mpr (List.Pairwise.imp_of_mem (fun ha _ hsame heq => ?_) h)
    obtain ⟨s, hs⟩ := ht _ ha
    rw [← heq, hs, Key.same_text, beq_self_eq_true] at hsame
    cases hsame

/-- Of fields with distinct names the one of a text name is found. -/
theorem get?_text_eq_some_iff {fields : Fields} (h : Apart fields) {name : String} {value : Value} :
    fields.get? (.text name) = some value ↔ (.text name, value) ∈ fields := by
  induction fields with
  | nil => simp
  | cons field rest ih =>
    obtain ⟨key, first⟩ := field
    obtain ⟨hfirst, hrest⟩ := List.pairwise_cons.mp h
    rw [get?, List.mem_cons, Prod.mk.injEq]
    by_cases hkey : key = .text name
    · subst hkey
      have hnew : (.text name, value) ∉ rest := fun hmem => by
        simpa using hfirst _ hmem
      simp [hnew, eq_comm]
    · have hother : key.same (.text name) = false := by
        cases key <;> simp_all [Key.same, Extent.coincide, Key.extent?]
      simp [hother, Ne.symm hkey, ih hrest]

theorem get?_text_eq_none_iff {fields : Fields} (h : Apart fields) {name : String} :
    fields.get? (.text name) = none ↔ ∀ value, (.text name, value) ∉ fields := by
  simp only [← get?_text_eq_some_iff h, Option.eq_none_iff_forall_ne_some, ne_eq]

theorem same_text_iff {key : Key} {name : String} :
    key.same (.text name) = true ↔ key = .text name := by
  cases key <;> simp [Key.same, Extent.coincide, Key.extent?]

/-- A field that was set is found, and the others are found as before. -/
theorem get?_set_text (fields : Fields) (name other : String) (value : Value) :
    (fields.set (.text name) value).get? (.text other) =
      if name = other then some value else fields.get? (.text other) := by
  induction fields with
  | nil => simp [set, get?]
  | cons field rest ih =>
    obtain ⟨key, first⟩ := field
    unfold set
    by_cases hkey : key = .text name
    · subst hkey
      rw [if_pos (same_text_iff.mpr rfl), get?, get?, Key.same_text]
      by_cases hname : name = other
      · simp [hname]
      · simp [hname]
    · rw [if_neg (mt same_text_iff.mp hkey), get?, get?, ih]
      by_cases hother : key = .text other
      · subst hother
        have hname : name ≠ other := fun h => hkey (h ▸ rfl)
        simp [hname]
      · rw [if_neg (mt same_text_iff.mp hother), if_neg (mt same_text_iff.mp hother)]

theorem Named.apart {fields : Fields} (h : Named fields) : Apart fields := by
  refine (List.pairwise_map.mp h.distinct).imp_of_mem fun ha hb hne => ?_
  obtain ⟨s, hs⟩ := h.texts _ ha
  obtain ⟨t, ht⟩ := h.texts _ hb
  rw [hs, ht, Key.same_text, beq_eq_false_iff_ne]
  exact fun hst => hne (by rw [hs, ht, hst])

end Stepwise.Fields
