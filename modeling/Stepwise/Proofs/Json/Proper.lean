import Mathlib.Data.List.Nodup
import Mathlib.Tactic.Common
import Stepwise.Json.Write

/-!
# Values that JSON can hold

In a value that was read from JSON, the name of every field is a text, and no two fields of an
object have one name. Storing such a value and reading it back changes nothing.
-/

namespace Stepwise

namespace Fields

/-- A field that is not there comes last. -/
theorem set_of_absent {fields : Fields} {key : Key} (h : ∀ field ∈ fields, field.1.same key = false)
    (value : Value) : fields.set key value = fields ++ [(key, value)] := by
  induction fields with
  | nil => rfl
  | cons field rest ih =>
    obtain ⟨hfield, hrest⟩ := List.forall_mem_cons.mp h
    simp [set, hfield, ih hrest]

/-- The names of the fields are texts, and no two of them are the same. -/
structure Named (fields : Fields) : Prop where
  texts : ∀ field ∈ fields, ∃ s, field.1 = .text s
  distinct : (fields.map (·.1)).Nodup

theorem Named.tail {field : Key × Value} {rest : Fields} (h : Named (field :: rest)) :
    Named rest :=
  ⟨fun field hfield => h.texts field (List.mem_cons_of_mem _ hfield),
    (List.nodup_cons.mp h.distinct).2⟩

theorem merge_of_named {fields : Fields} (h : Named fields) {before : Fields}
    (hbefore : ∀ field ∈ fields, ∀ old ∈ before, old.1.same field.1 = false) :
    merge before fields = before ++ fields := by
  induction fields generalizing before with
  | nil => exact (List.append_nil before).symm
  | cons field rest ih =>
    obtain ⟨hfield, hrest⟩ := List.forall_mem_cons.mp hbefore
    have hset : before.set field.1 field.2 = before ++ [field] := set_of_absent hfield _
    show merge (before.set field.1 field.2) rest = _
    rw [hset, ih h.tail, List.append_assoc, List.singleton_append]
    intro later hlater old hold
    obtain hold | hold := List.mem_append.mp hold
    · exact hrest later hlater old hold
    · rw [List.mem_singleton.mp hold]
      obtain ⟨s, hs⟩ := h.texts field List.mem_cons_self
      obtain ⟨t, ht⟩ := h.texts later (List.mem_cons_of_mem _ hlater)
      have hne : field.1 ≠ later.1 := fun heq =>
        (List.nodup_cons.mp h.distinct).1 (List.mem_map.mpr ⟨later, hlater, heq.symm⟩)
      rw [hs, ht, Key.same_text, beq_eq_false_iff_ne]
      exact fun hst => hne (by rw [hs, ht, hst])

/-- Distinct names stay as they are written. -/
theorem ofList_of_named {fields : Fields} (h : Named fields) : ofList fields = fields :=
  merge_of_named h fun _ _ _ hold => nomatch hold

end Fields

namespace Json

/-- A value as it comes from JSON: the names of fields are texts, no two fields of an object have
one name, and the doubles are allowed ones. -/
inductive Proper (allowed : Double → Prop) : Value → Prop
  | null : Proper allowed .null
  | bool (b : Bool) : Proper allowed (.bool b)
  | int (n : Int) : Proper allowed (.int n)
  | double {x : Double} (h : allowed x) : Proper allowed (.double x)
  | text (s : String) : Proper allowed (.text s)
  | list {items : List Value} (h : ∀ item ∈ items, Proper allowed item) :
      Proper allowed (.list items)
  | object {fields : Fields} (hn : fields.Named)
      (h : ∀ field ∈ fields, Proper allowed field.2) : Proper allowed (.object fields)

theorem settleItems_eq_map (items : List Value) : settleItems items = items.map settle := by
  induction items with
  | nil => rfl
  | cons item rest ih => rw [settleItems, ih, List.map_cons]

theorem settleFields_eq_map (fields : Fields) : settleFields fields = fields.map fun field =>
    (.text (String.ofList (keyText field.1)), settle field.2) := by
  induction fields with
  | nil => rfl
  | cons field rest ih => rw [settleFields, ih, List.map_cons]

/-- What JSON can hold is stored as it is. -/
theorem settle_of_proper {allowed : Double → Prop} {value : Value} (h : Proper allowed value) :
    settle value = value := by
  induction h with
  | list _ ih =>
    rw [settle, settleItems_eq_map, List.map_congr_left ih, List.map_id']
  | @object fields hn _ ih =>
    have hfields : settleFields fields = fields := by
      rw [settleFields_eq_map]
      refine (List.map_congr_left fun field hfield => ?_).trans (List.map_id fields)
      obtain ⟨key, value⟩ := field
      obtain ⟨s, rfl⟩ := hn.texts _ hfield
      have hvalue : settle value = value := ih _ hfield
      simp [hvalue, keyText]
    rw [settle, hfields, Fields.ofList_of_named hn]
  | _ => rfl

end Json

end Stepwise
