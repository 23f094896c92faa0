import Stepwise.Value.Basic

/-!
# Equality of values

Whether two values are the same can be computed, item by item and field by field.
-/

namespace Stepwise.Value

mutual

/-- Whether two values are the same, in all their parts. -/
def same : Value → Value → Bool
  | .null, .null => true
  | .bool a, .bool b => a == b
  | .int m, .int n => m == n
  | .double x, .double y => decide (x = y)
  | .text s, .text t => s == t
  | .list items, .list others => sameItems items others
  | .object fields, .object others => sameFields fields others
  | _, _ => false

/-- Whether two lists have the same items. -/
def sameItems : List Value → List Value → Bool
  | [], [] => true
  | a :: items, b :: others => a.same b && sameItems items others
  | _, _ => false

/-- Whether two objects have the same fields in the same order. -/
def sameFields : List (Key × Value) → List (Key × Value) → Bool
  | [], [] => true
  | (k, a) :: fields, (l, b) :: others => decide (k = l) && a.same b && sameFields fields others
  | _, _ => false

end

mutual

theorem same_iff : ∀ v w : Value, v.same w = true ↔ v = w
  | .null, w | .bool _, w | .int _, w | .double _, w | .text _, w => by
    cases w <;> simp [same]
  | .list items, w => by
    cases w with
    | list others => rw [same, sameItems_iff, list.injEq]
    | _ => simp [same]
  | .object fields, w => by
    cases w with
    | object others => rw [same, sameFields_iff, object.injEq]
    | _ => simp [same]

theorem sameItems_iff : ∀ items others : List Value, sameItems items others = true ↔ items = others
  | [], others => by cases others <;> simp [sameItems]
  | a :: items, others => by
    cases others with
    | nil => simp [sameItems]
    | cons b others => simp [sameItems, same_iff a b, sameItems_iff items others]

theorem sameFields_iff : ∀ fields others : List (Key × Value),
    sameFields fields others = true ↔ fields = others
  | [], others => by cases others <;> simp [sameFields]
  | (k, a) :: fields, others => by
    cases others with
    | nil => simp [sameFields]
    | cons field others =>
      obtain ⟨l, b⟩ := field
      simp [sameFields, same_iff a b, sameFields_iff fields others]

end

instance : DecidableEq Value := fun v w => decidable_of_iff _ (same_iff v w)

end Stepwise.Value
