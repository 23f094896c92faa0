import Mathlib.Tactic.Common
import Stepwise.Json.Write

/-!
# Rows of items

The text of a list or an object is a row of texts, joined by commas. After the first item it is a
comma and an item again and again, up to the closing bracket.
-/

namespace Stepwise.Json

section

variable {α : Type}

theorem joinWith_cons_cons (separator a b : List α) (rest : List (List α)) :
    joinWith separator (a :: b :: rest) = a ++ (separator ++ joinWith separator (b :: rest)) := by
  simp [joinWith]

/-- What comes after the first item of a row, up to the closing bracket. -/
theorem joinWith_cons_append (comma : α) (a : List α) (rest : List (List α)) (close : List α) :
    joinWith [comma] (a :: rest) ++ close = a ++ (rest.flatMap (comma :: ·) ++ close) := by
  induction rest generalizing a with
  | nil => simp [joinWith]
  | cons b rest ih =>
    rw [joinWith_cons_cons, List.append_assoc, List.append_assoc, ih]
    simp

end

theorem writeItems_eq_map (items : List Value) : writeItems items = items.map write := by
  induction items with
  | nil => rfl
  | cons item rest ih => rw [writeItems, ih, List.map_cons]

/-- The text of a field with its name. -/
def writeField (field : Key × Value) : List Char :=
  writeText (keyText field.1) ++ ':' :: write field.2

theorem writeFields_eq_map (fields : Fields) : writeFields fields = fields.map writeField := by
  induction fields with
  | nil => rfl
  | cons field rest ih => rw [writeFields, ih, List.map_cons, writeField]

theorem shortItems_eq_all (items : List Value) : shortItems items = items.all isShort := by
  induction items with
  | nil => rfl
  | cons item rest ih => rw [shortItems, ih, List.all_cons]

theorem shortFields_eq_all (fields : Fields) :
    shortFields fields = fields.all fun field => shortKey field.1 && isShort field.2 := by
  induction fields with
  | nil => rfl
  | cons field rest ih => rw [shortFields, ih, List.all_cons]

end Stepwise.Json
