import Mathlib.Tactic.Common
import Stepwise.Json.Read

/-!
# Decimal digits

The digits of a number are ASCII digits, and they tell the number. A row of characters of one kind
ends where one follows that is of another kind.
-/

namespace Stepwise

namespace Decimal

theorem isDigit_of_mem_digitsOf {n : Nat} {c : Char} (h : c ∈ digitsOf n) :
    Json.isDigit c = true := by
  have hdigit := Nat.isDigit_of_mem_toDigits (by decide) (by decide) h
  have hrange : 48 ≤ c.val ∧ c.val ≤ 57 := by simpa [Char.isDigit] using hdigit
  exact Bool.and_eq_true_iff.mpr ⟨decide_eq_true hrange.1, decide_eq_true hrange.2⟩

theorem digitsOf_ne_nil (n : Nat) : digitsOf n ≠ [] := Nat.toDigits_ne_nil

theorem digitsOf_inj {m n : Nat} (h : digitsOf m = digitsOf n) : m = n := by
  unfold digitsOf at h
  rw [← Nat.ofDigitChars_ten_toDigits (n := m), h, Nat.ofDigitChars_ten_toDigits]

/-- Numbered names of one beginning have one number. -/
theorem append_toString_inj (beginning : String) {m n : Nat}
    (h : beginning ++ toString m = beginning ++ toString n) : m = n := by
  have htext := (String.append_right_inj beginning).mp h
  rw [Nat.toString_eq_ofList_toDigits, Nat.toString_eq_ofList_toDigits] at htext
  exact digitsOf_inj (String.ofList_injective htext)

end Decimal

namespace Json

/-- No digit comes next. -/
def Ended (rest : List Char) : Prop := ∀ c ∈ rest.head?, isDigit c = false

theorem ended_cons {c : Char} {rest : List Char} (h : isDigit c = false) : Ended (c :: rest) := by
  intro d hd
  cases hd
  exact h

section

variable {α : Type} {p : α → Bool} {text text' rest rest' : List α}

/-- Elements of one kind are all that is taken, if no more of the kind follow. -/
theorem takeWhile_of_stops (ht : ∀ c ∈ text, p c = true) (hr : ∀ c ∈ rest.head?, p c = false) :
    (text ++ rest).takeWhile p = text := by
  rw [List.takeWhile_append_of_pos ht]
  cases rest with
  | nil => simp
  | cons c rest => simp [hr c rfl]

theorem append_inj_of_stops (ht : ∀ c ∈ text, p c = true) (ht' : ∀ c ∈ text', p c = true)
    (hr : ∀ c ∈ rest.head?, p c = false) (hr' : ∀ c ∈ rest'.head?, p c = false)
    (h : text ++ rest = text' ++ rest') : text = text' ∧ rest = rest' := by
  have heq : text = text' := by
    rw [← takeWhile_of_stops ht hr, h, takeWhile_of_stops ht' hr']
  subst heq
  exact ⟨rfl, List.append_cancel_left h⟩

end

end Json

end Stepwise
