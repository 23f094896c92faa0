import Stepwise.Number.Layout
import Stepwise.Proofs.Number.Numeral

/-!
# Spellings of numerals

Every layout writes a numeral as digits, perhaps a point with more digits, and perhaps an exponent.
The number can be read off these parts, so no two numbers have one text, whatever the layouts.
-/

namespace Stepwise

namespace Decimal

/-! ## Digits -/

/-- The number that a row of digits spells. -/
def numberOf (digits : List Char) : ℕ := Nat.ofDigitChars 10 digits 0

theorem numeral_map_eq (digits : List Char) :
    Text.numeral (digits.map fun d => d.toNat - '0'.toNat) = numberOf digits := by
  rw [Text.numeral, List.foldl_map, numberOf, Nat.ofDigitChars_eq_foldl]

theorem numberOf_digitsOf (n : ℕ) : numberOf (digitsOf n) = n := Nat.ofDigitChars_ten_toDigits

theorem numberOf_append_zeros (digits : List Char) (k : ℕ) :
    numberOf (digits ++ List.replicate k '0') = numberOf digits * 10 ^ k := by
  unfold numberOf
  rw [Nat.ofDigitChars_append, Nat.ofDigitChars_replicate_zero, mul_comm]

theorem numberOf_zeros_append (digits : List Char) (k : ℕ) :
    numberOf (List.replicate k '0' ++ digits) = numberOf digits := by
  unfold numberOf
  rw [Nat.ofDigitChars_append, Nat.ofDigitChars_replicate_zero, mul_zero]

theorem digitsOf_mul_pow {n : ℕ} (hn : n ≠ 0) (k : ℕ) :
    digitsOf (n * 10 ^ k) = digitsOf n ++ List.replicate k '0' := by
  induction k with
  | zero => simp
  | succ k ih =>
    have hpos : 0 < n * 10 ^ k := by positivity
    have hzero : digitsOf (n * 10 ^ k) ++ digitsOf 0 = digitsOf (10 * (n * 10 ^ k) + 0) :=
      Nat.toDigits_append_toDigits (b := 10) (d := 0) (by decide) hpos (by decide)
    have hdigit : digitsOf 0 = ['0'] := rfl
    have hten : n * 10 ^ (k + 1) = 10 * (n * 10 ^ k) + 0 := by ring
    rw [hten, ← hzero, ih, List.append_assoc, hdigit, List.replicate_succ']

/-- The digits of a number other than zero do not begin with a zero. -/
theorem head?_digitsOf {n : ℕ} (hn : n ≠ 0) : (digitsOf n).head? ≠ some '0' := by
  induction n using Nat.strong_induction_on with
  | _ n ih =>
    by_cases hsmall : n < 10
    · have hdigit : ∀ k < 10, k ≠ 0 → (digitsOf k).head? ≠ some '0' := by decide
      exact hdigit n hsmall hn
    · have hsplit : digitsOf n = digitsOf (n / 10) ++ [(n % 10).digitChar] :=
        Nat.toDigits_of_base_le (by decide) (by omega)
      rw [hsplit, List.head?_append_of_ne_nil _ (digitsOf_ne_nil _)]
      exact ih (n / 10) (by omega) (by omega)

end Decimal

open Decimal

/-! ## Parts of a numeral -/

/-- The parts of a written numeral: the digits before and after the point, and the sign and the
digits of an exponent. -/
structure Spelling where
  whole : List Char
  fraction : List Char
  power : Option (Bool × List Char)

namespace Spelling

/-- The text of an exponent. -/
def powerText : Option (Bool × List Char) → List Char
  | none => []
  | some (negative, digits) => 'e' :: (if negative then '-' else '+') :: digits

/-- What follows the digits before the point. -/
def tail (s : Spelling) : List Char :=
  (if s.fraction.isEmpty then [] else '.' :: s.fraction) ++ powerText s.power

/-- The text that the parts make. -/
def text (s : Spelling) : List Char := s.whole ++ s.tail

/-- The exponent, zero if there is none. -/
def exponent (s : Spelling) : ℤ :=
  match s.power with
  | none => 0
  | some (negative, digits) => if negative then -numberOf digits else numberOf digits

/-- The numeral that is read off the parts. -/
def numeral (s : Spelling) (negative : Bool) : Decimal :=
  ⟨negative, numberOf (s.whole ++ s.fraction), s.exponent - s.fraction.length⟩

/-- The parts are digits; there are some before the point, with no zero too many, and some in an
exponent. -/
structure Sound (s : Spelling) : Prop where
  whole_ne : s.whole ≠ []
  whole_digits : ∀ c ∈ s.whole, Json.isDigit c = true
  whole_head : s.whole = ['0'] ∨ s.whole.head? ≠ some '0'
  fraction_digits : ∀ c ∈ s.fraction, Json.isDigit c = true
  power_digits : ∀ power ∈ s.power, power.2 ≠ [] ∧ ∀ c ∈ power.2, Json.isDigit c = true

end Spelling

namespace Layout

/-- The parts of digits with a point. -/
def positionalParts (pointKept : Bool) (digits : List Char) (place : ℤ) : Spelling :=
  if place ≤ 0 then ⟨['0'], List.replicate (-place).toNat '0' ++ digits, none⟩
  else
    ⟨digits.take place.toNat ++ List.replicate (place.toNat - digits.length) '0',
      if digits.length ≤ place.toNat then if pointKept then ['0'] else []
        else digits.drop place.toNat, none⟩

/-- The parts of digits with an exponent. -/
def scientificParts (width : ℕ) (digits : List Char) (exponent : ℤ) : Spelling :=
  ⟨digits.take 1, digits.drop 1,
    some (decide (exponent < 0), padLeft width (digitsOf exponent.natAbs))⟩

/-- The parts that a layout writes a numeral in. -/
def spelling (l : Layout) (d : Decimal) : Spelling :=
  if d.digits = 0 then positionalParts l.pointKept ['0'] 1
  else if l.low ≤ d.place - 1 ∧ d.place - 1 < l.high then
    positionalParts l.pointKept (digitsOf d.digits) d.place
  else scientificParts l.exponentWidth (digitsOf d.digits) (d.place - 1)

theorem positional_eq_text (pointKept : Bool) {digits : List Char} (hne : digits ≠ []) (place : ℤ) :
    positional pointKept digits place = (positionalParts pointKept digits place).text := by
  unfold positional positionalParts Spelling.text Spelling.tail
  by_cases hplace : place ≤ 0
  · simp [if_pos hplace, Spelling.powerText, hne]
  · rw [if_neg hplace, if_neg hplace]
    by_cases hlength : digits.length ≤ place.toNat
    · have hdrop : digits.drop place.toNat = [] := List.drop_eq_nil_of_le hlength
      cases pointKept <;> simp [hlength, hdrop, Spelling.powerText]
    · have hdrop : digits.drop place.toNat ≠ [] := by simpa using hlength
      rw [if_neg hlength]
      cases hrest : digits.drop place.toNat with
      | nil => exact absurd hrest hdrop
      | cons c rest => simp [Spelling.powerText]

theorem scientific_eq_text (width : ℕ) (digits : List Char) (exponent : ℤ) :
    scientific width digits exponent = (scientificParts width digits exponent).text := by
  unfold scientific scientificParts Spelling.text Spelling.tail Spelling.powerText
  match digits with
  | [] => simp
  | [c] => simp
  | c :: c' :: rest => simp

/-- What a layout writes is the text of these parts. -/
theorem magnitude_eq_text (l : Layout) (d : Decimal) : l.magnitude d = (l.spelling d).text := by
  unfold magnitude spelling
  show (if d.digits = 0 then _ else if l.low ≤ d.place - 1 ∧ d.place - 1 < l.high then
    positional l.pointKept (digitsOf d.digits) d.place
    else scientific l.exponentWidth (digitsOf d.digits) (d.place - 1)) = _
  split_ifs
  · exact positional_eq_text _ (by decide) 1
  · exact positional_eq_text _ (digitsOf_ne_nil _) _
  · exact scientific_eq_text _ _ _

/-! ## The numeral of the parts -/

theorem value_numeral {s : Spelling} {negative : Bool} (n j : ℕ)
    (hnumber : numberOf (s.whole ++ s.fraction) = n * 10 ^ j) :
    (s.numeral negative).value = n * 10 ^ (s.exponent - s.fraction.length + j) := by
  unfold Spelling.numeral value
  rw [hnumber, zpow_add₀ (by norm_num), zpow_natCast]
  push_cast
  ring

theorem value_positionalParts (pointKept : Bool) (digits : List Char) (place : ℤ)
    (negative : Bool) : ((positionalParts pointKept digits place).numeral negative).value =
      numberOf digits * 10 ^ (place - digits.length) := by
  unfold positionalParts
  split_ifs with hlow hwhole hpoint
  · rw [value_numeral (numberOf digits) 0]
    · simp only [Spelling.exponent, List.length_append, List.length_replicate]
      congr 2
      omega
    · rw [show ['0'] = List.replicate 1 '0' from rfl, numberOf_zeros_append,
        numberOf_zeros_append, pow_zero, mul_one]
  · rw [value_numeral (numberOf digits) (place.toNat - digits.length + 1)]
    · simp only [Spelling.exponent, List.length_singleton]
      congr 2
      omega
    · rw [List.take_of_length_le hwhole, List.append_assoc,
        show ['0'] = List.replicate 1 '0' from rfl, List.replicate_append_replicate,
        numberOf_append_zeros]
  · rw [value_numeral (numberOf digits) (place.toNat - digits.length)]
    · simp only [Spelling.exponent, List.length_nil]
      congr 2
      omega
    · rw [List.take_of_length_le hwhole, List.append_nil, numberOf_append_zeros]
  · rw [value_numeral (numberOf digits) 0]
    · simp only [Spelling.exponent, List.length_drop]
      congr 2
      omega
    · rw [Nat.sub_eq_zero_of_le (by omega), List.replicate_zero, List.append_nil,
        List.take_append_drop, pow_zero, mul_one]

theorem numberOf_padLeft (width : ℕ) (digits : List Char) :
    numberOf (padLeft width digits) = numberOf digits := numberOf_zeros_append _ _

theorem value_scientificParts (width : ℕ) {digits : List Char} (hne : digits ≠ []) (exponent : ℤ)
    (negative : Bool) : ((scientificParts width digits exponent).numeral negative).value =
      numberOf digits * 10 ^ (exponent + 1 - digits.length) := by
  have hlength := List.length_pos_of_ne_nil hne
  have hexponent : (scientificParts width digits exponent).exponent = exponent := by
    simp only [scientificParts, Spelling.exponent, numberOf_padLeft, numberOf_digitsOf,
      decide_eq_true_eq]
    split_ifs with hneg
    · omega
    · omega
  rw [value_numeral (numberOf digits) 0]
  · rw [hexponent, scientificParts, List.length_drop]
    congr 2
    omega
  · rw [scientificParts, List.take_append_drop, pow_zero, mul_one]

/-- The parts that a layout writes stand for the same number. -/
theorem value_spelling (l : Layout) (d : Decimal) (negative : Bool) :
    ((l.spelling d).numeral negative).value = d.value := by
  have hplace : d.place - (digitsOf d.digits).length = d.exponent := by
    unfold place count
    omega
  unfold spelling
  split_ifs with hzero
  · have hnone : numberOf ['0'] = 0 := rfl
    rw [value_positionalParts, hnone, value_eq_zero_iff.mpr hzero, Nat.cast_zero, zero_mul]
  · rw [value_positionalParts, numberOf_digitsOf, hplace]
    rfl
  · rw [value_scientificParts _ (digitsOf_ne_nil _), numberOf_digitsOf, sub_add_cancel, hplace]
    rfl

/-! ## The parts are sound -/

theorem isDigit_of_mem_replicate {c : Char} {k : ℕ} (h : c ∈ List.replicate k '0') :
    Json.isDigit c = true := by
  rw [(List.mem_replicate.mp h).2]
  rfl

theorem sound_positionalParts (pointKept : Bool) {digits : List Char} (hne : digits ≠ [])
    (hd : ∀ c ∈ digits, Json.isDigit c = true) {place : ℤ}
    (hhead : digits.head? ≠ some '0' ∨ digits = ['0'] ∧ place = 1) :
    (positionalParts pointKept digits place).Sound := by
  unfold positionalParts
  by_cases hlow : place ≤ 0
  · rw [if_pos hlow]
    refine ⟨by simp, by simp [Json.isDigit], .inl rfl, fun c hc => ?_, nofun⟩
    obtain hc | hc := List.mem_append.mp hc
    · exact isDigit_of_mem_replicate hc
    · exact hd c hc
  · rw [if_neg hlow]
    obtain ⟨k, hk⟩ : ∃ k, place.toNat = k + 1 := ⟨place.toNat - 1, by omega⟩
    cases digits with
    | nil => exact absurd rfl hne
    | cons first rest =>
      refine ⟨by simp [hk], fun c hc => ?_, ?_, fun c hc => ?_, nofun⟩
      · obtain hc | hc := List.mem_append.mp hc
        · exact hd c (List.mem_of_mem_take hc)
        · exact isDigit_of_mem_replicate hc
      · obtain hfirst | ⟨hzero, rfl⟩ := hhead
        · rw [hk]
          exact .inr hfirst
        · rw [hzero]
          exact .inl rfl
      · split_ifs at hc
        · rw [List.mem_singleton.mp hc]
          rfl
        · cases hc
        · exact hd c (List.mem_of_mem_drop hc)

theorem sound_scientificParts (width : ℕ) {n : ℕ} (hn : n ≠ 0) (exponent : ℤ) :
    (scientificParts width (digitsOf n) exponent).Sound := by
  have hhead := head?_digitsOf hn
  have hdigits : ∀ c ∈ digitsOf n, Json.isDigit c = true := fun _ => isDigit_of_mem_digitsOf
  unfold scientificParts
  cases hlist : digitsOf n with
  | nil => exact absurd hlist (digitsOf_ne_nil n)
  | cons first rest =>
    rw [hlist] at hhead hdigits
    refine ⟨by simp, fun c hc => hdigits c (List.mem_of_mem_take hc), .inr hhead,
      fun c hc => hdigits c (List.mem_of_mem_drop hc), ?_⟩
    rintro _ ⟨⟩
    refine ⟨?_, fun c hc => ?_⟩
    · exact List.append_ne_nil_of_right_ne_nil _ (digitsOf_ne_nil _)
    · obtain hc | hc := List.mem_append.mp hc
      · exact isDigit_of_mem_replicate hc
      · exact isDigit_of_mem_digitsOf hc

/-- The parts that a layout writes are sound. -/
theorem sound_spelling (l : Layout) (d : Decimal) : (l.spelling d).Sound := by
  unfold spelling
  split_ifs with hzero
  · exact sound_positionalParts _ (by decide) (List.forall_mem_singleton.mpr rfl)
      (.inr ⟨rfl, rfl⟩)
  · exact sound_positionalParts _ (digitsOf_ne_nil _) (fun _ => isDigit_of_mem_digitsOf)
      (.inl (head?_digitsOf hzero))
  · exact sound_scientificParts _ hzero _

end Layout

end Stepwise
