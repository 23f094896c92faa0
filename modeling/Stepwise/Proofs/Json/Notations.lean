import Stepwise.Json.Write
import Stepwise.Proofs.Json.Numbers
import Stepwise.Proofs.Number.Shortest

/-!
# Two notations of numbers

`JSON.stringify` writes a number without an exponent from `1e-6` up to `1e21`, keeps no point in
whole numbers and does not fill up an exponent, so it writes in a layout of its own. A number that
is written so and read is written back in the layout of JSON text here, as an integer or as the
double that it stands for. The two texts are compared: which numbers come back as they were.
-/

namespace Stepwise

open Decimal

/-- Numbers as `JSON.stringify` writes them: `1`, `0.00001`, `1e-7`, `1e+21`. -/
def Layout.stringify : Layout where
  low := -6
  high := 21
  pointKept := false
  exponentWidth := 1
  zeroSigned := false
  nan := "null".toList
  infinite := "null".toList

/-- A numeral with its sign. -/
def Layout.numeral (l : Layout) (d : Decimal) : List Char :=
  Spelling.signed d.negative (l.magnitude d)

namespace Decimal

variable {d : Decimal}

/-- The text of a numeral that `JSON.stringify` gives. If the point is not too far away, zeros fill
the digits up to it, or it stands among the digits, or zeros stand before them; otherwise there is
an exponent. -/
def stringify (d : Decimal) : List Char :=
  let digits := digitsOf d.digits
  (if d.negative then ['-'] else []) ++
    if d.digits = 0 then ['0']
    else if d.count ≤ d.place ∧ d.place ≤ 21 then
      digits ++ List.replicate (d.place - d.count).toNat '0'
    else if 0 < d.place ∧ d.place ≤ 21 then
      digits.take d.place.toNat ++ '.' :: digits.drop d.place.toNat
    else if -6 < d.place ∧ d.place ≤ 0 then
      '0' :: '.' :: (List.replicate (-d.place).toNat '0' ++ digits)
    else
      digits.take 1 ++ (if d.count = 1 then [] else '.' :: digits.drop 1) ++
        'e' :: (if d.place - 1 < 0 then '-' else '+') :: digitsOf (d.place - 1).natAbs

theorem magnitude_of_ne_zero (l : Layout) (hne : d.digits ≠ 0) :
    l.magnitude d = if l.low ≤ d.place - 1 ∧ d.place - 1 < l.high then
      Layout.positional l.pointKept (digitsOf d.digits) d.place
      else Layout.scientific l.exponentWidth (digitsOf d.digits) (d.place - 1) := by
  unfold Layout.magnitude
  exact if_neg hne

theorem magnitude_stringify_of_ne_zero (hne : d.digits ≠ 0) :
    Layout.stringify.magnitude d = if -6 < d.place ∧ d.place ≤ 21 then
      Layout.positional false (digitsOf d.digits) d.place
      else Layout.scientific 1 (digitsOf d.digits) (d.place - 1) := by
  have hrange : Layout.stringify.low ≤ d.place - 1 ∧ d.place - 1 < Layout.stringify.high ↔
      -6 < d.place ∧ d.place ≤ 21 := by
    show -6 ≤ d.place - 1 ∧ d.place - 1 < 21 ↔ _
    omega
  rw [magnitude_of_ne_zero _ hne]
  exact if_congr hrange rfl rfl

/-- Digits with the point among them, or with the zeros that are missing up to it. -/
theorem positional_of_pos (hplace : 0 < d.place) :
    Layout.positional false (digitsOf d.digits) d.place = if d.count ≤ d.place then
      digitsOf d.digits ++ List.replicate (d.place - d.count).toNat '0'
      else (digitsOf d.digits).take d.place.toNat ++
        '.' :: (digitsOf d.digits).drop d.place.toNat := by
  have hlength : (digitsOf d.digits).length = d.count := rfl
  unfold Layout.positional
  rw [if_neg (by omega)]
  by_cases hwhole : d.count ≤ d.place
  · have hdrop : (digitsOf d.digits).drop d.place.toNat = [] :=
      List.drop_eq_nil_of_le (by omega)
    have hzeros : d.place.toNat - (digitsOf d.digits).length = (d.place - d.count).toNat := by
      omega
    rw [if_pos hwhole, hdrop, List.take_of_length_le (by omega), hzeros]
    rfl
  · have hzeros : d.place.toNat - (digitsOf d.digits).length = 0 := by omega
    rw [if_neg hwhole, hzeros, List.replicate_zero, List.append_nil]
    cases hdrop : (digitsOf d.digits).drop d.place.toNat with
    | nil =>
      have := List.drop_eq_nil_iff.mp hdrop
      omega
    | cons c rest => rfl

theorem scientific_one (digits : List Char) (exponent : ℤ) :
    Layout.scientific 1 digits exponent =
      digits.take 1 ++ (if digits.length ≤ 1 then [] else '.' :: digits.drop 1) ++
        'e' :: (if exponent < 0 then '-' else '+') :: digitsOf exponent.natAbs := by
  have hpad : 1 - (digitsOf exponent.natAbs).length = 0 := by
    have : 0 < (digitsOf exponent.natAbs).length := Nat.length_toDigits_pos
    omega
  unfold Layout.scientific Layout.padLeft
  rw [hpad]
  match digits with
  | [] => rfl
  | [c] => rfl
  | c :: c' :: rest => simp

/-- `JSON.stringify` writes in the layout of its own. -/
theorem stringify_eq (d : Decimal) : d.stringify = Layout.stringify.numeral d := by
  have hsign (text : List Char) :
      (if d.negative then ['-'] else []) ++ text = Spelling.signed d.negative text := by
    cases d.negative <;> rfl
  rw [stringify, hsign, Layout.numeral]
  congr 1
  by_cases hzero : d.digits = 0
  · rw [if_pos hzero, Layout.magnitude, if_pos hzero]
    rfl
  rw [if_neg hzero, magnitude_stringify_of_ne_zero hzero]
  by_cases hrange : -6 < d.place ∧ d.place ≤ 21
  · rw [if_pos hrange]
    by_cases hplace : 0 < d.place
    · rw [positional_of_pos hplace]
      by_cases hwhole : d.count ≤ d.place
      · rw [if_pos ⟨hwhole, hrange.2⟩, if_pos hwhole]
      · rw [if_neg (by omega), if_pos ⟨hplace, hrange.2⟩, if_neg hwhole]
    · have hcount := d.count_pos
      rw [if_neg (by omega), if_neg (by omega), if_pos (by omega), Layout.positional,
        if_pos (by omega)]
  · have hcount := d.count_pos
    have hone : (digitsOf d.digits).length ≤ 1 ↔ d.count = 1 := by
      show d.count ≤ 1 ↔ _
      omega
    rw [if_neg hrange, if_neg (by omega), if_neg (by omega), if_neg (by omega), scientific_one]
    simp only [hone]

example : [⟨false, 1, -7⟩, ⟨false, 1, -5⟩, ⟨true, 15, -1⟩, ⟨false, 1, 21⟩].map stringify =
    ["1e-7", "0.00001", "-1.5", "1e+21"].map String.toList := by decide

/-- The numerals that `JSON.stringify` writes: zero without a sign, and those that have no digit to
spare. -/
def Spelt (d : Decimal) : Prop := d = ⟨false, 0, 0⟩ ∨ d.Shortest

/-- Digits are all that `JSON.stringify` writes of the numeral. -/
def Whole (d : Decimal) : Prop := 0 ≤ d.exponent ∧ d.place ≤ 21

instance (d : Decimal) : Decidable d.Whole := by
  unfold Whole
  infer_instance

/-- The number that the digits of a whole number stand for. -/
def natural (d : Decimal) : ℕ := d.digits * 10 ^ d.exponent.toNat

/-- The value that a number is read as: an integer if only digits are written. -/
def read (d : Decimal) : Value :=
  if d.Whole then
    .int (if d.negative then -d.natural else d.natural)
  else .double d.toDouble

theorem shortest_of_not_whole (h : d.Spelt) (hw : ¬ d.Whole) : d.Shortest := by
  obtain rfl | h := h
  · exact absurd ⟨le_rfl, by decide⟩ hw
  · exact h

/-! ## Reading -/

/-- Digits are all that is written of a whole number. -/
theorem spelling_of_whole (h : d.Spelt) (hw : d.Whole) :
    Layout.stringify.spelling d = ⟨digitsOf d.natural, [], none⟩ := by
  obtain rfl | h := h
  · rfl
  · have hne := h.reduced.digits_ne_zero
    have hcount := d.count_pos
    have hplace : d.place = d.count + d.exponent := rfl
    have hlength : (digitsOf d.digits).length = d.count := rfl
    obtain ⟨hexponent, hhigh⟩ := hw
    have hrange : Layout.stringify.low ≤ d.place - 1 ∧ d.place - 1 < Layout.stringify.high := by
      show (-6 : ℤ) ≤ d.place - 1 ∧ d.place - 1 < 21
      omega
    unfold Layout.spelling Layout.positionalParts
    rw [if_neg hne, if_pos hrange, if_neg (by omega), List.take_of_length_le (by omega),
      if_pos (by omega), natural, digitsOf_mul_pow hne, hlength,
      show d.place.toNat - d.count = d.exponent.toNat by omega]
    rfl

/-- A number that is not whole is written with a fraction or an exponent. -/
theorem not_plain_of_not_whole (h : d.Spelt) (hw : ¬ d.Whole) :
    ¬ ((Layout.stringify.spelling d).fraction = [] ∧
      (Layout.stringify.spelling d).power = none) := by
  have hne := (shortest_of_not_whole h hw).reduced.digits_ne_zero
  have hplace : d.place = d.count + d.exponent := rfl
  have hlength : (digitsOf d.digits).length = d.count := rfl
  have hcount := d.count_pos
  rintro ⟨hfraction, hpower⟩
  unfold Layout.spelling at hfraction hpower
  rw [if_neg hne] at hfraction hpower
  split_ifs at hfraction hpower with hrange
  · unfold Layout.positionalParts at hfraction
    split_ifs at hfraction with hlow hlong hpoint
    · exact digitsOf_ne_nil _ (List.append_eq_nil_iff.mp hfraction).2
    · have hhigh : d.place - 1 < 21 := hrange.2
      exact hw ⟨by omega, by omega⟩
    · have := List.drop_eq_nil_iff.mp hfraction
      omega
  · cases hpower

theorem length_whole_le (d : Decimal) : (Layout.stringify.spelling d).whole.length ≤ 21 := by
  unfold Layout.spelling
  split_ifs with hzero hrange
  · decide
  · have hhigh : d.place - 1 < 21 := hrange.2
    unfold Layout.positionalParts
    split_ifs
    · exact Nat.le_of_ble_eq_true rfl
    all_goals
      simp only [List.length_append, List.length_take, List.length_replicate]
      omega
  · simp only [Layout.scientificParts, List.length_take]
    omega

/-- A number that `JSON.stringify` writes is read, whatever follows it. -/
theorem readNumber_stringify (h : d.Spelt) {rest : List Char} (hr : Json.Closed rest) (offset : ℕ) :
    Json.readNumber ⟨d.stringify ++ rest, offset⟩ =
      .ok (d.read, ⟨rest, offset + d.stringify.length⟩) := by
  have hsound := Layout.sound_spelling Layout.stringify d
  have hlimit : (Layout.stringify.spelling d).whole.length ≤ digitLimit :=
    (length_whole_le d).trans (by decide)
  have hread := Spelling.readNumber_text hsound hr hlimit d.negative offset
  rw [stringify_eq, Layout.numeral, Layout.magnitude_eq_text, hread]
  congr 2
  by_cases hw : d.Whole
  · rw [read, if_pos hw, spelling_of_whole h hw, if_pos ⟨rfl, rfl⟩, numberOf_digitsOf]
  · have hfinite := (shortest_of_not_whole h hw).finite
    have hdouble : ((Layout.stringify.spelling d).numeral d.negative).toDouble = d.toDouble :=
      toDouble_congr rfl (Layout.value_spelling Layout.stringify d d.negative) hfinite
    rw [read, if_neg hw, if_neg (not_plain_of_not_whole h hw), hdouble]

/-! ## Writing back -/

/-- A number that is read from what `JSON.stringify` writes has no more digits than are written. -/
theorem isShort_read (h : d.Spelt) : Json.isShort d.read = true := by
  by_cases hw : d.Whole
  · have hlength := length_whole_le d
    rw [spelling_of_whole h hw] at hlength
    have hdigits : (digitsOf d.natural).length ≤ digitLimit :=
      Nat.le_trans hlength (by decide)
    have habs : (if d.negative then -(d.natural : ℤ) else d.natural).natAbs = d.natural := by
      split_ifs
      · rw [Int.natAbs_neg, Int.natAbs_natCast]
      · exact Int.natAbs_natCast _
    rw [read, if_pos hw, Json.isShort, Json.isShortInt, habs]
    exact decide_eq_true hdigits
  · rw [read, if_neg hw]
    rfl

/-- The text that a number is written back as. -/
def rewritten (d : Decimal) : List Char := Json.write d.read

/-- A whole number is written back as it was. -/
theorem rewritten_of_whole (h : d.Spelt) (hw : d.Whole) :
    d.rewritten = d.stringify := by
  have htext : Layout.stringify.magnitude d = digitsOf d.natural := by
    rw [Layout.magnitude_eq_text, spelling_of_whole h hw]
    exact List.append_nil _
  rw [rewritten, read, if_pos hw, Json.write, stringify_eq, Layout.numeral, htext]
  cases hnegative : d.negative with
  | false =>
    have hnonneg : ¬ (d.natural : ℤ) < 0 := by omega
    simp [showInt, Spelling.signed, hnonneg]
  | true =>
    have hpos : d.natural ≠ 0 := by
      obtain rfl | h := h
      · cases hnegative
      · exact mul_ne_zero h.reduced.digits_ne_zero (by positivity)
    have hneg : -(d.natural : ℤ) < 0 := by omega
    rw [if_pos rfl, showInt, if_pos hneg, Int.natAbs_neg, Int.natAbs_natCast]
    rfl

/-- A numeral that is not whole is written back as the one that is found for its double. -/
theorem rewritten_of_not_whole (h : d.Shortest) (hw : ¬ d.Whole) :
    ∃ c : Decimal, d.toDouble.shortest? = some c ∧ c.Reduced ∧ c.negative = d.negative ∧
      d.rewritten = Layout.json.numeral c := by
  obtain ⟨s, m, e, hn, hd, hunits⟩ := h.exists_units
  obtain ⟨c, hfound, hreads, _⟩ := Double.shortest?_spec (s := s) (h := hn) hunits
  have hsign := (toDouble_eq_finite_iff.mp hd).1
  have hsign' : c.reduced.negative = s := (toDouble_eq_finite_iff.mp hreads).1
  refine ⟨c.reduced, hd ▸ hfound, (reduced_spec (Double.digits_ne_zero_of_reads hunits hreads)).1,
    hsign'.trans hsign.symm, ?_⟩
  rw [rewritten, read, if_neg hw, hd, Json.write, Layout.write]
  simp only [hfound, Layout.numeral, hsign']
  cases s <;> rfl

/-! ## Comparing the notations -/

/-- The magnitudes that are written in two ways: as a fraction here and with an exponent there, or
with an exponent of one digit that is filled up. -/
def Apart (d : Decimal) : Prop := 10 ^ (-9 : ℤ) ≤ d.value ∧ d.value < 10 ^ (-4 : ℤ)

theorem apart_iff (hne : d.digits ≠ 0) : d.Apart ↔ -9 ≤ d.place - 1 ∧ d.place - 1 < -4 := by
  have hten : (1 : ℚ) < 10 := by norm_num
  have hlow := le_value hne
  have hhigh := d.value_lt
  constructor
  · rintro ⟨h, h'⟩
    have hfrom := (zpow_lt_zpow_iff_right₀ hten).mp (h.trans_lt hhigh)
    have hto := (zpow_lt_zpow_iff_right₀ hten).mp (hlow.trans_lt h')
    omega
  · rintro ⟨h, h'⟩
    have hfrom : (10 : ℚ) ^ (-9 : ℤ) ≤ 10 ^ (d.place - 1) := zpow_le_zpow_right₀ hten.le h
    have hto : (10 : ℚ) ^ d.place ≤ 10 ^ (-4 : ℤ) := zpow_le_zpow_right₀ hten.le (by omega)
    exact ⟨hfrom.trans hlow, hhigh.trans_le hto⟩

theorem positional_eq_of_fraction (hexponent : d.exponent < 0) :
    Layout.positional true (digitsOf d.digits) d.place =
      Layout.positional false (digitsOf d.digits) d.place := by
  have hplace : d.place = d.count + d.exponent := rfl
  have hlength : (digitsOf d.digits).length = d.count := rfl
  unfold Layout.positional
  by_cases hlow : d.place ≤ 0
  · rw [if_pos hlow, if_pos hlow]
  · rw [if_neg hlow, if_neg hlow]
    cases hdrop : (digitsOf d.digits).drop d.place.toNat with
    | nil =>
      have := List.drop_eq_nil_iff.mp hdrop
      omega
    | cons c rest => rfl

/-- The exponents come out the same if they have two digits. -/
theorem scientific_eq_iff (digits : List Char) (exponent : ℤ) :
    Layout.scientific 2 digits exponent = Layout.scientific 1 digits exponent ↔
      10 ≤ exponent.natAbs := by
  have hlength : 0 < (digitsOf exponent.natAbs).length := Nat.length_toDigits_pos
  have hsmall : (digitsOf exponent.natAbs).length ≤ 1 ↔ exponent.natAbs < 10 ^ 1 :=
    length_digitsOf_le_iff one_pos
  unfold Layout.scientific Layout.padLeft
  rw [List.append_cancel_left_eq, List.cons.injEq, List.cons.injEq]
  constructor
  · rintro ⟨_, _, h⟩
    have hsame := congrArg List.length h
    simp only [List.length_append, List.length_replicate] at hsame
    omega
  · intro h
    have htwo : 2 - (digitsOf exponent.natAbs).length = 0 := by omega
    have hone : 1 - (digitsOf exponent.natAbs).length = 0 := by omega
    exact ⟨rfl, rfl, by rw [htwo, hone]⟩

theorem positional_ne_scientific (hne : d.digits ≠ 0) (hplace : d.place ≤ 0) (pointKept : Bool)
    (width : ℕ) (exponent : ℤ) : Layout.scientific width (digitsOf d.digits) exponent ≠
      Layout.positional pointKept (digitsOf d.digits) d.place := by
  have hhead := head?_digitsOf hne
  intro h
  rw [Layout.positional, if_pos hplace] at h
  unfold Layout.scientific at h
  match hdigits : digitsOf d.digits with
  | [] => exact digitsOf_ne_nil _ hdigits
  | [c] =>
    rw [hdigits] at h hhead
    exact hhead (congrArg some (List.cons.inj h).1)
  | c :: c' :: rest =>
    rw [hdigits] at h hhead
    exact hhead (congrArg some (List.cons.inj h).1)

/-- Where digits with a fraction or an exponent come out the same in both notations. -/
theorem magnitude_eq_iff (h : d.Shortest) (hw : ¬ d.Whole) :
    Layout.json.magnitude d = Layout.stringify.magnitude d ↔ ¬ d.Apart := by
  have hne := h.reduced.digits_ne_zero
  have hcount := h.count_le
  have hplace : d.place = d.count + d.exponent := rfl
  rw [apart_iff hne, magnitude_of_ne_zero _ hne, magnitude_of_ne_zero _ hne]
  have hfraction : d.place ≤ 21 → d.exponent < 0 := fun hlow => by
    by_contra hexponent
    exact hw ⟨by omega, hlow⟩
  show (if (-4 : ℤ) ≤ d.place - 1 ∧ d.place - 1 < 16 then
      Layout.positional true (digitsOf d.digits) d.place
      else Layout.scientific 2 (digitsOf d.digits) (d.place - 1)) =
    (if (-6 : ℤ) ≤ d.place - 1 ∧ d.place - 1 < 21 then
      Layout.positional false (digitsOf d.digits) d.place
      else Layout.scientific 1 (digitsOf d.digits) (d.place - 1)) ↔ _
  by_cases hmiddle : -4 ≤ d.place - 1 ∧ d.place - 1 < 16
  · rw [if_pos hmiddle, if_pos (by omega)]
    exact iff_of_true (positional_eq_of_fraction (hfraction (by omega))) (by omega)
  · rw [if_neg hmiddle]
    by_cases houter : -6 ≤ d.place - 1 ∧ d.place - 1 < 21
    · rw [if_pos houter]
      -- With more than sixteen digits before the point there is no room for a fraction.
      have hlow : d.place - 1 < -4 := by
        have := hfraction (by omega)
        omega
      exact iff_of_false (positional_ne_scientific hne (by omega) _ _ _) (by omega)
    · rw [if_neg houter, scientific_eq_iff]
      omega

/-- A number that `JSON.stringify` writes is written back as it was, exactly if it is whole, or its
digits are the preferred ones and its magnitude is one of those that both notations write alike. -/
theorem rewritten_eq_iff (h : d.Spelt) :
    d.rewritten = d.stringify ↔ d.Whole ∨ d.Preferred ∧ ¬ d.Apart := by
  by_cases hw : d.Whole
  · exact iff_of_true (rewritten_of_whole h hw) (.inl hw)
  · have hs := shortest_of_not_whole h hw
    obtain ⟨c, hfound, hc, hsign, htext⟩ := rewritten_of_not_whole hs hw
    have hsame : d.Preferred ↔ c = d := by
      rw [← hs.shortest?_eq_some_iff, hfound, Option.some.injEq]
    rw [htext, stringify_eq, Layout.numeral, Layout.numeral, hsign, hsame]
    constructor
    · intro heq
      have hmagnitude : Layout.json.magnitude c = Layout.stringify.magnitude d := by
        unfold Spelling.signed at heq
        split_ifs at heq
        · exact (List.cons.inj heq).2
        · exact heq
      have hvalue : c.value = d.value := by
        have hnumeral := Spelling.numeral_eq_of_text (Layout.sound_spelling Layout.json c)
          (Layout.sound_spelling Layout.stringify d)
          (by rw [← Layout.magnitude_eq_text, ← Layout.magnitude_eq_text, hmagnitude]) false
        rw [← Layout.value_spelling Layout.json c false, hnumeral, Layout.value_spelling]
      obtain rfl : c = d := hc.ext hs.reduced hsign hvalue
      exact .inr ⟨rfl, (magnitude_eq_iff hs hw).mp hmagnitude⟩
    · rintro (hwhole | ⟨rfl, hapart⟩)
      · exact absurd hwhole hw
      · rw [(magnitude_eq_iff hs hw).mpr hapart]

/-! ## Characters -/

theorem isNumberChar_of_mem_numeral {l : Layout} {c : Char} (hc : c ∈ l.numeral d) :
    Spelling.isNumberChar c = true := by
  rw [Layout.numeral, Layout.magnitude_eq_text] at hc
  exact Spelling.isNumberChar_of_mem_signed (Layout.sound_spelling l d) hc

theorem isNumberChar_of_mem_stringify {c : Char} (hc : c ∈ d.stringify) :
    Spelling.isNumberChar c = true := by
  rw [stringify_eq] at hc
  exact isNumberChar_of_mem_numeral hc

theorem isNumberChar_of_mem_rewritten (h : d.Spelt) {c : Char} (hc : c ∈ d.rewritten) :
    Spelling.isNumberChar c = true := by
  by_cases hw : d.Whole
  · rw [rewritten_of_whole h hw] at hc
    exact isNumberChar_of_mem_stringify hc
  · obtain ⟨_, _, _, _, htext⟩ := rewritten_of_not_whole (shortest_of_not_whole h hw) hw
    rw [htext] at hc
    exact isNumberChar_of_mem_numeral hc

end Decimal

end Stepwise
