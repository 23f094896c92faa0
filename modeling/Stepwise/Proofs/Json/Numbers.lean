import Stepwise.Proofs.Number.Spelling

/-!
# Numbers are read as they are spelt

A number that is written in sound parts is read off these parts, whatever the layout, if the text
ends there or a comma or a closing bracket comes next. So two texts of numbers that are equal stand
for one number.
-/

namespace Stepwise

namespace Json

/-- The text ends, or a comma or a closing bracket comes next. -/
def Closed (rest : List Char) : Prop := ∀ c ∈ rest.head?, c = ',' ∨ c = ']' ∨ c = '\x7d'

theorem closed_nil : Closed [] := nofun

theorem closed_cons {c : Char} {rest : List Char} (h : c = ',' ∨ c = ']' ∨ c = '\x7d') :
    Closed (c :: rest) := by
  rintro _ ⟨⟩
  exact h

theorem Closed.ended {rest : List Char} (h : Closed rest) : Ended rest := by
  intro c hc
  obtain rfl | rfl | rfl := h c hc
  · rfl
  · rfl
  · rfl

end Json

namespace Spelling

open Json Decimal

variable {s : Spelling} {rest : List Char}

theorem ended_powerText (power : Option (Bool × List Char)) (hr : Closed rest) :
    Ended (powerText power ++ rest) := by
  match power with
  | none => exact hr.ended
  | some (negative, digits) => exact ended_cons (by decide)

theorem ended_tail (s : Spelling) (hr : Closed rest) : Ended (s.tail ++ rest) := by
  unfold tail
  split_ifs
  · rw [List.nil_append]
    exact ended_powerText _ hr
  · exact ended_cons (by decide)

theorem wholeDigits_text (hs : s.Sound) (hr : Closed rest) :
    wholeDigits (s.text ++ rest) = s.whole := by
  rw [text, List.append_assoc]
  have htake : (s.whole ++ (s.tail ++ rest)).takeWhile isDigit = s.whole :=
    takeWhile_of_stops hs.whole_digits (ended_tail s hr)
  obtain hzero | hhead := hs.whole_head
  · rw [hzero]
    rfl
  · unfold wholeDigits
    split
    · rename_i after hafter
      cases hwhole : s.whole with
      | nil => exact absurd hwhole hs.whole_ne
      | cons c digits =>
        rw [hwhole] at hafter hhead
        obtain ⟨rfl, _⟩ := List.cons.inj hafter
        exact absurd rfl hhead
    · exact htake

theorem fractionDigits_tail (hs : s.Sound) (hr : Closed rest) :
    fractionDigits (s.tail ++ rest) = s.fraction := by
  unfold tail
  by_cases hfraction : s.fraction = []
  · rw [hfraction, List.isEmpty_nil, if_pos rfl, List.nil_append]
    have hpoint : (powerText s.power ++ rest).head? ≠ some '.' := by
      intro hhead
      cases hpower : s.power with
      | none =>
        rw [hpower] at hhead
        have := hr '.' hhead
        revert this
        decide
      | some power =>
        rw [hpower] at hhead
        cases hhead
    unfold fractionDigits
    split
    · rename_i after hafter
      rw [hafter] at hpoint
      exact absurd rfl hpoint
    · rfl
  · rw [if_neg (by simpa using hfraction), List.append_assoc]
    exact takeWhile_of_stops hs.fraction_digits (ended_powerText _ hr)

theorem exponentPart_powerText (hs : s.Sound) (hr : Closed rest) :
    exponentPart (powerText s.power ++ rest) = ((powerText s.power).length, s.exponent) := by
  have hdigits := hs.power_digits
  unfold exponent
  cases hpower : s.power with
  | none =>
    rw [powerText, List.nil_append]
    cases rest with
    | nil => rfl
    | cons c after =>
      have hc := hr c rfl
      have hne : ¬ (c = 'e' ∨ c = 'E') := by
        obtain rfl | rfl | rfl := hc
        · decide
        · decide
        · decide
      simp [exponentPart, hne]
  | some power =>
    obtain ⟨negative, digits⟩ := power
    obtain ⟨hne, hdigit⟩ := hdigits _ hpower
    have htake : (digits ++ rest).takeWhile isDigit = digits := takeWhile_of_stops hdigit hr.ended
    have hnumber : Text.numeral (digits.map fun d => d.toNat - 48) = numberOf digits :=
      numeral_map_eq digits
    cases negative
    · simp [powerText, exponentPart, htake, hnumber, hne]
      omega
    · simp [powerText, exponentPart, htake, hnumber, hne]
      omega

/-- Texts of sound parts that are equal have equal numerals. -/
theorem numeral_eq_of_text {s' : Spelling} (hs : s.Sound) (hs' : s'.Sound)
    (h : s.text = s'.text) (negative : Bool) : s.numeral negative = s'.numeral negative := by
  have hwhole : s.whole = s'.whole := by
    rw [← wholeDigits_text hs closed_nil, h, wholeDigits_text hs' closed_nil]
  have htail : s.tail = s'.tail := by
    rw [text, text, hwhole] at h
    exact List.append_cancel_left h
  have hfraction : s.fraction = s'.fraction := by
    rw [← fractionDigits_tail hs closed_nil, htail, fractionDigits_tail hs' closed_nil]
  have hpower : powerText s.power = powerText s'.power := by
    rw [tail, tail, hfraction] at htail
    exact List.append_cancel_left htail
  have hexponent : s.exponent = s'.exponent := by
    have hread := exponentPart_powerText hs closed_nil
    rw [hpower, exponentPart_powerText hs' closed_nil] at hread
    exact (Prod.mk.inj hread).2.symm
  rw [numeral, numeral, hwhole, hfraction, hexponent]

/-- A character that the text of a number may hold. -/
def isNumberChar (c : Char) : Bool := isDigit c || c = '-' || c = '+' || c = '.' || c = 'e'

theorem isNumberChar_of_isDigit {c : Char} (h : isDigit c = true) : isNumberChar c = true := by
  simp [isNumberChar, h]

/-- The sign of a number in front of its text. -/
def signed (negative : Bool) (text : List Char) : List Char :=
  if negative then '-' :: text else text

theorem isNumberChar_of_mem_text (hs : s.Sound) {c : Char} (hc : c ∈ s.text) :
    isNumberChar c = true := by
  unfold text tail at hc
  obtain hc | hc := List.mem_append.mp hc
  · exact isNumberChar_of_isDigit (hs.whole_digits c hc)
  obtain hc | hc := List.mem_append.mp hc
  · split_ifs at hc
    · cases hc
    · obtain rfl | hc := List.mem_cons.mp hc
      · rfl
      · exact isNumberChar_of_isDigit (hs.fraction_digits c hc)
  · cases hpower : s.power with
    | none =>
      rw [hpower] at hc
      cases hc
    | some power =>
      obtain ⟨negative, digits⟩ := power
      rw [hpower] at hc
      obtain rfl | hc := List.mem_cons.mp hc
      · rfl
      · obtain rfl | hc := List.mem_cons.mp hc
        · cases negative <;> rfl
        · exact isNumberChar_of_isDigit ((hs.power_digits _ hpower).2 c hc)

theorem isNumberChar_of_mem_signed (hs : s.Sound) {negative : Bool} {c : Char}
    (hc : c ∈ signed negative s.text) : isNumberChar c = true := by
  unfold signed at hc
  split_ifs at hc
  · obtain rfl | hc := List.mem_cons.mp hc
    · rfl
    · exact isNumberChar_of_mem_text hs hc
  · exact isNumberChar_of_mem_text hs hc

/-- Texts of numbers end where the same text ends. -/
theorem append_inj_of_closed {text text' rest rest' : List Char}
    (ht : ∀ c ∈ text, isNumberChar c = true) (ht' : ∀ c ∈ text', isNumberChar c = true)
    (hr : Closed rest) (hr' : Closed rest') (h : text ++ rest = text' ++ rest') :
    text = text' ∧ rest = rest' := by
  have hstops {rest : List Char} (hr : Closed rest) : ∀ c ∈ rest.head?, isNumberChar c = false := by
    intro c hc
    obtain rfl | rfl | rfl := hr c hc
    · rfl
    · rfl
    · rfl
  exact append_inj_of_stops ht ht' (hstops hr) (hstops hr') h

/-- The length of the point and the digits after it. -/
def pointLength (s : Spelling) : ℕ := if s.fraction.isEmpty then 0 else 1 + s.fraction.length

theorem length_tail (s : Spelling) :
    s.tail.length = s.pointLength + (powerText s.power).length := by
  unfold tail pointLength
  split_ifs
  · simp
  · simp
    omega

theorem drop_tail (s : Spelling) (rest : List Char) :
    (s.tail ++ rest).drop s.pointLength = powerText s.power ++ rest := by
  unfold tail pointLength
  split_ifs
  · simp
  · rw [List.append_assoc]
    exact List.drop_left' (by simp; omega)

/-- No point and no exponent were written. -/
theorem plain_iff (s : Spelling) : s.pointLength = 0 ∧ (powerText s.power).length = 0 ↔
    s.fraction = [] ∧ s.power = none := by
  have hpoint : s.pointLength = 0 ↔ s.fraction = [] := by
    unfold pointLength
    cases s.fraction <;> simp
  have hpower : (powerText s.power).length = 0 ↔ s.power = none := by
    cases s.power <;> simp [powerText]
  rw [hpoint, hpower]

theorem exists_text_eq_cons (hs : s.Sound) :
    ∃ c after, s.text = c :: after ∧ isDigit c = true := by
  cases hwhole : s.whole with
  | nil => exact absurd hwhole hs.whole_ne
  | cons c digits =>
    refine ⟨c, digits ++ s.tail, ?_, hs.whole_digits c (hwhole ▸ List.mem_cons_self)⟩
    rw [text, hwhole]
    rfl

/-- A number that is spelt in sound parts is read off them: as an integer if there are digits only,
and otherwise as the double nearest to the numeral. -/
theorem readNumber_text (hs : s.Sound) (hr : Closed rest) (hlimit : s.whole.length ≤ digitLimit)
    (negative : Bool) (offset : ℕ) :
    readNumber ⟨signed negative s.text ++ rest, offset⟩ =
      .ok (if s.fraction = [] ∧ s.power = none then
          .int (if negative then -numberOf s.whole else numberOf s.whole)
        else .double (s.numeral negative).toDouble,
        ⟨rest, offset + (signed negative s.text).length⟩) := by
  have hwhole := wholeDigits_text hs hr
  have hempty : s.whole.isEmpty = false := by simpa using hs.whole_ne
  have hdrop : (s.text ++ rest).drop s.whole.length = s.tail ++ rest := by simp [text]
  have hfraction := fractionDigits_tail hs hr
  have hpower : (s.text ++ rest).drop (s.whole.length + s.pointLength) =
      powerText s.power ++ rest := by
    rw [← List.drop_drop, hdrop, drop_tail]
  have hexponent := exponentPart_powerText hs hr
  have hlength : s.text.length =
      s.whole.length + s.pointLength + (powerText s.power).length := by
    rw [text, List.length_append, length_tail]
    omega
  have hafter : (s.text ++ rest).drop (s.whole.length + s.pointLength +
      (powerText s.power).length) = rest := by
    rw [← hlength, List.drop_left]
  have hpoint : (if s.fraction.isEmpty = true then 0 else 1 + s.fraction.length) =
      s.pointLength := rfl
  have hnone : ¬ digitLimit < s.whole.length := not_lt.mpr hlimit
  -- Without a sign the text begins with a digit, which rules the case of a minus out.
  have hminus : ∀ body, s.text ++ rest ≠ '-' :: body := by
    intro body hbody
    obtain ⟨c, after, hc, hdigit⟩ := exists_text_eq_cons hs
    rw [hc, List.cons_append] at hbody
    obtain ⟨rfl, _⟩ := List.cons.inj hbody
    cases hdigit
  unfold readNumber
  cases negative with
  | true =>
    simp only [signed, if_true, List.cons_append, hwhole, hempty, Bool.false_eq_true, if_false,
      hdrop, hfraction, hpoint, hpower, hexponent, plain_iff, hnone, numeral_map_eq,
      Cursor.advance, List.drop_succ_cons, List.drop_zero, hafter, List.length_cons, hlength]
    rw [Nat.add_assoc offset 1, Nat.add_comm 1]
    split_ifs
    · rfl
    · rfl
  | false =>
    simp only [signed, Bool.false_eq_true, if_false, hwhole, hempty, hdrop, hfraction,
      hpoint, hpower, hexponent, plain_iff, hnone, numeral_map_eq, Cursor.advance, hafter, hlength]
    split_ifs
    · rfl
    · rfl

end Spelling

end Stepwise
