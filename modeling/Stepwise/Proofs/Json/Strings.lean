import Mathlib.Tactic.Common
import Stepwise.Json.Read
import Stepwise.Json.Write

/-!
# Strings are read as they are written

The escaped characters of a JSON string are read one after the other, up to the closing quote. So a
string is read back from its text whatever follows it.

The escapes of a text can spell half of a surrogate pair alone, which is read as another character.
A text that spells halves only in pairs is read as what it spells.
-/

namespace Stepwise.Json

theorem consCode_ok (code : Nat) (codes : List Nat) (cursor : Cursor) :
    consCode code (.ok (codes, cursor)) = .ok (code :: codes, cursor) := rfl

theorem hexValue?_hexDigit : ∀ n < 16, Text.hexValue? (Text.hexDigit n) = some n := by decide

/-- Four digits are read as the number that they were made of. -/
theorem hexValue4?_hex {n : Nat} (h : n < 0x10000) :
    ∃ a b c d, Text.hex 4 n = [a, b, c, d] ∧ hexValue4? a b c d = some n := by
  refine ⟨_, _, _, _, rfl, ?_⟩
  have hdigit (k : Nat) : Text.hexValue? (Text.hexDigit (k % 16)) = some (k % 16) :=
    hexValue?_hexDigit _ (Nat.mod_lt _ (by decide))
  simp only [hexValue4?, hdigit, Option.bind_eq_bind, Option.bind_some, Option.pure_def,
    Option.some.injEq]
  omega

theorem readText_plain {c : Char} (hquote : c ≠ '"') (hslash : c ≠ '\\')
    (hcontrol : ¬ c.toNat < 0x20) (start offset : Nat) (rest : List Char) :
    readText start offset (c :: rest) = consCode c.toNat (readText start (offset + 1) rest) := by
  rw [readText]
  · exact if_neg hcontrol
  · exact hquote
  all_goals
    intros
    exact hslash (by assumption)

/-- A character that is written is read, whatever follows it. -/
theorem readText_escape (start offset : Nat) (c next : Char) (rest : List Char) :
    readText start offset (escape c ++ next :: rest) =
      consCode c.toNat (readText start (offset + (escape c).length) (next :: rest)) := by
  unfold escape
  split_ifs with hquote hn hr ht hb hf hcontrol
  · obtain rfl | rfl := hquote
    · rfl
    · rfl
  · subst hn
    rfl
  · subst hr
    rfl
  · subst ht
    rfl
  · subst hb
    rfl
  · subst hf
    rfl
  · obtain ⟨x, y, z, w, hhex, hvalue⟩ := hexValue4?_hex (n := c.toNat) (by omega)
    rw [hhex]
    simp only [List.cons_append, List.nil_append, readText, hvalue]
    rfl
  · rw [not_or] at hquote
    obtain ⟨hq, hs⟩ := hquote
    exact readText_plain hq hs hcontrol start offset (next :: rest)

/-- A string that is written is read up to its closing quote. -/
theorem readText_flatMap_escape (start offset : Nat) (s rest : List Char) :
    readText start offset (s.flatMap escape ++ '"' :: rest) =
      .ok (s.map Char.toNat, ⟨rest, offset + (s.flatMap escape).length + 1⟩) := by
  induction s generalizing offset with
  | nil => rfl
  | cons c s ih =>
    obtain ⟨next, later, hnext⟩ : ∃ next later,
        s.flatMap escape ++ '"' :: rest = next :: later := by
      cases hs : s.flatMap escape with
      | nil => exact ⟨_, _, rfl⟩
      | cons next later => exact ⟨_, _, rfl⟩
    rw [List.flatMap_cons, List.append_assoc, hnext, readText_escape, ← hnext, ih, consCode_ok,
      List.map_cons, List.length_append]
    simp only [Nat.add_assoc]

/-- The codes of characters are no halves of pairs. -/
theorem charsOfCodes_map_toNat (s : List Char) : charsOfCodes (s.map Char.toNat) = s := by
  have hvalid (c : Char) : c.toNat < 0xD800 ∨ 0xDFFF < c.toNat := by
    obtain h | ⟨h, _⟩ := c.valid
    · exact .inl h
    · exact .inr h
  have hhigh (c : Char) : isHighSurrogate c.toNat = false := by
    have := hvalid c
    rw [isHighSurrogate, decide_eq_false_iff_not]
    omega
  have hlow (c : Char) : isLowSurrogate c.toNat = false := by
    have := hvalid c
    rw [isLowSurrogate, decide_eq_false_iff_not]
    omega
  have hchar (c : Char) : charOfCode c.toNat = c := by
    rw [charOfCode, hhigh, hlow]
    exact Char.ofNat_toNat c
  induction s with
  | nil => rfl
  | cons c s ih =>
    cases s with
    | nil => simp [charsOfCodes, hchar]
    | cons d s =>
      rw [List.map_cons, List.map_cons, charsOfCodes, hhigh, hchar]
      simpa using ih

/-- A string is read back from its text. -/
theorem readString_writeText (s : String) (rest : List Char) (offset : Nat) :
    readString ⟨writeText s.toList ++ rest, offset⟩ =
      .ok (s, ⟨rest, offset + (writeText s.toList).length⟩) := by
  have hbody : (writeText s.toList ++ rest).drop 1 =
      s.toList.flatMap escape ++ '"' :: rest := by
    simp [writeText]
  have hlength : offset + (writeText s.toList).length =
      offset + 1 + (s.toList.flatMap escape).length + 1 := by
    simp [writeText]
    omega
  unfold readString
  dsimp only
  rw [hbody, readText_flatMap_escape, hlength]
  show Except.ok (String.ofList (charsOfCodes (s.toList.map Char.toNat)), _) = _
  rw [charsOfCodes_map_toNat, String.ofList_toList]

/-- Halves of pairs only stand together, the first one before the second one. -/
def arePaired : List Nat → Bool
  | [] => true
  | [code] => !(isHighSurrogate code || isLowSurrogate code)
  | high :: low :: rest =>
    if isHighSurrogate high && isLowSurrogate low then arePaired rest
    else !(isHighSurrogate high || isLowSurrogate high) && arePaired (low :: rest)

/-- The codes of the string that a text begins with, if it begins with one. -/
def codesOf : List Char → List Nat
  | '"' :: rest =>
    match readText 0 1 rest with
    | .ok (codes, _) => codes
    | .error _ => []
  | _ => []

/-- No string in a text spells half of a pair alone. -/
def isPaired (s : String) : Bool := s.toList.tails.all fun rest => arePaired (codesOf rest)

/-- The units of 16 bits that a code is written in. -/
def units (code : Nat) : List Nat :=
  if code < 0x10000 then [code]
  else [0xD800 + (code - 0x10000) / 0x400, 0xDC00 + (code - 0x10000) % 0x400]

theorem toNat_ofNat {n : Nat} (h : n.isValidChar) : (Char.ofNat n).toNat = n := by
  rw [Char.ofNat, dif_pos h]
  rfl

theorem toNat_charOfCode {n : Nat} (h : n < 0x110000)
    (hwhole : !(isHighSurrogate n || isLowSurrogate n)) : (charOfCode n).toNat = n := by
  rw [Bool.not_eq_true'] at hwhole
  rw [charOfCode, if_neg (by rw [hwhole]; decide)]
  simp only [isHighSurrogate, isLowSurrogate, Bool.or_eq_false_iff, decide_eq_false_iff_not]
    at hwhole
  refine toNat_ofNat ?_
  unfold Nat.isValidChar
  omega

/-- The character that two halves stand for together is written in them. -/
theorem units_pair {high low : Nat} (h : isHighSurrogate high && isLowSurrogate low) :
    units (Char.ofNat (0x10000 + (high - 0xD800) * 0x400 + (low - 0xDC00))).toNat =
      units high ++ units low := by
  simp only [isHighSurrogate, isLowSurrogate, Bool.and_eq_true, decide_eq_true_eq] at h
  rw [toNat_ofNat (by unfold Nat.isValidChar; omega)]
  unfold units
  rw [if_neg (by omega), if_pos (by omega), if_pos (by omega), List.singleton_append,
    List.cons.injEq, List.cons.injEq]
  exact ⟨by omega, by omega, rfl⟩

/-- Paired codes are read as what they spell: the characters are written in the same units. -/
theorem units_charsOfCodes {codes : List Nat} (hpaired : arePaired codes)
    (hcodes : ∀ code ∈ codes, code < 0x110000) :
    (charsOfCodes codes).flatMap (fun c => units c.toNat) = codes.flatMap units := by
  induction codes using charsOfCodes.induct with
  | case1 => rfl
  | case2 code =>
    rw [charsOfCodes, List.flatMap_singleton, List.flatMap_singleton,
      toNat_charOfCode (hcodes code (List.mem_singleton_self code)) hpaired]
  | case3 high low rest hpair ih =>
    rw [arePaired, if_pos hpair] at hpaired
    have hrest := ih hpaired fun code hcode =>
      hcodes code (List.mem_cons_of_mem high (List.mem_cons_of_mem low hcode))
    rw [charsOfCodes, if_pos hpair, List.flatMap_cons, units_pair hpair, hrest,
      List.flatMap_cons, List.flatMap_cons, List.append_assoc]
  | case4 high low rest hpair ih =>
    rw [arePaired, if_neg hpair, Bool.and_eq_true] at hpaired
    have hrest := ih hpaired.2 fun code hcode => hcodes code (List.mem_cons_of_mem high hcode)
    have hhigh := toNat_charOfCode (hcodes high List.mem_cons_self) hpaired.1
    rw [charsOfCodes, if_neg hpair, List.flatMap_cons, hrest, hhigh]
    rfl

end Stepwise.Json
