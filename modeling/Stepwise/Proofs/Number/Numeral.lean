import Mathlib.Algebra.Order.Field.Power
import Stepwise.Proofs.Number.Digits
import Stepwise.Proofs.Number.Rounding

/-!
# Numerals and the doubles nearest to them

A numeral stands for a number, its value, without the sign. The double nearest to it is the one that
its value in least units is rounded to, also where the numeral is settled by its magnitude alone. A
numeral with no zero at the right of its digits is told by its sign and its value.
-/

namespace Stepwise

namespace Decimal

/-- The number that a numeral stands for, without the sign. -/
def value (d : Decimal) : ℚ := d.digits * 10 ^ d.exponent

/-- How many digits a numeral has. -/
def count (d : Decimal) : ℕ := (digitsOf d.digits).length

/-- The number of digits before the point, counting zeros that the numeral does not have. -/
def place (d : Decimal) : ℤ := d.count + d.exponent

theorem count_pos (d : Decimal) : 0 < d.count := Nat.length_toDigits_pos

theorem length_digitsOf_le_iff {n k : ℕ} (hk : 0 < k) :
    (digitsOf n).length ≤ k ↔ n < 10 ^ k := Nat.length_toDigits_le_iff (by decide) hk

theorem lt_pow_length (n : ℕ) : n < 10 ^ (digitsOf n).length :=
  (length_digitsOf_le_iff Nat.length_toDigits_pos).mp le_rfl

theorem pow_le_of_lt_length {n k : ℕ} (hn : n ≠ 0) (h : k < (digitsOf n).length) :
    10 ^ k ≤ n := by
  by_cases hk : k = 0
  · rw [hk]
    omega
  · have := (length_digitsOf_le_iff (n := n) (k := k) (by omega)).not.mp (by omega)
    omega

theorem value_nonneg (d : Decimal) : 0 ≤ d.value := by
  unfold value
  positivity

theorem value_eq_zero_iff {d : Decimal} : d.value = 0 ↔ d.digits = 0 := by
  simp [value, zpow_ne_zero]

theorem value_lt (d : Decimal) : d.value < 10 ^ d.place := by
  have hdigits : (d.digits : ℚ) < 10 ^ d.count := by exact_mod_cast lt_pow_length d.digits
  calc d.value < 10 ^ d.count * (10 : ℚ) ^ d.exponent := by
        unfold value
        gcongr
    _ = 10 ^ d.place := by rw [place, zpow_add₀ (by norm_num), zpow_natCast]

theorem le_value {d : Decimal} (h : d.digits ≠ 0) : 10 ^ (d.place - 1) ≤ d.value := by
  have hcount := d.count_pos
  have hdigits : 10 ^ (d.count - 1) ≤ d.digits :=
    pow_le_of_lt_length h (Nat.sub_lt hcount one_pos)
  have hcast : (10 : ℚ) ^ (d.count - 1) ≤ d.digits := by exact_mod_cast hdigits
  calc (10 : ℚ) ^ (d.place - 1) = 10 ^ (d.count - 1) * (10 : ℚ) ^ d.exponent := by
        rw [← zpow_natCast, ← zpow_add₀ (by norm_num)]
        congr 1
        unfold place
        omega
    _ ≤ d.value := by
        unfold value
        gcongr

end Decimal

namespace Double

/-- The units of a double without its sign. -/
def units : Double → ℕ
  | .finite _ mantissa exponent _ => mantissa * 2 ^ exponent
  | _ => 0

/-- The number that a finite double stands for, without the sign. -/
def value (x : Double) : ℚ := x.units / scale

theorem scale_eq : (scale : ℚ) = 2 ^ 1074 := by
  delta scale
  generalize 1074 = k
  exact Nat.cast_pow 2 k

theorem scale_pos : (0 : ℚ) < scale := by
  rw [scale_eq]
  positivity

theorem value_nonneg (x : Double) : 0 ≤ x.value := div_nonneg (Nat.cast_nonneg _) scale_pos.le

theorem rounded_zero : rounded 0 = 0 := by
  have := rounded_of_lowest (m := 0) (e := 0) ⟨by norm_num, .inl rfl⟩
  simpa using this

/-- A number below half a unit is rounded to zero. -/
theorem rounded_of_lt_half {q : ℚ} (hq : 0 ≤ q) (h : q < 1 / 2) : rounded q = 0 := by
  have hzero := abs_sub_rounded_le hq (m := 0) (e := 0) ⟨by norm_num, .inl rfl⟩
  norm_num at hzero
  rw [abs_of_nonneg hq] at hzero
  by_contra hne
  have hone : (1 : ℚ) ≤ rounded q := by exact_mod_cast Nat.one_le_iff_ne_zero.mpr hne
  have := (abs_le.mp hzero).1
  linarith

/-- From the first number on that has a greater last place, nothing is rounded to a double. -/
theorem rounded_ne_of_le {q : ℚ} {k : ℕ} (hq : 2 ^ 52 * 2 ^ (k + 1) ≤ q) {m e : ℕ}
    (h : Lowest m e) (he : e ≤ k) : rounded q ≠ m * 2 ^ e := by
  have hround : 2 ^ 52 * 2 ^ (k + 1) ≤ rounded q := by
    have hlowest : Lowest (2 ^ 52) (k + 1) := ⟨by norm_num, .inr le_rfl⟩
    rw [← rounded_of_lowest hlowest]
    apply rounded_mono (by positivity)
    push_cast
    exact hq
  have hbelow : m * 2 ^ e < 2 ^ 52 * 2 ^ (k + 1) := by
    calc m * 2 ^ e < 2 ^ 53 * 2 ^ e := Nat.mul_lt_mul_of_pos_right h.1 (by positivity)
      _ ≤ 2 ^ 53 * 2 ^ k := Nat.mul_le_mul_left _ (Nat.pow_le_pow_right two_pos he)
      _ = 2 ^ 52 * 2 ^ (k + 1) := by rw [pow_succ 2 k]; ring
  omega

end Double

namespace Decimal

open Double

theorem two_pow_le : (2 : ℚ) ^ 1024 ≤ 10 ^ 310 := by
  calc (2 : ℚ) ^ 1024 ≤ 2 ^ (93 * 11 + 1) := pow_le_pow_right₀ (by norm_num) (by norm_num)
    _ = (2 ^ 93) ^ 11 * 2 := by rw [pow_succ, pow_mul]
    _ ≤ (10 ^ 28) ^ 11 * 10 := by
      apply mul_le_mul _ (by norm_num) (by norm_num) (by positivity)
      exact pow_le_pow_left₀ (by norm_num) (by norm_num) 11
    _ = 10 ^ (28 * 11 + 1) := by rw [pow_succ 10 (28 * 11), pow_mul]
    _ ≤ 10 ^ 310 := pow_le_pow_right₀ (by norm_num) (by norm_num)

theorem pow_mul_scale_le : (10 : ℚ) ^ (-400 : ℤ) * scale ≤ 1 / 2 := by
  have hpow : (2 : ℚ) ^ 1075 ≤ 10 ^ 400 := by
    calc (2 : ℚ) ^ 1075 ≤ 2 ^ (3 * 400) := pow_le_pow_right₀ (by norm_num) (by norm_num)
      _ = (2 ^ 3) ^ 400 := pow_mul 2 3 400
      _ ≤ 10 ^ 400 := pow_le_pow_left₀ (by norm_num) (by norm_num) 400
  have hscale : (2 : ℚ) ^ 1075 = scale * 2 := by rw [scale_eq, pow_succ]
  rw [zpow_neg, inv_mul_le_iff₀ (by positivity), mul_one_div, le_div_iff₀ two_pos, ← hscale]
  exact_mod_cast hpow

/-- A numeral with more than 310 digits before the point is rounded to no finite double. -/
theorem rounded_ne_of_large {d : Decimal} (hdigits : d.digits ≠ 0) (hlarge : 310 < d.place)
    {m e : ℕ} (h : Normal m e) : rounded (d.value * scale) ≠ m * 2 ^ e := by
  have hvalue : (2 : ℚ) ^ 1024 ≤ d.value := by
    calc (2 : ℚ) ^ 1024 ≤ 10 ^ 310 := two_pow_le
      _ = 10 ^ (310 : ℤ) := (zpow_natCast 10 310).symm
      _ ≤ 10 ^ (d.place - 1) := zpow_le_zpow_right₀ (by norm_num) (by omega)
      _ ≤ d.value := le_value hdigits
  have hunits : (2 : ℚ) ^ 52 * 2 ^ (2045 + 1) ≤ d.value * scale := by
    calc (2 : ℚ) ^ 52 * 2 ^ (2045 + 1) = 2 ^ 1024 * scale := by
          rw [scale_eq, ← pow_add, ← pow_add]
      _ ≤ d.value * scale := mul_le_mul_of_nonneg_right hvalue scale_pos.le
  exact rounded_ne_of_le hunits h.lowest h.2.1

/-- A numeral with more than 400 zeros behind the point is rounded to zero. -/
theorem rounded_of_small {d : Decimal} (hsmall : d.place < -400) :
    rounded (d.value * scale) = 0 := by
  apply rounded_of_lt_half (mul_nonneg d.value_nonneg scale_pos.le)
  calc d.value * scale < 10 ^ d.place * scale := mul_lt_mul_of_pos_right d.value_lt scale_pos
    _ ≤ 10 ^ (-400 : ℤ) * scale := by
      apply mul_le_mul_of_nonneg_right _ scale_pos.le
      exact zpow_le_zpow_right₀ (by norm_num) hsmall.le
    _ ≤ 1 / 2 := pow_mul_scale_le

/-- The double nearest to a numeral, if it is finite, is told by the value in least units. -/
theorem toDouble_eq_finite_iff {d : Decimal} {s : Bool} {m e : ℕ} {h : Normal m e} :
    d.toDouble = .finite s m e h ↔
      d.negative = s ∧ rounded (d.value * scale) = m * 2 ^ e := by
  show (if d.digits = 0 then ofUnits d.negative 0 1
    else if 310 < d.place then .infinite d.negative
    else if d.place < -400 then ofUnits d.negative 0 1
    else if 0 ≤ d.exponent then
      ofUnits d.negative (d.digits * Nat.pow 10 d.exponent.toNat * scale) 1
    else ofUnits d.negative (d.digits * scale) (Nat.pow 10 (-d.exponent).toNat)) = _ ↔ _
  split_ifs with hdigits hlarge hsmall hexponent
  · rw [ofUnits_eq_finite_iff one_pos, value_eq_zero_iff.mpr hdigits, zero_mul, Nat.cast_zero,
      zero_div]
  · refine iff_of_false (fun heq => ?_) fun hround => rounded_ne_of_large hdigits hlarge h hround.2
    cases heq
  · rw [ofUnits_eq_finite_iff one_pos, rounded_of_small hsmall, Nat.cast_zero, zero_div,
      rounded_zero]
  · rw [ofUnits_eq_finite_iff one_pos]
    have hq : ((d.digits * Nat.pow 10 d.exponent.toNat * scale : ℕ) : ℚ) / (1 : ℕ) =
        d.value * scale := by
      have hpow : (10 : ℚ) ^ d.exponent.toNat = 10 ^ d.exponent := by
        rw [← zpow_natCast, Int.toNat_of_nonneg hexponent]
      rw [value, ← hpow, Nat.pow_eq]
      push_cast
      ring
    rw [hq]
  · have hpos : 0 < Nat.pow 10 (-d.exponent).toNat := Nat.pow_pos (by decide)
    rw [ofUnits_eq_finite_iff hpos]
    have hq : ((d.digits * scale : ℕ) : ℚ) / (Nat.pow 10 (-d.exponent).toNat : ℕ) =
        d.value * scale := by
      have hpow : (10 : ℚ) ^ (-d.exponent).toNat = (10 ^ d.exponent)⁻¹ := by
        rw [← zpow_natCast, Int.toNat_of_nonneg (by omega), zpow_neg]
      rw [value, Nat.pow_eq]
      push_cast
      rw [hpow, div_inv_eq_mul]
      ring
    rw [hq]

/-- Numerals with one sign and one value have one finite double. -/
theorem toDouble_congr {d d' : Decimal} (hs : d.negative = d'.negative) (hv : d.value = d'.value)
    (h : d'.toDouble.isFinite = true) : d.toDouble = d'.toDouble := by
  cases hd : d'.toDouble with
  | nan =>
    rw [hd] at h
    cases h
  | infinite s =>
    rw [hd] at h
    cases h
  | finite s m e hn =>
    rw [toDouble_eq_finite_iff] at hd ⊢
    rwa [hs, hv]

/-! ## Reduced numerals -/

/-- A numeral with no zero at the right of its digits. -/
def Reduced (d : Decimal) : Prop := d.digits % 10 ≠ 0

instance (d : Decimal) : Decidable d.Reduced := by
  unfold Reduced
  infer_instance

theorem Reduced.digits_ne_zero {d : Decimal} (h : d.Reduced) : d.digits ≠ 0 := by
  intro hzero
  exact h (by rw [hzero])

/-- A reduced numeral is told by its sign and its value. -/
theorem Reduced.ext {d d' : Decimal} (h : d.Reduced) (h' : d'.Reduced)
    (hs : d.negative = d'.negative) (hv : d.value = d'.value) : d = d' := by
  have hle {d d' : Decimal} (h : d.Reduced) (hv : d.value = d'.value) :
      d'.exponent ≤ d.exponent := by
    by_contra hlt
    obtain ⟨k, hk⟩ : ∃ k : ℕ, d'.exponent = d.exponent + (k + 1 : ℕ) :=
      ⟨(d'.exponent - d.exponent - 1).toNat, by omega⟩
    have hpow : (10 : ℚ) ^ d.exponent ≠ 0 := zpow_ne_zero _ (by norm_num)
    have hdigits : (d.digits : ℚ) = d'.digits * 10 ^ (k + 1) := by
      apply mul_right_cancel₀ hpow
      have hpower : (10 : ℚ) ^ d'.exponent = 10 ^ (k + 1) * 10 ^ d.exponent := by
        rw [hk, zpow_add₀ (by norm_num), zpow_natCast, mul_comm]
      rw [mul_assoc, ← hpower]
      exact hv
    have hnat : d.digits = d'.digits * 10 ^ (k + 1) := by exact_mod_cast hdigits
    apply h
    rw [hnat, pow_succ, ← mul_assoc]
    exact Nat.mul_mod_left _ 10
  have hexponent : d.exponent = d'.exponent := le_antisymm (hle h' hv.symm) (hle h hv)
  have hdigits : (d.digits : ℚ) = d'.digits := by
    have hpow : (10 : ℚ) ^ d.exponent ≠ 0 := zpow_ne_zero _ (by norm_num)
    apply mul_right_cancel₀ hpow
    rw [value, value, ← hexponent] at hv
    exact hv
  cases d
  cases d'
  simp only [Decimal.mk.injEq]
  exact ⟨hs, by exact_mod_cast hdigits, hexponent⟩

theorem stripZeros_spec {fuel n : ℕ} (hn : n ≠ 0) (hfuel : n < 10 ^ fuel) :
    n = (stripZeros fuel n).1 * 10 ^ (stripZeros fuel n).2 ∧ (stripZeros fuel n).1 % 10 ≠ 0 := by
  induction fuel generalizing n with
  | zero =>
    rw [pow_zero] at hfuel
    omega
  | succ fuel ih =>
    unfold stripZeros
    split_ifs with hzero
    · obtain ⟨_, hmod⟩ := hzero
      rw [pow_succ] at hfuel
      obtain ⟨heq, hne⟩ := ih (n := n / 10) (by omega) (by omega)
      refine ⟨?_, hne⟩
      have hten : n = n / 10 * 10 := by omega
      rw [pow_succ, ← mul_assoc, ← heq]
      exact hten
    · rw [not_and] at hzero
      exact ⟨by rw [pow_zero, mul_one], hzero hn⟩

variable {d : Decimal}

theorem reduced_spec (h : d.digits ≠ 0) :
    d.reduced.Reduced ∧ d.reduced.value = d.value ∧
      ∃ z : ℕ, d.digits = d.reduced.digits * 10 ^ z ∧ d.reduced.exponent = d.exponent + z := by
  obtain ⟨heq, hne⟩ := stripZeros_spec h (lt_pow_length d.digits)
  refine ⟨hne, ?_, _, heq, rfl⟩
  show ((stripZeros _ d.digits).1 : ℚ) * 10 ^ (d.exponent + _) = d.digits * 10 ^ d.exponent
  rw [zpow_add₀ (by norm_num), zpow_natCast]
  have hcast : (d.digits : ℚ) = (stripZeros (digitsOf d.digits).length d.digits).1 *
      10 ^ (stripZeros (digitsOf d.digits).length d.digits).2 := by exact_mod_cast heq
  rw [hcast]
  ring

end Decimal

end Stepwise
