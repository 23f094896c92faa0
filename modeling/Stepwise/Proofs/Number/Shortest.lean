import Stepwise.Number.Shortest
import Stepwise.Proofs.Number.Numeral

/-!
# The shortest numeral of a double

The numerals that read back as a double form an interval around it. On the grid of numerals with so
many digits, the two points next to the double are the nearest on their sides, so one of them reads
back if any numeral with no more digits does. Seventeen digits are always enough. So the numeral
that is found has the fewest digits, and of the numerals with so many it is the nearest; of two that
are equally near, the even one.
-/

namespace Stepwise

open Double

namespace Decimal

/-! ## What reads back -/

/-- A finite double is the one that its own value is rounded to. -/
theorem rounded_value {s : Bool} {m e : ℕ} (h : Normal m e) :
    rounded ((Double.finite s m e h).value * scale) = m * 2 ^ e := by
  rw [Double.value, div_mul_cancel₀ _ scale_pos.ne']
  exact rounded_of_lowest h.lowest

/-- A numeral between a double and one that reads back reads back. -/
theorem toDouble_of_between {x : Double} (hx : x.isFinite = true) {d d' : Decimal}
    (hd : d.toDouble = x) (hs : d'.negative = d.negative)
    (h : d.value ≤ d'.value ∧ d'.value ≤ x.value ∨ x.value ≤ d'.value ∧ d'.value ≤ d.value) :
    d'.toDouble = x := by
  cases x with
  | nan => cases hx
  | infinite s => cases hx
  | finite s m e hn =>
    rw [toDouble_eq_finite_iff] at hd ⊢
    obtain ⟨hsign, hround⟩ := hd
    refine ⟨hs.trans hsign, ?_⟩
    have hself := rounded_value (s := s) hn
    have hmono {a b : ℚ} (ha : 0 ≤ a) (hab : a ≤ b) : rounded (a * scale) ≤ rounded (b * scale) :=
      rounded_mono (mul_nonneg ha scale_pos.le) (mul_le_mul_of_nonneg_right hab scale_pos.le)
    obtain ⟨hlow, hhigh⟩ | ⟨hlow, hhigh⟩ := h
    · have := hmono d.value_nonneg hlow
      have := hmono d'.value_nonneg hhigh
      omega
    · have := hmono d'.value_nonneg hhigh
      have := hmono (Double.finite s m e hn).value_nonneg hlow
      omega

/-! ## The grid of numerals with so many digits -/

variable {d : Decimal} {u : ℚ} {p : ℤ} {count : ℕ}

/-- A numeral with no more digits than the grid is a point of it, or below all of the grid that has
the magnitude of the double. -/
theorem exists_point_or_lt (g : ℤ) (hc : d.count ≤ count) (hp : p = g + count) :
    (∃ k : ℕ, d.value = k * 10 ^ g) ∨ d.value < 10 ^ (p - 1) := by
  by_cases hexponent : g ≤ d.exponent
  · refine .inl ⟨d.digits * 10 ^ (d.exponent - g).toNat, ?_⟩
    have hpow : (10 : ℚ) ^ d.exponent = 10 ^ (d.exponent - g).toNat * 10 ^ g := by
      rw [← zpow_natCast, ← zpow_add₀ (by norm_num)]
      congr 1
      omega
    rw [value, hpow]
    push_cast
    ring
  · refine .inr (d.value_lt.trans_le ?_)
    apply zpow_le_zpow_right₀ (by norm_num)
    unfold place
    omega

theorem pow_eq_point (g : ℤ) (hcount : 0 < count) (hp : p = g + count) :
    (10 : ℚ) ^ (p - 1) = (10 ^ (count - 1) : ℕ) * 10 ^ g := by
  push_cast
  rw [← zpow_natCast, ← zpow_add₀ (by norm_num)]
  congr 1
  omega

/-- The greatest point of the grid that is not above the double is the nearest numeral there. -/
theorem value_le_floor {g : ℤ} (hu : 10 ^ (p - 1) ≤ u) (hc : d.count ≤ count)
    (hp : p = g + count) (h : d.value ≤ u) : d.value ≤ ⌊u / 10 ^ g⌋₊ * 10 ^ g := by
  have hg : (0 : ℚ) < 10 ^ g := zpow_pos (by norm_num) g
  have hfloor (k : ℕ) (hk : (k : ℚ) * 10 ^ g ≤ u) :
      (k : ℚ) * 10 ^ g ≤ ⌊u / 10 ^ g⌋₊ * 10 ^ g := by
    have : k ≤ ⌊u / 10 ^ g⌋₊ := Nat.le_floor ((le_div_iff₀ hg).mpr hk)
    gcongr
  obtain ⟨k, hk⟩ | hlt := exists_point_or_lt g hc hp
  · rw [hk] at h ⊢
    exact hfloor k h
  · have hcount := d.count_pos.trans_le hc
    rw [pow_eq_point g hcount hp] at hu hlt
    exact hlt.le.trans (hfloor _ hu)

/-- The next point of the grid is the nearest numeral above the double. -/
theorem next_le_value {g : ℤ} (hu : 10 ^ (p - 1) ≤ u) (hc : d.count ≤ count)
    (hp : p = g + count) (h : u < d.value) :
    ((⌊u / 10 ^ g⌋₊ + 1 : ℕ) : ℚ) * 10 ^ g ≤ d.value := by
  have hg : (0 : ℚ) < 10 ^ g := zpow_pos (by norm_num) g
  have hnonneg : 0 ≤ u := (zpow_nonneg (by norm_num) _).trans hu
  obtain ⟨k, hk⟩ | hlt := exists_point_or_lt g hc hp
  · rw [hk] at h ⊢
    have hk : ⌊u / 10 ^ g⌋₊ + 1 ≤ k :=
      (Nat.floor_lt (div_nonneg hnonneg hg.le)).mpr ((div_lt_iff₀ hg).mpr h)
    gcongr
  · linarith

/-- One of the two points next to a number lies between it and a numeral with no more digits than
the grid. -/
theorem exists_point_between {g : ℤ} (hu : 10 ^ (p - 1) ≤ u) (hc : d.count ≤ count)
    (hp : p = g + count) : ∃ n : ℕ, (n = ⌊u / 10 ^ g⌋₊ ∨ n = ⌊u / 10 ^ g⌋₊ + 1) ∧
      (d.value ≤ n * 10 ^ g ∧ n * 10 ^ g ≤ u ∨ u ≤ n * 10 ^ g ∧ n * 10 ^ g ≤ d.value) := by
  have hg : (0 : ℚ) < 10 ^ g := zpow_pos (by norm_num) g
  have hnonneg : 0 ≤ u := (zpow_nonneg (by norm_num) _).trans hu
  by_cases hle : d.value ≤ u
  · refine ⟨_, .inl rfl, .inl ⟨value_le_floor hu hc hp hle, ?_⟩⟩
    exact (le_div_iff₀ hg).mp (Nat.floor_le (div_nonneg hnonneg hg.le))
  · refine ⟨_, .inr rfl, .inr ⟨?_, next_le_value hu hc hp (not_le.mp hle)⟩⟩
    have := (div_lt_iff₀ hg).mp (Nat.lt_floor_add_one (u / 10 ^ g))
    push_cast
    exact this.le

end Decimal

namespace Double

open Decimal

/-! ## The place of the point -/

theorem scale_le_pow : (scale : ℚ) ≤ 10 ^ 330 := by
  rw [scale_eq]
  calc (2 : ℚ) ^ 1074 = (2 ^ 93) ^ 11 * 2 ^ 51 := by rw [← pow_mul, ← pow_add]
    _ ≤ (10 ^ 28) ^ 11 * 10 ^ 22 := by
      apply mul_le_mul _ (by norm_num) (by positivity) (by positivity)
      exact pow_le_pow_left₀ (by norm_num) (by norm_num) 11
    _ = 10 ^ 330 := by rw [← pow_mul, ← pow_add]

/-- The digits of the whole part of a number that was scaled up tell its magnitude. -/
theorem magnitude_of_scaled {units k : ℕ} (hone : 1 ≤ (units : ℚ) / scale * 10 ^ k) :
    (10 : ℚ) ^ ((digitsOf (units * Nat.pow 10 k / scale)).length - k - 1 : ℤ) ≤ units / scale ∧
      (units : ℚ) / scale < 10 ^ ((digitsOf (units * Nat.pow 10 k / scale)).length - k : ℤ) := by
  have hfloor : units * Nat.pow 10 k / scale = ⌊(units : ℚ) / scale * 10 ^ k⌋₊ := by
    rw [← Nat.floor_div_eq_div (K := ℚ), div_mul_eq_mul_div, Nat.pow_eq]
    push_cast
    rfl
  rw [hfloor]
  have hne : ⌊(units : ℚ) / scale * 10 ^ k⌋₊ ≠ 0 := (Nat.floor_pos.mpr hone).ne'
  have hlength : 0 < (digitsOf ⌊(units : ℚ) / scale * 10 ^ k⌋₊).length :=
    Nat.length_toDigits_pos
  have hten : (0 : ℚ) < 10 ^ k := by positivity
  have hpow (j : ℤ) : (10 : ℚ) ^ (j - k) * 10 ^ k = 10 ^ j := by
    rw [← zpow_natCast, ← zpow_add₀ (by norm_num), sub_add_cancel]
  constructor
  · have hlow := pow_le_of_lt_length hne (Nat.sub_lt hlength one_pos)
    have hscaled := (Nat.le_floor_iff (by linarith)).mp hlow
    rw [← mul_le_mul_iff_left₀ hten, sub_right_comm, hpow, ← Nat.cast_pred hlength, zpow_natCast]
    exact_mod_cast hscaled
  · have hlt := lt_pow_length ⌊(units : ℚ) / scale * 10 ^ k⌋₊
    have hhigh := (Nat.floor_lt (by linarith)).mp hlt
    rw [← mul_lt_mul_iff_left₀ hten, hpow, zpow_natCast]
    exact_mod_cast hhigh

/-- The place of the point of a double that is not zero. -/
theorem pointPlace_spec {units : ℕ} (h : units ≠ 0) :
    (10 : ℚ) ^ (pointPlace units - 1) ≤ (units : ℚ) / scale ∧
      (units : ℚ) / scale < 10 ^ pointPlace units := by
  apply magnitude_of_scaled
  have hunits : (1 : ℚ) ≤ units := by exact_mod_cast Nat.one_le_iff_ne_zero.mpr h
  rw [div_mul_eq_mul_div, le_div_iff₀ scale_pos, one_mul]
  exact scale_le_pow.trans (le_mul_of_one_le_left (by positivity) hunits)

/-! ## Candidates -/

/-- The two points that are tried are those next to the double, the nearer one first. -/
theorem candidate?_eq (x : Double) (negative : Bool) (units count : ℕ) {g : ℤ}
    (hg : pointPlace units = g + count) :
    ∃ nearest other,
      candidate? x negative units count =
        [Decimal.mk negative nearest g, ⟨negative, other, g⟩].find? (·.toDouble = x) ∧
      IsNearest ((units : ℚ) / scale / 10 ^ g) nearest ∧
      (nearest = ⌊(units : ℚ) / scale / 10 ^ g⌋₊ ∧ other = nearest + 1 ∨
        other = ⌊(units : ℚ) / scale / 10 ^ g⌋₊ ∧ nearest = other + 1) := by
  obtain ⟨num, den, hden, hquotient, hcandidate⟩ : ∃ num den : ℕ, 0 < den ∧
      (num : ℚ) / den = (units : ℚ) / scale / 10 ^ g ∧
      candidate? x negative units count = ([roundHalfEven num den,
        if roundHalfEven num den = num / den then roundHalfEven num den + 1
          else num / den].map (Decimal.mk negative · g)).find? (·.toDouble = x) := by
    have hscale : 0 < scale := by exact_mod_cast scale_pos
    have hgrid : pointPlace units - count = g := by omega
    unfold candidate?
    rw [hgrid]
    by_cases hneg : g < 0
    · refine ⟨units * Nat.pow 10 (-g).toNat, scale, hscale, ?_, by simp only [if_pos hneg]⟩
      have hpow : (10 : ℚ) ^ g = (10 ^ (-g).toNat)⁻¹ := by
        rw [← zpow_natCast, ← zpow_neg, Int.toNat_of_nonneg (by omega), neg_neg]
      rw [hpow, div_inv_eq_mul, Nat.pow_eq]
      push_cast
      ring
    · refine ⟨units, scale * Nat.pow 10 g.toNat, Nat.mul_pos hscale (Nat.pow_pos (by decide)), ?_,
        by simp only [if_neg hneg]⟩
      have hpow : (10 : ℚ) ^ g = 10 ^ g.toNat := by
        rw [← zpow_natCast, Int.toNat_of_nonneg (by omega)]
      rw [hpow, div_div, Nat.pow_eq]
      push_cast
      rfl
  have hfloor : num / den = ⌊(units : ℚ) / scale / 10 ^ g⌋₊ := by
    rw [← hquotient, Nat.floor_div_eq_div]
  refine ⟨_, _, hcandidate, hquotient ▸ isNearest_roundHalfEven num hden, ?_⟩
  rw [← hfloor]
  by_cases hdown : roundHalfEven num den = num / den
  · rw [if_pos hdown]
    exact .inl ⟨hdown, rfl⟩
  · rw [if_neg hdown]
    refine .inr ⟨rfl, ?_⟩
    unfold roundHalfEven at hdown ⊢
    split_ifs at hdown ⊢ with hlow
    · exact absurd rfl hdown
    · rfl

/-- Of the numerals with at most so many digits that read back as a double, the nearest one: another
one is farther away, or it is as far, and has an odd digit where this one has an even one. -/
def Best (x : Double) (count : ℕ) (c : Decimal) : Prop :=
  ∀ d : Decimal, d.toDouble = x → d.count ≤ count → d.value ≠ c.value →
    |c.value - x.value| < |d.value - x.value| ∨
    |c.value - x.value| = |d.value - x.value| ∧ Even c.digits ∧
      ∃ n : ℕ, Odd n ∧ d.value = n * 10 ^ c.exponent

variable {s : Bool} {m e : ℕ} {h : Normal m e} {count : ℕ}

theorem abs_sub_le_of_between {a b u : ℚ} (h : a ≤ b ∧ b ≤ u ∨ u ≤ b ∧ b ≤ a) :
    |b - u| < |a - u| ∨ a = b := by
  by_cases hab : a = b
  · exact .inr hab
  · obtain ⟨hle, hu⟩ | ⟨hu, hle⟩ := h
    · have := lt_of_le_of_ne hle hab
      rw [abs_of_nonpos (by linarith), abs_of_nonpos (by linarith)]
      exact .inl (by linarith)
    · have := lt_of_le_of_ne hle (Ne.symm hab)
      rw [abs_of_nonneg (by linarith), abs_of_nonneg (by linarith)]
      exact .inl (by linarith)

theorem exists_units {x : Double} (hfinite : x.isFinite = true) (hnonzero : x.isZero = false) :
    ∃ s m e hn, x = .finite s m e hn ∧ m * 2 ^ e ≠ 0 := by
  cases x with
  | nan => cases hfinite
  | infinite s => cases hfinite
  | finite s m e hn =>
    have hm : m ≠ 0 := fun hzero => by simp [isZero, hzero] at hnonzero
    exact ⟨s, m, e, hn, rfl, by positivity⟩

/-- If a numeral with no more digits reads back, one of the two points next to the double does, and
it is the only numeral on its side that is so near. -/
theorem exists_point_reads (hunits : m * 2 ^ e ≠ 0) {g : ℤ}
    (hg : pointPlace (m * 2 ^ e) = g + count) {d : Decimal}
    (hd : d.toDouble = .finite s m e h) (hc : d.count ≤ count) :
    ∃ n : ℕ, (n = ⌊(Double.finite s m e h).value / 10 ^ g⌋₊ ∨
        n = ⌊(Double.finite s m e h).value / 10 ^ g⌋₊ + 1) ∧
      (⟨s, n, g⟩ : Decimal).toDouble = .finite s m e h ∧
      (|n * 10 ^ g - (Double.finite s m e h).value| <
          |d.value - (Double.finite s m e h).value| ∨ d.value = n * 10 ^ g) := by
  obtain ⟨n, hn, hbetween⟩ := exists_point_between (pointPlace_spec hunits).1 hc hg
  have hsign : s = d.negative := (toDouble_eq_finite_iff.mp hd).1.symm
  exact ⟨n, hn, toDouble_of_between rfl hd hsign hbetween, abs_sub_le_of_between hbetween⟩

/-- A candidate is found if there is a numeral that has no more digits and reads back. -/
theorem candidate?_isSome (hunits : m * 2 ^ e ≠ 0) {d : Decimal}
    (hd : d.toDouble = .finite s m e h) (hc : d.count ≤ count) :
    (candidate? (.finite s m e h) s (m * 2 ^ e) count).isSome = true := by
  have hg : pointPlace (m * 2 ^ e) = pointPlace (m * 2 ^ e) - count + count := by omega
  obtain ⟨nearest, other, hcandidate, _, hpoints⟩ :=
    candidate?_eq (.finite s m e h) s (m * 2 ^ e) count hg
  obtain ⟨n, hn, hreads, _⟩ := exists_point_reads hunits hg hd hc
  have hpoint : n = nearest ∨ n = other := by
    have hvalue : (Double.finite s m e h).value = ((m * 2 ^ e : ℕ) : ℚ) / scale := rfl
    rw [hvalue] at hn
    omega
  rw [hcandidate, List.find?_isSome]
  obtain rfl | rfl := hpoint
  · exact ⟨_, List.mem_cons_self, decide_eq_true hreads⟩
  · exact ⟨_, List.mem_cons_of_mem _ List.mem_cons_self, decide_eq_true hreads⟩

theorem abs_point_sub (n : ℕ) (g : ℤ) (u : ℚ) :
    |n * 10 ^ g - u| = |u / 10 ^ g - n| * 10 ^ g := by
  have hten : (0 : ℚ) < 10 ^ g := zpow_pos (by norm_num) g
  rw [← abs_of_pos hten, ← abs_mul, abs_of_pos hten, sub_mul, div_mul_cancel₀ _ hten.ne',
    abs_sub_comm]

/-- Of two points next to each other that are equally near to a number, one is taken for the nearest
if it is even; then the other is odd. -/
theorem even_of_tie {q : ℚ} {nearest other : ℕ} (hnearest : IsNearest q nearest)
    (hnext : other = nearest + 1 ∨ nearest = other + 1) (htie : |q - other| ≤ |q - nearest|) :
    Even nearest ∧ Odd other := by
  have hone : |(nearest : ℚ) - other| = 1 := by
    obtain rfl | rfl := hnext
    · push_cast
      rw [show (nearest : ℚ) - (nearest + 1) = -1 by ring]
      norm_num
    · push_cast
      rw [show (other : ℚ) + 1 - other = 1 by ring]
      norm_num
  have htriangle : |(nearest : ℚ) - other| ≤ |q - other| + |q - nearest| := by
    calc |(nearest : ℚ) - other| = |(q - other) - (q - nearest)| := by ring_nf
      _ ≤ |q - other| + |q - nearest| := abs_sub _ _
  have hnear := hnearest.near
  have heven := hnearest.even (by linarith)
  refine ⟨heven, ?_⟩
  obtain rfl | rfl := hnext
  · exact heven.add_one
  · exact Nat.not_even_iff_odd.mp (Nat.even_add_one.mp heven)

section

variable {g : ℤ} {nearest other : ℕ}

/-- The points next to the double are within the grid, the upper end included. -/
theorem floor_lt_pow (hunits : m * 2 ^ e ≠ 0) (hg : pointPlace (m * 2 ^ e) = g + count) :
    ⌊(Double.finite s m e h).value / 10 ^ g⌋₊ + 1 ≤ 10 ^ count := by
  have hten : (0 : ℚ) < 10 ^ g := zpow_pos (by norm_num) g
  have hlt : (Double.finite s m e h).value / 10 ^ g < (10 ^ count : ℕ) := by
    rw [div_lt_iff₀ hten]
    push_cast
    rw [← zpow_natCast, ← zpow_add₀ (by norm_num), add_comm, ← hg]
    exact (pointPlace_spec hunits).2
  exact (Nat.floor_lt (div_nonneg (value_nonneg _) hten.le)).mpr hlt

/-- If the nearest point reads back, it is the best numeral: what is as near is the point on the
other side, and that is odd. -/
theorem best_of_nearest (hunits : m * 2 ^ e ≠ 0) (hg : pointPlace (m * 2 ^ e) = g + count)
    (hnearest : IsNearest ((Double.finite s m e h).value / 10 ^ g) nearest)
    (hpoints : nearest = ⌊(Double.finite s m e h).value / 10 ^ g⌋₊ ∧ other = nearest + 1 ∨
      other = ⌊(Double.finite s m e h).value / 10 ^ g⌋₊ ∧ nearest = other + 1) :
    Best (.finite s m e h) count ⟨s, nearest, g⟩ := by
  intro d hd hc hne
  have hten : (0 : ℚ) < 10 ^ g := zpow_pos (by norm_num) g
  obtain ⟨n, hn, _, hnear⟩ := exists_point_reads hunits hg hd hc
  have hle : |nearest * 10 ^ g - (Double.finite s m e h).value| ≤
      |n * 10 ^ g - (Double.finite s m e h).value| := by
    rw [abs_point_sub, abs_point_sub]
    exact mul_le_mul_of_nonneg_right (hnearest.le_abs n) hten.le
  obtain hlt | heq := hnear
  · exact .inl (hle.trans_lt hlt)
  · have hother : n = other := by
      have : n ≠ nearest := fun hsame => hne (by rw [heq, hsame]; rfl)
      omega
    rw [heq]
    obtain hlt | htie := hle.lt_or_eq
    · exact .inl hlt
    · rw [abs_point_sub, abs_point_sub] at htie
      have htie' := mul_right_cancel₀ hten.ne' htie
      rw [hother] at htie'
      have hnext : other = nearest + 1 ∨ nearest = other + 1 := by omega
      obtain ⟨heven, hodd⟩ := even_of_tie hnearest hnext htie'.ge
      refine .inr ⟨?_, heven, n, hother ▸ hodd, rfl⟩
      show |(nearest : ℚ) * 10 ^ g - _| = _
      rw [abs_point_sub, abs_point_sub, htie]

/-- If the nearest point does not read back, the other one is the best numeral: all that read back
are on its side. -/
theorem best_of_other (hunits : m * 2 ^ e ≠ 0) (hg : pointPlace (m * 2 ^ e) = g + count)
    (hpoints : nearest = ⌊(Double.finite s m e h).value / 10 ^ g⌋₊ ∧ other = nearest + 1 ∨
      other = ⌊(Double.finite s m e h).value / 10 ^ g⌋₊ ∧ nearest = other + 1)
    (hfirst : (⟨s, nearest, g⟩ : Decimal).toDouble ≠ .finite s m e h) :
    Best (.finite s m e h) count ⟨s, other, g⟩ := by
  intro d hd hc hne
  obtain ⟨n, hn, hpoint, hnear⟩ := exists_point_reads hunits hg hd hc
  have hother : n = other := by
    have : n ≠ nearest := fun hsame => hfirst (hsame ▸ hpoint)
    omega
  rw [hother] at hnear
  exact .inl (hnear.resolve_right hne)

end

/-- The candidate that is found is the best numeral with no more digits. -/
theorem candidate?_eq_some (hunits : m * 2 ^ e ≠ 0) {c : Decimal}
    (hfound : candidate? (.finite s m e h) s (m * 2 ^ e) count = some c) :
    c.toDouble = .finite s m e h ∧ c.digits ≤ 10 ^ count ∧ Best (.finite s m e h) count c := by
  have hg : pointPlace (m * 2 ^ e) = pointPlace (m * 2 ^ e) - count + count := by omega
  generalize pointPlace (m * 2 ^ e) - count = g at hg
  obtain ⟨nearest, other, hcandidate, hnearest, hpoints⟩ :=
    candidate?_eq (.finite s m e h) s (m * 2 ^ e) count hg
  have hvalue : ((m * 2 ^ e : ℕ) : ℚ) / scale = (Double.finite s m e h).value := rfl
  rw [hvalue] at hnearest hpoints
  have hfloor := floor_lt_pow (s := s) (h := h) hunits hg
  rw [hcandidate] at hfound
  have hreads : c.toDouble = .finite s m e h := by simpa using List.find?_some hfound
  by_cases hfirst : (⟨s, nearest, g⟩ : Decimal).toDouble = .finite s m e h
  · rw [List.find?_cons_of_pos (by exact decide_eq_true hfirst)] at hfound
    cases hfound
    exact ⟨hreads, by show nearest ≤ _; omega, best_of_nearest hunits hg hnearest hpoints⟩
  · rw [List.find?_cons_of_neg (by simpa using hfirst), List.find?_singleton] at hfound
    split_ifs at hfound
    cases hfound
    exact ⟨hreads, by show other ≤ _; omega, best_of_other hunits hg hpoints hfirst⟩

/-! ## Seventeen digits -/

/-- Two doubles are apart by more than a part in `2 ^ 53`. -/
theorem Lowest.gap {m e m' e' : ℕ} (h : Lowest m e) (h' : Lowest m' e')
    (hne : m' * 2 ^ e' ≠ m * 2 ^ e) :
    ((m * 2 ^ e : ℕ) : ℚ) ≤ 2 ^ 53 * |((m' * 2 ^ e' : ℕ) : ℚ) - (m * 2 ^ e : ℕ)| := by
  by_cases hplace : e ≤ e'
  · -- Both are multiples of the last place of the first one.
    obtain ⟨k, hk⟩ : ∃ k : ℕ, m' * 2 ^ e' = k * 2 ^ e :=
      ⟨m' * 2 ^ (e' - e), by rw [mul_assoc, ← pow_add, Nat.sub_add_cancel hplace]⟩
    have hkm : k ≠ m := fun heq => hne (by rw [hk, heq])
    have hone : (1 : ℚ) ≤ |(k : ℚ) - m| := by
      have hdiff : (k : ℤ) - m ≠ 0 := by omega
      exact_mod_cast Int.one_le_abs hdiff
    have hmantissa : (m : ℚ) ≤ 2 ^ 53 := by exact_mod_cast h.1.le
    rw [hk]
    push_cast
    have hpos : (0 : ℚ) < 2 ^ e := by positivity
    rw [← sub_mul, abs_mul, abs_of_pos hpos, ← mul_assoc]
    apply mul_le_mul_of_nonneg_right _ hpos.le
    linarith
  · have hnormal : 2 ^ 52 ≤ m := by
      obtain hzero | hnormal := h.2
      · omega
      · exact hnormal
    have hbelow : m' * 2 ^ e' + 2 ^ e' ≤ 2 ^ 53 * 2 ^ e' := by
      rw [← Nat.succ_mul]
      exact Nat.mul_le_mul_right _ h'.1
    have habove : 2 ^ 53 * 2 ^ e' ≤ m * 2 ^ e := by
      calc 2 ^ 53 * 2 ^ e' = 2 ^ 52 * 2 ^ (e' + 1) := by rw [pow_succ 2 e']; ring
        _ ≤ m * 2 ^ e := Nat.mul_le_mul hnormal (Nat.pow_le_pow_right two_pos (by omega))
    have hbelow' : ((m' * 2 ^ e' : ℕ) : ℚ) + 2 ^ e' ≤ 2 ^ 53 * 2 ^ e' := by exact_mod_cast hbelow
    have habove' : (2 : ℚ) ^ 53 * 2 ^ e' ≤ (m * 2 ^ e : ℕ) := by exact_mod_cast habove
    have hpos : (0 : ℚ) < 2 ^ e' := by positivity
    rw [abs_of_nonpos (by linarith)]
    linarith

/-- What is nearer to a double than a part in `2 ^ 54` is rounded to it. -/
theorem rounded_of_close {q : ℚ} (hq : 0 ≤ q) (hlow : Lowest m e)
    (hclose : 2 ^ 54 * |q - (m * 2 ^ e : ℕ)| < (m * 2 ^ e : ℕ)) : rounded q = m * 2 ^ e := by
  by_contra hne
  obtain ⟨m', e', hlow', heq⟩ := exists_lowest hq
  have hgap := hlow.gap hlow' (heq ▸ hne)
  rw [← heq] at hgap
  have hnear := abs_sub_rounded_le hq hlow
  have htriangle : |(rounded q : ℚ) - (m * 2 ^ e : ℕ)| ≤
      |q - (m * 2 ^ e : ℕ)| + |q - rounded q| := by
    calc |(rounded q : ℚ) - (m * 2 ^ e : ℕ)|
        = |(q - (m * 2 ^ e : ℕ)) - (q - rounded q)| := by ring_nf
      _ ≤ |q - (m * 2 ^ e : ℕ)| + |q - rounded q| := abs_sub _ _
  linarith

/-- A numeral with seventeen digits always reads back. -/
theorem candidate?_seventeen (hunits : m * 2 ^ e ≠ 0) :
    (candidate? (.finite s m e h) s (m * 2 ^ e) 17).isSome = true := by
  have hg : pointPlace (m * 2 ^ e) = pointPlace (m * 2 ^ e) - (17 : ℕ) + (17 : ℕ) := by omega
  generalize pointPlace (m * 2 ^ e) - (17 : ℕ) = g at hg
  obtain ⟨nearest, other, hcandidate, hnearest, _⟩ :=
    candidate?_eq (.finite s m e h) s (m * 2 ^ e) 17 hg
  have hten : (0 : ℚ) < 10 ^ g := zpow_pos (by norm_num) g
  -- Half a step of the grid is less than a part in `10 ^ 16` of the double.
  have hstep : 10 ^ 16 * (10 : ℚ) ^ g * scale ≤ (m * 2 ^ e : ℕ) := by
    have hplace := (pointPlace_spec hunits).1
    rw [le_div_iff₀ scale_pos, hg, show g + (17 : ℕ) - 1 = 16 + g by push_cast; ring,
      zpow_add₀ (by norm_num)] at hplace
    exact_mod_cast hplace
  have hvalue : (⟨s, nearest, g⟩ : Decimal).value = nearest * 10 ^ g := rfl
  have hnear : |(⟨s, nearest, g⟩ : Decimal).value * scale - (m * 2 ^ e : ℕ)| * 2 ≤
      10 ^ g * scale := by
    have hhalf := hnearest.near
    have hscaled : |(⟨s, nearest, g⟩ : Decimal).value * scale - (m * 2 ^ e : ℕ)| =
        |((m * 2 ^ e : ℕ) : ℚ) / scale / 10 ^ g - nearest| * (10 ^ g * scale) := by
      have hpos : (0 : ℚ) < 10 ^ g * scale := mul_pos hten scale_pos
      rw [← abs_of_pos hpos, ← abs_mul, abs_sub_comm, hvalue, sub_mul, div_div,
        mul_comm (scale : ℚ), div_mul_cancel₀ _ hpos.ne', mul_assoc]
    rw [hscaled]
    have := mul_le_mul_of_nonneg_right hhalf (mul_pos hten scale_pos).le
    linarith
  have hpositive : (0 : ℚ) < (m * 2 ^ e : ℕ) := by exact_mod_cast Nat.pos_of_ne_zero hunits
  have hreads : (⟨s, nearest, g⟩ : Decimal).toDouble = .finite s m e h := by
    rw [toDouble_eq_finite_iff]
    refine ⟨rfl, rounded_of_close (mul_nonneg (Decimal.value_nonneg _) scale_pos.le) h.lowest ?_⟩
    linarith
  rw [hcandidate, List.find?_isSome]
  exact ⟨_, List.mem_cons_self, decide_eq_true hreads⟩

/-! ## The numeral that is found -/

theorem findSome?_range_eq_some {α : Type} {f : ℕ → Option α} {n : ℕ} {a : α}
    (h : (List.range n).findSome? f = some a) : ∃ j < n, f j = some a ∧ ∀ i < j, f i = none := by
  induction n with
  | zero => cases h
  | succ n ih =>
    rw [List.range_succ, List.findSome?_append] at h
    cases hbefore : (List.range n).findSome? f with
    | some b =>
      rw [hbefore, Option.some_or] at h
      obtain ⟨j, hj, hfound⟩ := ih (hbefore.trans h)
      exact ⟨j, by omega, hfound⟩
    | none =>
      rw [hbefore, Option.none_or, List.findSome?_singleton] at h
      refine ⟨n, by omega, h, fun i hi => ?_⟩
      exact List.findSome?_eq_none_iff.mp hbefore i (List.mem_range.mpr hi)

variable {d : Decimal}

theorem digits_ne_zero_of_reads (hunits : m * 2 ^ e ≠ 0) (hd : d.toDouble = .finite s m e h) :
    d.digits ≠ 0 := by
  intro hzero
  have hround := (toDouble_eq_finite_iff.mp hd).2
  rw [value_eq_zero_iff.mpr hzero, zero_mul, rounded_zero] at hround
  exact hunits hround.symm

theorem toDouble_reduced (hunits : m * 2 ^ e ≠ 0) (hd : d.toDouble = .finite s m e h) :
    d.reduced.toDouble = .finite s m e h := by
  have hvalue := (reduced_spec (digits_ne_zero_of_reads hunits hd)).2.1
  rw [toDouble_eq_finite_iff] at hd ⊢
  rwa [hvalue]

/-- A numeral of the grid, the upper end included, has no more digits once it is reduced. -/
theorem count_reduced_of_le_pow (hne : d.digits ≠ 0) (hcount : 0 < count)
    (hle : d.digits ≤ 10 ^ count) : d.reduced.count ≤ count := by
  obtain ⟨hreduced, _, z, heq, _⟩ := reduced_spec hne
  rw [Decimal.count, length_digitsOf_le_iff hcount]
  have hfactor : d.reduced.digits ≤ d.reduced.digits * 10 ^ z :=
    Nat.le_mul_of_pos_right _ (by positivity)
  apply lt_of_le_of_ne (by omega)
  intro hfull
  apply hreduced
  rw [hfull, ← Nat.succ_pred_eq_of_pos hcount, pow_succ]
  exact Nat.mul_mod_left _ 10

theorem Best.mono {x : Double} {k : ℕ} (hbest : Best x count d) (hle : k ≤ count) : Best x k d :=
  fun d' hd hc hne => hbest d' hd (hc.trans hle) hne

/-- For every finite double but zero a numeral is found. It reads back, with seventeen digits at
most; no numeral with fewer digits does, and of those with as many it is the best. -/
theorem shortest?_spec (hunits : m * 2 ^ e ≠ 0) :
    ∃ c : Decimal, (Double.finite s m e h).shortest? = some c.reduced ∧
      c.toDouble = .finite s m e h ∧ c.reduced.count ≤ 17 ∧
      (∀ d : Decimal, d.toDouble = .finite s m e h → c.reduced.count ≤ d.count) ∧
      Best (.finite s m e h) c.reduced.count c := by
  obtain ⟨c, hfound⟩ : ∃ c, (List.range 17).findSome?
      (fun n => candidate? (.finite s m e h) s (m * 2 ^ e) (n + 1)) = some c := by
    apply Option.isSome_iff_exists.mp
    rw [List.findSome?_isSome_iff]
    exact ⟨16, List.mem_range.mpr (by decide), candidate?_seventeen hunits⟩
  obtain ⟨j, hj, hc, hnone⟩ := findSome?_range_eq_some hfound
  obtain ⟨hreads, hdigits, hbest⟩ := candidate?_eq_some hunits hc
  have hcount : c.reduced.count ≤ j + 1 :=
    count_reduced_of_le_pow (digits_ne_zero_of_reads hunits hreads) j.succ_pos hdigits
  have hfewest (d : Decimal) (hd : d.toDouble = .finite s m e h) : j + 1 ≤ d.count := by
    by_contra hlt
    have hpos := d.count_pos
    have hle : d.count ≤ d.count - 1 + 1 := by omega
    have hsome := candidate?_isSome hunits hd hle
    rw [hnone (d.count - 1) (by omega)] at hsome
    cases hsome
  refine ⟨c, ?_, hreads, by omega, fun d hd => hcount.trans (hfewest d hd), hbest.mono hcount⟩
  unfold shortest?
  simp only [Nat.pow_eq, if_neg hunits, hfound, Option.getD_some]

end Double

namespace Decimal

/-- A numeral that has no digit to spare: it stands for a finite double other than zero, and no
numeral with fewer digits reads back as this. -/
structure Shortest (d : Decimal) : Prop where
  reduced : d.Reduced
  finite : d.toDouble.isFinite = true
  nonzero : d.toDouble.isZero = false
  fewest : ∀ d' : Decimal, d'.toDouble = d.toDouble → d.count ≤ d'.count

/-- Of the numerals with no more digits that read back as the same double, this is the nearest to
it; if another one is as near, then this one has even digits, counted to the last place of the
other. -/
def Preferred (d : Decimal) : Prop :=
  ∀ d' : Decimal, d'.toDouble = d.toDouble → d'.count ≤ d.count → d'.value ≠ d.value →
    |d.value - d.toDouble.value| < |d'.value - d.toDouble.value| ∨
    |d.value - d.toDouble.value| = |d'.value - d.toDouble.value| ∧
      Even (d.digits * 10 ^ (d.exponent - d'.exponent).toNat)

variable {d : Decimal}

/-- A numeral is preferred if its double is exactly its value. -/
theorem Preferred.of_exact (h : d.toDouble.value = d.value) : d.Preferred := by
  intro d' _ _ hne
  rw [h, sub_self, abs_zero]
  exact .inl (abs_pos.mpr (sub_ne_zero.mpr hne))

/-- An odd number of steps of a grid is no numeral with a greater exponent. -/
theorem exponent_le_of_odd {n : ℕ} {g : ℤ} (hodd : Odd n) (h : d.value = n * 10 ^ g) :
    d.exponent ≤ g := by
  by_contra hlt
  obtain ⟨k, hk⟩ : ∃ k : ℕ, d.exponent = g + (k + 1 : ℕ) := ⟨(d.exponent - g - 1).toNat, by omega⟩
  have hdigits : (d.digits : ℚ) * 10 ^ (k + 1) = n := by
    have hten : (10 : ℚ) ^ g ≠ 0 := zpow_ne_zero _ (by norm_num)
    apply mul_right_cancel₀ hten
    rw [← h, value, hk, zpow_add₀ (by norm_num), zpow_natCast]
    ring
  have hnat : d.digits * 10 ^ (k + 1) = n := by exact_mod_cast hdigits
  rw [← hnat] at hodd
  have heven : Even (d.digits * 10 ^ (k + 1)) := by
    apply Even.mul_left
    exact Even.pow_of_ne_zero (by decide) k.succ_ne_zero
  exact Nat.not_even_iff_odd.mpr hodd heven

namespace Shortest

theorem exists_units (h : d.Shortest) :
    ∃ s m e hn, d.toDouble = .finite s m e hn ∧ m * 2 ^ e ≠ 0 :=
  Double.exists_units h.finite h.nonzero

/-- A single digit cannot be spared. -/
theorem of_count_eq_one (hreduced : d.Reduced) (hcount : d.count = 1)
    (hfinite : d.toDouble.isFinite = true) (hnonzero : d.toDouble.isZero = false) : d.Shortest :=
  ⟨hreduced, hfinite, hnonzero, fun d' _ => hcount ▸ d'.count_pos⟩

/-- A numeral with no digit to spare has seventeen at most. -/
theorem count_le (h : d.Shortest) : d.count ≤ 17 := by
  obtain ⟨s, m, e, hn, hd, hunits⟩ := h.exists_units
  obtain ⟨c, _, hreads, hcount, _⟩ := shortest?_spec (s := s) (h := hn) hunits
  exact (h.fewest _ ((toDouble_reduced hunits hreads).trans hd.symm)).trans hcount

/-- A numeral with no digit to spare is the one that is found for its double exactly if it is the
preferred one. -/
theorem shortest?_eq_some_iff (h : d.Shortest) :
    d.toDouble.shortest? = some d ↔ d.Preferred := by
  obtain ⟨s, m, e, hn, hd, hunits⟩ := h.exists_units
  obtain ⟨c, hfound, hreads, _, hfewest, hbest⟩ := shortest?_spec (s := s) (h := hn) hunits
  have hreads' := toDouble_reduced hunits hreads
  obtain ⟨hreduced, hvalue, z, hdigits, hexponent⟩ :=
    reduced_spec (digits_ne_zero_of_reads hunits hreads)
  rw [hd, hfound, Option.some.injEq]
  constructor
  · rintro rfl d' hd' hcount hne
    rw [hd] at hd' ⊢
    rw [hvalue] at hne ⊢
    obtain hlt | ⟨htie, heven, n, hodd, hn'⟩ := hbest d' hd' hcount hne
    · exact .inl hlt
    · refine .inr ⟨htie, ?_⟩
      have hle := exponent_le_of_odd hodd hn'
      rw [show (c.reduced.exponent - d'.exponent).toNat =
        z + (c.exponent - d'.exponent).toNat by omega, pow_add, ← mul_assoc, ← hdigits]
      exact heven.mul_right _
  · intro hpreferred
    by_contra hne
    have hsign : c.reduced.negative = d.negative :=
      (toDouble_eq_finite_iff.mp hreads').1.trans (toDouble_eq_finite_iff.mp hd).1.symm
    have hdiffer : d.value ≠ c.value := fun heq =>
      hne (hreduced.ext h.reduced hsign (hvalue.trans heq.symm))
    have hcount := h.fewest _ (hreads'.trans hd.symm)
    have hnearer := hpreferred c.reduced (hreads'.trans hd.symm) (hfewest d hd)
      (by rw [hvalue]; exact hdiffer.symm)
    rw [hd, hvalue] at hnearer
    -- Each is nearest, so both are equally near, and the one that was found is even.
    obtain hlt | ⟨htie, _, n, hodd, hn'⟩ := hbest d hd hcount hdiffer
    · obtain hlt' | ⟨htie, _⟩ := hnearer
      · exact lt_asymm hlt hlt'
      · exact hlt.ne htie.symm
    · obtain hlt' | ⟨_, heven⟩ := hnearer
      · exact hlt'.ne htie.symm
      · have hpoint : d = ⟨d.negative, n, c.exponent⟩ := by
          have hlast : n % 10 ≠ 0 := by
            obtain ⟨k, rfl⟩ := hodd
            omega
          exact h.reduced.ext hlast rfl hn'
        have hdn : d.digits = n := congrArg Decimal.digits hpoint
        have hde : d.exponent = c.exponent := (congrArg Decimal.exponent hpoint).trans rfl
        rw [hdn, show (d.exponent - c.reduced.exponent).toNat = 0 by omega, pow_zero,
          mul_one] at heven
        exact Nat.not_even_iff_odd.mpr hodd heven

end Shortest

/-- For every finite double but zero there is a numeral with no digit to spare that is the preferred
one. -/
theorem exists_shortest {x : Double} (hx : x.isFinite = true) (hz : x.isZero = false) :
    ∃ d : Decimal, d.toDouble = x ∧ d.Shortest ∧ d.Preferred := by
  obtain ⟨s, m, e, hn, rfl, hunits⟩ := Double.exists_units hx hz
  obtain ⟨c, hfound, hreads, _, hfewest, _⟩ := shortest?_spec (s := s) (h := hn) hunits
  have hreads' := toDouble_reduced hunits hreads
  have hshortest : c.reduced.Shortest := {
    reduced := (reduced_spec (digits_ne_zero_of_reads hunits hreads)).1
    finite := by rw [hreads', hx]
    nonzero := by rw [hreads', hz]
    fewest := hreads' ▸ hfewest }
  refine ⟨c.reduced, hreads', hshortest, hshortest.shortest?_eq_some_iff.mp ?_⟩
  rw [hreads', hfound]

end Decimal

end Stepwise
