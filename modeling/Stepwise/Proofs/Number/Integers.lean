import Mathlib.Tactic.IntervalCases
import Stepwise.Proofs.Number.Spelling
import Stepwise.Proofs.Template.Access
import Stepwise.Value.Shown

/-!
# Integers as doubles

The double nearest to an integer, be it converted or read from its decimal text, stands at a place
of the number line that keeps 53 binary digits of the integer, or at an end of the line from half a
step beyond the greatest double on. Places keep the order of the integers, but not every two
integers have two places.
-/

namespace Stepwise

namespace Double

variable {n k : ℕ}

/-! ## Rounding whole numbers -/

theorem lowest_of_lt (h : n < 2 ^ 53) : Lowest n 0 := ⟨h, .inl rfl⟩

theorem rounded_natCast_of_lt (h : n < 2 ^ 53) : rounded (n : ℚ) = n := by
  have := rounded_of_lowest (lowest_of_lt h)
  rwa [pow_zero, mul_one] at this

theorem lastPlace_natCast (n : ℕ) : lastPlace (n : ℚ) = n.log2 + 1 - 53 := by
  rw [lastPlace, Nat.floor_natCast]

/-- Twice a number is rounded to twice what the number is rounded to. -/
theorem rounded_two_mul (n : ℕ) : rounded ((2 * n : ℕ) : ℚ) = 2 * rounded (n : ℚ) := by
  by_cases hsmall : n < 2 ^ 52
  · rw [rounded_natCast_of_lt (by omega), rounded_natCast_of_lt (by omega)]
  · -- The last place is a digit higher, so that both are the same number of their last places.
    have hn : n ≠ 0 := by omega
    have hlog : 52 ≤ n.log2 := (Nat.le_log2 hn).mpr (by omega)
    have hplace : lastPlace ((2 * n : ℕ) : ℚ) = lastPlace (n : ℚ) + 1 := by
      rw [lastPlace_natCast, lastPlace_natCast, Nat.log2_two_mul hn]
      omega
    obtain ⟨r, hr, heq⟩ := exists_rounded_eq (q := (n : ℚ)) (by positivity)
    obtain ⟨r', hr', heq'⟩ := exists_rounded_eq (q := ((2 * n : ℕ) : ℚ)) (by positivity)
    have hscaled : ((2 * n : ℕ) : ℚ) / 2 ^ lastPlace ((2 * n : ℕ) : ℚ) =
        (n : ℚ) / 2 ^ lastPlace (n : ℚ) := by
      rw [hplace, pow_succ' 2, Nat.cast_mul, Nat.cast_two]
      exact mul_div_mul_left _ _ two_ne_zero
    rw [hscaled] at hr'
    rw [heq, heq', hr'.unique hr, hplace, pow_succ' 2]
    ring

/-- Rounding commutes with powers of two. -/
theorem rounded_mul_pow (n k : ℕ) : rounded ((n * 2 ^ k : ℕ) : ℚ) = rounded (n : ℚ) * 2 ^ k := by
  induction k with
  | zero => rw [pow_zero, mul_one, mul_one]
  | succ k ih =>
    have htwice : n * 2 ^ (k + 1) = 2 * (n * 2 ^ k) := by ring
    rw [htwice, rounded_two_mul, ih]
    ring

theorem rounded_natCast_of_le (h : n ≤ 2 ^ 53) : rounded (n : ℚ) = n := by
  obtain hlt | rfl := Nat.lt_or_eq_of_le h
  · exact rounded_natCast_of_lt hlt
  · have := rounded_of_lowest (m := 2 ^ 52) (e := 1) ⟨by norm_num, .inr le_rfl⟩
    exact_mod_cast this

/-- The least number that is rounded up to the 54th power of two. -/
theorem rounded_half_step : rounded ((2 ^ 54 - 1 : ℕ) : ℚ) = 2 ^ 54 := by
  have hplace : lastPlace ((2 ^ 54 - 1 : ℕ) : ℚ) = 1 := by
    rw [lastPlace_natCast]
    decide
  obtain ⟨r, hr, heq⟩ := exists_rounded_eq (q := ((2 ^ 54 - 1 : ℕ) : ℚ)) (by positivity)
  -- Two integers are equally near, and this is the even one.
  have heven : IsNearest (((2 ^ 54 - 1 : ℕ) : ℚ) / 2 ^ 1) (2 ^ 53) := by
    constructor
    · norm_num [abs_le]
    · exact fun _ => ⟨2 ^ 52, by norm_num⟩
  rw [hplace] at hr heq
  rw [heq, hr.unique heven]
  norm_num

/-- From half a step before it on, numbers are rounded to a power of two at least. -/
theorem le_rounded_iff : 2 ^ 54 * 2 ^ k ≤ rounded (n : ℚ) ↔ (2 ^ 54 - 1) * 2 ^ k ≤ n := by
  have hpos : 0 < 2 ^ k := by positivity
  constructor
  · intro h
    by_contra hlt
    have hlast : Lowest (2 ^ 53 - 1) (k + 1) := ⟨by norm_num, .inr (by norm_num)⟩
    have hstep : (2 ^ 53 - 1) * 2 ^ (k + 1) = (2 ^ 54 - 2) * 2 ^ k := by
      rw [pow_succ' 2 k]
      ring
    by_cases hbelow : n ≤ (2 ^ 53 - 1) * 2 ^ (k + 1)
    · have hround : rounded (n : ℚ) ≤ (2 ^ 53 - 1) * 2 ^ (k + 1) := by
        rw [← rounded_of_lowest hlast]
        exact rounded_mono (by positivity) (by exact_mod_cast hbelow)
      omega
    · -- The double before the power of two is nearer.
      have hnear := abs_sub_rounded_le (q := (n : ℚ)) (by positivity) hlast
      have habove : (n : ℚ) ≤ rounded (n : ℚ) := by
        have : n ≤ rounded (n : ℚ) := by omega
        exact_mod_cast this
      have hbelow' : (((2 ^ 53 - 1) * 2 ^ (k + 1) : ℕ) : ℚ) ≤ n := by
        have : (2 ^ 53 - 1) * 2 ^ (k + 1) ≤ n := by omega
        exact_mod_cast this
      rw [abs_of_nonpos (by linarith), abs_of_nonneg (by linarith)] at hnear
      have hdistance : rounded (n : ℚ) + (2 ^ 53 - 1) * 2 ^ (k + 1) ≤ n + n := by
        have : (rounded (n : ℚ) : ℚ) + ((2 ^ 53 - 1) * 2 ^ (k + 1) : ℕ) ≤ n + n := by linarith
        exact_mod_cast this
      omega
  · intro h
    calc 2 ^ 54 * 2 ^ k = rounded (((2 ^ 54 - 1) * 2 ^ k : ℕ) : ℚ) := by
          rw [rounded_mul_pow, rounded_half_step]
      _ ≤ rounded (n : ℚ) := rounded_mono (by positivity) (by exact_mod_cast h)

/-! ## Conversion -/

/-- A quotient of units makes a finite double or an infinite one, of its sign. -/
theorem ofUnits_form (negative : Bool) (num den : ℕ) :
    (∃ m e h, ofUnits negative num den = .finite negative m e h) ∨
      ofUnits negative num den = .infinite negative := by
  unfold ofUnits
  dsimp only
  split_ifs with _ hnormal hnormal
  · exact .inl ⟨_, _, hnormal, rfl⟩
  · exact .inr rfl
  · exact .inl ⟨_, _, hnormal, rfl⟩
  · exact .inr rfl

/-- A quotient of units that is rounded to no finite double makes an infinite one. -/
theorem ofUnits_eq_infinite {negative : Bool} {num den : ℕ} (hden : 0 < den)
    (h : ∀ m e, Normal m e → rounded ((num : ℚ) / den) ≠ m * 2 ^ e) :
    ofUnits negative num den = .infinite negative := by
  obtain ⟨m, e, hnormal, hfinite⟩ | hinfinite := ofUnits_form negative num den
  · exact absurd ((ofUnits_eq_finite_iff hden).mp hfinite).2 (h m e hnormal)
  · exact hinfinite

theorem ofInt_eq (n : ℤ) : ofInt n = ofUnits (decide (n < 0)) (n.natAbs * scale) 1 := by
  cases n with
  | ofNat n => rfl
  | negSucc n =>
    rw [decide_eq_true (Int.negSucc_lt_zero n)]
    rfl

/-- In least units, a whole number is rounded to as many units as it is rounded to ones. -/
theorem rounded_units (n : ℕ) :
    rounded (((n * scale : ℕ) : ℚ) / (1 : ℕ)) = rounded (n : ℚ) * scale := by
  rw [Nat.cast_one, div_one]
  delta scale
  generalize 1074 = k
  exact rounded_mul_pow n k

theorem Lowest.lt_iff {m e : ℕ} (h : Lowest m e) (k : ℕ) : m * 2 ^ e < 2 ^ 53 * 2 ^ k ↔ e ≤ k := by
  constructor
  · intro hlt
    by_contra hk
    obtain rfl | hm := h.2
    · omega
    · have habove : 2 ^ 52 * 2 ^ (k + 1) ≤ m * 2 ^ e :=
        Nat.mul_le_mul hm (Nat.pow_le_pow_right two_pos (by omega))
      rw [pow_succ' 2 k] at habove
      omega
  · intro hk
    calc m * 2 ^ e < 2 ^ 53 * 2 ^ e := Nat.mul_lt_mul_of_pos_right h.1 (by positivity)
      _ ≤ 2 ^ 53 * 2 ^ k := Nat.mul_le_mul_left _ (Nat.pow_le_pow_right two_pos hk)

/-- Half a step beyond the greatest double. -/
def limit : ℕ := (2 ^ 54 - 1) * 2 ^ 970

/-- An integer is at the limit of the doubles or beyond it, on either side. -/
def IsBeyond (n : ℤ) : Prop := limit ≤ n.natAbs

instance (n : ℤ) : Decidable (IsBeyond n) := inferInstanceAs (Decidable (_ ≤ _))

/-- An integer is beyond the doubles exactly if it is rounded to more than the greatest. -/
theorem units_lt_iff (n : ℤ) :
    rounded (n.natAbs : ℚ) * scale < 2 ^ 53 * 2 ^ 2045 ↔ ¬ IsBeyond n := by
  have hsplit {a b c : ℕ} (hc : c = a + b + 1) :
      2 ^ 53 * 2 ^ c = 2 ^ 54 * 2 ^ a * Nat.pow 2 b := by
    rw [hc, Nat.pow_eq]
    ring
  have hunits : 2 ^ 53 * 2 ^ 2045 = 2 ^ 54 * 2 ^ 970 * scale := by
    delta scale
    generalize hb : 1074 = b
    exact hsplit (by omega)
  have hpos : 0 < scale := by exact_mod_cast scale_pos
  rw [hunits, Nat.mul_lt_mul_right hpos, ← not_le, le_rounded_iff]
  rfl

/-- An integer with 53 binary digits kept, the nearest of its kind. -/
def coarse (n : ℤ) : ℤ := if n < 0 then -rounded n.natAbs else rounded n.natAbs

/-- The place of the double nearest to an integer. -/
def placeOf (n : ℤ) : Extent :=
  if IsBeyond n then if n < 0 then .bottom else .top else .ofInt (coarse n)

/-- An integer beyond the doubles is converted to an infinite one, any other to a finite one that
keeps 53 binary digits. -/
theorem ofInt_cases (n : ℤ) : IsBeyond n ∧ ofInt n = .infinite (decide (n < 0)) ∨
    ¬ IsBeyond n ∧ ∃ m e h, ofInt n = .finite (decide (n < 0)) m e h ∧
      m * 2 ^ e = rounded n.natAbs * scale := by
  obtain ⟨m, e, hlowest, hround⟩ :=
    exists_lowest (q := ((n.natAbs * scale : ℕ) : ℚ) / (1 : ℕ)) (by positivity)
  have hbeyond := units_lt_iff n
  rw [← rounded_units, hround, hlowest.lt_iff] at hbeyond
  rw [ofInt_eq]
  by_cases h : IsBeyond n
  · refine .inl ⟨h, ofUnits_eq_infinite one_pos fun m' e' hnormal heq => ?_⟩
    obtain ⟨rfl, rfl⟩ := hlowest.unique hnormal.lowest (hround.symm.trans heq)
    exact hbeyond.mp hnormal.2.1 h
  · refine .inr ⟨h, m, e, ⟨hlowest.1, hbeyond.mpr h, hlowest.2⟩, ?_, ?_⟩
    · exact (ofUnits_eq_finite_iff one_pos).mpr ⟨rfl, hround⟩
    · rw [← hround, rounded_units]

theorem ofInt?_eq (n : ℤ) : ofInt? n = if IsBeyond n then none else some (ofInt n) := by
  obtain ⟨h, heq⟩ | ⟨h, m, e, hnormal, heq, -⟩ := ofInt_cases n
  · rw [if_pos h, ofInt?, heq]
  · rw [if_neg h, ofInt?, heq]

/-- The double nearest to an integer stands at the place of that. -/
theorem extent?_ofInt (n : ℤ) : (ofInt n).extent? = some (placeOf n) := by
  obtain ⟨h, heq⟩ | ⟨h, m, e, hnormal, heq, hunits⟩ := ofInt_cases n
  · rw [heq, placeOf, if_pos h]
    by_cases hneg : n < 0
    · rw [if_pos hneg, decide_eq_true hneg, extent?]
    · rw [if_neg hneg, decide_eq_false hneg, extent?]
  · rw [heq, placeOf, if_neg h, extent?, Nat.pow_eq, hunits, Extent.ofInt, coarse]
    simp only [decide_eq_true_eq]
    split_ifs
    · rw [Nat.cast_mul, neg_mul]
    · rw [Nat.cast_mul]

/-! ## The order of the places -/

theorem coarse_mono {a b : ℤ} (h : a ≤ b) : coarse a ≤ coarse b := by
  unfold coarse
  split_ifs with ha hb hb
  · have hle : b.natAbs ≤ a.natAbs := by omega
    have := rounded_mono (q := (b.natAbs : ℚ)) (by positivity) (Nat.cast_le.mpr hle)
    omega
  · omega
  · omega
  · have hle : a.natAbs ≤ b.natAbs := by omega
    have := rounded_mono (q := (a.natAbs : ℚ)) (by positivity) (Nat.cast_le.mpr hle)
    omega

theorem ofInt_less_ofInt {a b : ℤ} :
    (Extent.ofInt a).less (Extent.ofInt b) = true ↔ a < b := by
  have hpos : (0 : ℤ) < scale := by exact_mod_cast scale_pos
  rw [Extent.ofInt, Extent.ofInt, Extent.less, decide_eq_true_eq]
  exact mul_lt_mul_iff_of_pos_right hpos

theorem extent_ofInt_inj {a b : ℤ} (h : Extent.ofInt a = Extent.ofInt b) : a = b := by
  have hpos : (0 : ℤ) < scale := by exact_mod_cast scale_pos
  exact Int.eq_of_mul_eq_mul_right hpos.ne' (Extent.finite.inj h)

theorem placeOf_cases (n : ℤ) : IsBeyond n ∧ n < 0 ∧ placeOf n = .bottom ∨
    IsBeyond n ∧ 0 ≤ n ∧ placeOf n = .top ∨ ¬ IsBeyond n ∧ placeOf n = .ofInt (coarse n) := by
  by_cases h : IsBeyond n
  · by_cases hneg : n < 0
    · exact .inl ⟨h, hneg, by rw [placeOf, if_pos h, if_pos hneg]⟩
    · exact .inr (.inl ⟨h, not_lt.mp hneg, by rw [placeOf, if_pos h, if_neg hneg]⟩)
  · exact .inr (.inr ⟨h, by rw [placeOf, if_neg h]⟩)

theorem not_isBeyond_of_le {n : ℤ} (h : n.natAbs ≤ 2 ^ 53) : ¬ IsBeyond n := by
  have hpos : 0 < 2 ^ 970 := by positivity
  have hlimit : 2 ^ 54 - 1 ≤ limit := Nat.le_mul_of_pos_right _ hpos
  unfold IsBeyond
  omega

/-- An integer of up to 53 binary digits has a place of its own. -/
theorem placeOf_of_le {n : ℤ} (h : n.natAbs ≤ 2 ^ 53) : placeOf n = .ofInt n := by
  have hcoarse : coarse n = n := by
    rw [coarse, rounded_natCast_of_le h]
    split_ifs
    · omega
    · omega
  rw [placeOf, if_neg (not_isBeyond_of_le h), hcoarse]

/-- Of two integers the greater one has its place at the right of the other's, or the same. -/
theorem placeOf_mono {a b : ℤ} (h : a ≤ b) :
    placeOf a = placeOf b ∨ (placeOf a).less (placeOf b) = true := by
  have hup (ha : IsBeyond a) (hneg : 0 ≤ a) : IsBeyond b := le_trans ha (by omega)
  have hdown (hb : IsBeyond b) (hneg : b < 0) : IsBeyond a := le_trans hb (by omega)
  obtain ⟨ha, hna, hpa⟩ | ⟨ha, hna, hpa⟩ | ⟨ha, hpa⟩ := placeOf_cases a <;>
    obtain ⟨hb, hnb, hpb⟩ | ⟨hb, hnb, hpb⟩ | ⟨hb, hpb⟩ := placeOf_cases b <;>
    rw [hpa, hpb]
  · exact .inl rfl
  · exact .inr rfl
  · exact .inr rfl
  · omega
  · exact .inl rfl
  · exact absurd (hup ha hna) hb
  · exact absurd (hdown hb hnb) ha
  · exact .inr rfl
  · obtain heq | hlt := (coarse_mono h).eq_or_lt
    · exact .inl (by rw [heq])
    · exact .inr (ofInt_less_ofInt.mpr hlt)

/-- The places of two integers are in the order of these, where they differ. -/
theorem placeOf_less_iff {a b : ℤ} :
    (placeOf a).less (placeOf b) = true ↔ a < b ∧ placeOf a ≠ placeOf b := by
  constructor
  · intro h
    refine ⟨?_, fun heq => ?_⟩
    · by_contra hle
      obtain heq | hless := placeOf_mono (not_lt.mp hle)
      · rw [heq, Extent.less_irrefl] at h
        cases h
      · rw [Extent.less_asymm hless] at h
        cases h
    · rw [heq, Extent.less_irrefl] at h
      cases h
  · rintro ⟨hlt, hne⟩
    exact (placeOf_mono hlt.le).resolve_left hne

end Double

/-! ## Reading the decimal text -/

namespace Text

theorem trimWhile_of_forall {drop : Char → Bool} {s : List Char} (h : ∀ c ∈ s, drop c = false) :
    trimWhile drop s = s := by
  have hkept {s : List Char} (h : ∀ c ∈ s, drop c = false) : s.dropWhile drop = s := by
    cases s with
    | nil => rfl
    | cons c rest => rw [List.dropWhile_cons_of_neg (by simp [h c List.mem_cons_self])]
  rw [trimWhile, hkept h, hkept fun c hc => h c (List.mem_reverse.mp hc), List.reverse_reverse]

end Text

namespace Decimal

theorem dropUnderscores_of_forall {s : List Char} (h : ∀ c ∈ s, c ≠ '_') (afterDigit : Bool) :
    dropUnderscores afterDigit s = some s := by
  induction s generalizing afterDigit with
  | nil => rfl
  | cons c rest ih =>
    have hc := h c List.mem_cons_self
    have hrest := ih fun d hd => h d (List.mem_cons_of_mem _ hd)
    rw [dropUnderscores.eq_4 _ _ _ (fun _ _ heq _ => hc heq) (fun heq _ => hc heq), hrest]
    rfl

/-- What is decided of the ten digits holds of every digit of a number. -/
theorem of_mem_digitsOf {p : Char → Prop} [DecidablePred p]
    (h : "0123456789".toList.all (fun c => decide (p c)) = true) {n : ℕ} {c : Char}
    (hc : c ∈ digitsOf n) : p c := by
  refine of_decide_eq_true (List.all_eq_true.mp h c ?_)
  have hdigit := isDigit_of_mem_digitsOf hc
  simp only [Json.isDigit, Bool.and_eq_true, decide_eq_true_eq, Char.le_def,
    UInt32.le_iff_toNat_le] at hdigit
  obtain ⟨hlow, hhigh⟩ := hdigit
  have hlow' : 48 ≤ c.toNat := hlow
  have hhigh' : c.toNat ≤ 57 := hhigh
  rw [← Char.ofNat_toNat c]
  interval_cases c.toNat <;> decide

theorem hasDigits_digitsOf (n : ℕ) : Template.HasDigits (digitsOf n)
    ((digitsOf n).map fun d => d.toNat - '0'.toNat) :=
  Template.hasDigits_of_ascii fun _ hc => Nat.isDigit_of_mem_toDigits (by decide) (by decide) hc

/-- A row of digits is read as the number that it spells. -/
theorem readUnsigned?_digitsOf (negative : Bool) (n : ℕ) :
    readUnsigned? negative (digitsOf n) = some ⟨negative, n, 0⟩ := by
  have htake := Template.takeDecimals_eq_iff.mpr (hasDigits_digitsOf n)
  have hne : ((digitsOf n).map fun d => d.toNat - '0'.toNat).isEmpty = false := by
    simpa using digitsOf_ne_nil n
  unfold readUnsigned?
  rw [htake]
  simp only [hne, Bool.false_and, Bool.false_eq_true, if_false, List.append_nil, readExponent?,
    numeral_map_eq, numberOf_digitsOf]
  rfl

/-- The double nearest to a whole numeral is the one nearest to its number of units. -/
theorem toDouble_whole (negative : Bool) (n : ℕ) :
    (⟨negative, n, 0⟩ : Decimal).toDouble = Double.ofUnits negative (n * Double.scale) 1 := by
  show (if n = 0 then Double.ofUnits negative 0 1
    else if 310 < place ⟨negative, n, 0⟩ then .infinite negative
    else if place ⟨negative, n, 0⟩ < -400 then Double.ofUnits negative 0 1
    else if (0 : ℤ) ≤ 0 then Double.ofUnits negative (n * Nat.pow 10 0 * Double.scale) 1
    else Double.ofUnits negative (n * Double.scale) (Nat.pow 10 0)) = _
  have hplace : 0 ≤ place ⟨negative, n, 0⟩ := by
    rw [place, add_zero]
    exact Int.natCast_nonneg _
  rw [if_pos le_rfl]
  split_ifs with hzero hlarge hsmall
  · rw [hzero, zero_mul]
  · -- So large a number of units makes no finite double.
    refine (Double.ofUnits_eq_infinite one_pos fun m e hnormal hround => ?_).symm
    apply rounded_ne_of_large (d := ⟨negative, n, 0⟩) hzero hlarge hnormal
    rwa [value, zpow_zero, mul_one, ← Nat.cast_mul, ← div_one ((n * Double.scale : ℕ) : ℚ),
      ← Nat.cast_one]
  · omega
  · rw [Nat.pow_eq, pow_zero, mul_one]

theorem takeSign_digitsOf (n : ℕ) : takeSign (digitsOf n) = (false, digitsOf n) := by
  cases hdigits : digitsOf n with
  | nil => rfl
  | cons c rest =>
    have hc : c ≠ '-' ∧ c ≠ '+' :=
      of_mem_digitsOf (p := fun c => c ≠ '-' ∧ c ≠ '+') (by decide) (n := n) (by simp [hdigits])
    rw [takeSign.eq_3 _ (fun _ h => ?_) (fun _ h => ?_)]
    · exact hc.1 (List.cons.inj h).1
    · exact hc.2 (List.cons.inj h).1

theorem takeSign_showInt (n : ℤ) : takeSign (showInt n) = (decide (n < 0), digitsOf n.natAbs) := by
  unfold showInt
  split_ifs with hneg
  · rw [takeSign, decide_eq_true hneg]
  · rw [takeSign_digitsOf, decide_eq_false hneg]

theorem of_mem_showInt {p : Char → Prop} [DecidablePred p]
    (h : "-0123456789".toList.all (fun c => decide (p c)) = true) (n : ℤ) :
    ∀ c ∈ showInt n, p c := by
  obtain ⟨hsign, hall⟩ := Bool.and_eq_true_iff.mp
    (show (decide (p '-') && "0123456789".toList.all fun c => decide (p c)) = true from h)
  have hdigits : ∀ c ∈ digitsOf n.natAbs, p c := fun _ => of_mem_digitsOf hall
  unfold showInt
  split_ifs
  · exact List.forall_mem_cons.mpr ⟨of_decide_eq_true hsign, hdigits⟩
  · exact hdigits

end Decimal

/-- The decimal text of an integer is read as the double nearest to it. -/
theorem Double.read?_showInt (n : ℤ) : read? (showInt n) = some (ofInt n) := by
  -- A name that a digit in lower case does not occur in, is not what the digits spell.
  have hname {name : List Char} (hn : 'n' ∈ name) :
      (Decimal.digitsOf n.natAbs).map Char.toLower ≠ name := by
    rintro rfl
    obtain ⟨c, hc, hlower⟩ := List.mem_map.mp hn
    exact Decimal.of_mem_digitsOf (p := fun c => c.toLower ≠ 'n') (by decide) hc hlower
  rw [read?, Text.trimWhile_of_forall (Decimal.of_mem_showInt (by decide) n),
    Decimal.dropUnderscores_of_forall (Decimal.of_mem_showInt (by decide) n), Option.bind_some,
    readSigned?, Decimal.takeSign_showInt]
  dsimp only
  rw [if_neg, if_neg, Decimal.readUnsigned?_digitsOf, Option.map_some, Decimal.toDouble_whole,
    ofInt_eq]
  · exact hname (by decide)
  · rintro (h | h)
    · exact hname (by decide) h
    · exact hname (by decide) h

end Stepwise
