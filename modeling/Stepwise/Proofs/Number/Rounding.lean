import Mathlib.Algebra.Order.Floor.Semifield
import Mathlib.Data.Nat.Log
import Mathlib.Data.Rat.Floor
import Mathlib.Tactic.Common
import Mathlib.Tactic.FieldSimp
import Mathlib.Tactic.Linarith
import Mathlib.Tactic.NormNum
import Mathlib.Tactic.Positivity
import Mathlib.Tactic.Ring
import Stepwise.Number.Double

/-!
# Rounding to a double

A quotient of least units is rounded to a multiple of its last place, the nearest one. What comes
out depends on the quotient only, grows with it, and no double is nearer to it. A double that is
finite is told by its sign and its units.
-/

namespace Stepwise

/-- The integer nearest to a number; of two that are equally near, the even one. -/
structure IsNearest (q : ℚ) (n : ℕ) : Prop where
  near : |q - n| ≤ 1 / 2
  even : |q - n| = 1 / 2 → Even n

namespace IsNearest

/-- The nearest integers are in the order of the numbers. -/
theorem mono {q q' : ℚ} {n n' : ℕ} (h : IsNearest q n) (h' : IsNearest q' n') (hle : q ≤ q') :
    n ≤ n' := by
  by_contra hlt
  have hn : n' + 1 ≤ n := by omega
  have hcast : (n' : ℚ) + 1 ≤ n := by exact_mod_cast hn
  have hlow := (abs_le.mp h.near).1
  have hhigh := (abs_le.mp h'.near).2
  -- Both numbers are the same, a half between two integers that are both even.
  have hq : q - n = -(1 / 2) := by linarith
  have hq' : q' - n' = 1 / 2 := by linarith
  have hnext : (n : ℚ) = n' + 1 := by linarith
  have heven : Even n := h.even (by rw [hq]; norm_num)
  have heven' : Even n' := h'.even (by rw [hq']; norm_num)
  have hsucc : n = n' + 1 := by exact_mod_cast hnext
  rw [hsucc] at heven
  exact Nat.even_add_one.mp heven heven'

theorem unique {q : ℚ} {n n' : ℕ} (h : IsNearest q n) (h' : IsNearest q n') : n = n' :=
  le_antisymm (h.mono h' le_rfl) (h'.mono h le_rfl)

/-- No integer is nearer. -/
theorem le_abs {q : ℚ} {n : ℕ} (h : IsNearest q n) (k : ℕ) : |q - n| ≤ |q - k| := by
  by_cases hk : k = n
  · rw [hk]
  · have hone : (1 : ℚ) ≤ |(n : ℚ) - k| := by
      have hne : (n : ℤ) - k ≠ 0 := by omega
      exact_mod_cast Int.one_le_abs hne
    have htriangle : |(n : ℚ) - k| ≤ |q - k| + |q - n| := by
      calc |(n : ℚ) - k| = |(q - k) - (q - n)| := by ring_nf
        _ ≤ |q - k| + |q - n| := abs_sub _ _
    have := h.near
    linarith

end IsNearest

/-- The quotient is rounded to the nearest integer. -/
theorem isNearest_roundHalfEven (num : ℕ) {den : ℕ} (h : 0 < den) :
    IsNearest ((num : ℚ) / den) (roundHalfEven num den) := by
  have hden : (0 : ℚ) < den := by exact_mod_cast h
  have hrest : num % den < den := Nat.mod_lt _ h
  have hfloor : (num : ℚ) / den - (num / den : ℕ) = ((num % den : ℕ) : ℚ) / den := by
    have hsplit : (num : ℚ) = den * (num / den : ℕ) + (num % den : ℕ) := by
      exact_mod_cast (Nat.div_add_mod num den).symm
    rw [eq_div_iff hden.ne', sub_mul, div_mul_cancel₀ _ hden.ne']
    linarith
  have hnonneg : 0 ≤ ((num % den : ℕ) : ℚ) / den := by positivity
  unfold roundHalfEven
  split_ifs with hdown
  · have hhalf : ((num % den : ℕ) : ℚ) / den ≤ 1 / 2 := by
      have : 2 * (num % den) ≤ den := by omega
      rw [div_le_div_iff₀ hden two_pos]
      have : (2 : ℚ) * (num % den : ℕ) ≤ den := by exact_mod_cast this
      linarith
    refine ⟨by rw [hfloor, abs_of_nonneg hnonneg]; exact hhalf, fun htie => ?_⟩
    rw [hfloor, abs_of_nonneg hnonneg, div_eq_div_iff hden.ne' two_ne_zero] at htie
    have htie : (num % den) * 2 = 1 * den := by exact_mod_cast htie
    obtain hlt | ⟨_, heven⟩ := hdown
    · omega
    · exact Nat.even_iff.mpr heven
  · have hup : (num : ℚ) / den - ((num / den + 1 : ℕ) : ℚ) =
        ((num % den : ℕ) : ℚ) / den - 1 := by
      push_cast
      linarith
    have hhalf : 1 / 2 ≤ ((num % den : ℕ) : ℚ) / den := by
      have : den ≤ 2 * (num % den) := by omega
      rw [div_le_div_iff₀ two_pos hden]
      have : (den : ℚ) ≤ 2 * (num % den : ℕ) := by exact_mod_cast this
      linarith
    have hone : ((num % den : ℕ) : ℚ) / den < 1 := by
      rw [div_lt_one hden]
      exact_mod_cast hrest
    refine ⟨by rw [hup]; exact abs_le.mpr ⟨by linarith, by linarith⟩, fun htie => ?_⟩
    rw [hup, abs_of_nonpos (by linarith)] at htie
    have hquotient : ((num % den : ℕ) : ℚ) / den = 1 / 2 := by linarith
    rw [div_eq_div_iff hden.ne' two_ne_zero] at hquotient
    have : (num % den) * 2 = 1 * den := by exact_mod_cast hquotient
    rw [not_or, not_and] at hdown
    have hodd := hdown.2 (by omega)
    exact Nat.even_iff.mpr (by omega)

namespace Double

/-- Lowest form, without the bound that keeps a double finite. -/
def Lowest (mantissa exponent : ℕ) : Prop :=
  mantissa < 2 ^ 53 ∧ (exponent = 0 ∨ 2 ^ 52 ≤ mantissa)

theorem Normal.lowest {m e : ℕ} (h : Normal m e) : Lowest m e := ⟨h.1, h.2.2⟩

/-- A multiple of the least positive double has one lowest form. -/
theorem Lowest.unique {m e m' e' : ℕ} (h : Lowest m e) (h' : Lowest m' e')
    (heq : m * 2 ^ e = m' * 2 ^ e') : m = m' ∧ e = e' := by
  have hexponent {m e m' e' : ℕ} (h : Lowest m e) (h' : Lowest m' e')
      (heq : m * 2 ^ e = m' * 2 ^ e') : e' ≤ e := by
    by_contra hlt
    have hm' : 2 ^ 52 ≤ m' := by
      obtain hzero | hm' := h'.2
      · omega
      · exact hm'
    have hbelow : m * 2 ^ e < 2 ^ 53 * 2 ^ e := Nat.mul_lt_mul_of_pos_right h.1 (by positivity)
    have habove : 2 ^ 52 * 2 ^ (e + 1) ≤ m' * 2 ^ e' :=
      Nat.mul_le_mul hm' (Nat.pow_le_pow_right two_pos (by omega))
    rw [pow_succ] at habove
    omega
  obtain rfl : e = e' := le_antisymm (hexponent h' h heq.symm) (hexponent h h' heq)
  exact ⟨Nat.eq_of_mul_eq_mul_right (by positivity) heq, rfl⟩

/-! ## The last place -/

/-- The power of two that a number is rounded to a multiple of. -/
def lastPlace (q : ℚ) : ℕ := ⌊q⌋₊.log2 + 1 - 53

/-- The multiple of the last place that is nearest to a number. -/
def rounded (q : ℚ) : ℕ :=
  roundHalfEven (q / 2 ^ lastPlace q).num.toNat (q / 2 ^ lastPlace q).den * 2 ^ lastPlace q

theorem lastPlace_mono {q q' : ℚ} (h : q ≤ q') : lastPlace q ≤ lastPlace q' := by
  have hfloor : ⌊q⌋₊ ≤ ⌊q'⌋₊ := Nat.floor_mono h
  have hlog : ⌊q⌋₊.log2 ≤ ⌊q'⌋₊.log2 := by
    rw [Nat.log2_eq_log_two, Nat.log2_eq_log_two]
    exact Nat.log_mono_right hfloor
  unfold lastPlace
  omega

theorem lt_of_lastPlace (q : ℚ) : q < 2 ^ 53 * 2 ^ lastPlace q := by
  have hlog : ⌊q⌋₊ < 2 ^ (⌊q⌋₊.log2 + 1) := Nat.lt_log2_self
  have hplace : 2 ^ (⌊q⌋₊.log2 + 1) ≤ 2 ^ (53 + lastPlace q) :=
    Nat.pow_le_pow_right two_pos (by unfold lastPlace; omega)
  have hfloor : ⌊q⌋₊ + 1 ≤ 2 ^ (53 + lastPlace q) := by omega
  calc q < ⌊q⌋₊ + 1 := Nat.lt_floor_add_one q
    _ ≤ 2 ^ (53 + lastPlace q) := by exact_mod_cast hfloor
    _ = 2 ^ 53 * 2 ^ lastPlace q := pow_add 2 53 _

theorem le_of_lastPlace {q : ℚ} (hq : 0 ≤ q) (h : lastPlace q ≠ 0) :
    2 ^ 52 * 2 ^ lastPlace q ≤ q := by
  have hfloor : ⌊q⌋₊ ≠ 0 := by
    intro hzero
    apply h
    unfold lastPlace
    rw [hzero]
    rfl
  have hplace : ⌊q⌋₊.log2 = 52 + lastPlace q := by
    unfold lastPlace at h ⊢
    omega
  have hlog : 2 ^ (52 + lastPlace q) ≤ ⌊q⌋₊ := hplace ▸ Nat.log2_self_le hfloor
  calc (2 : ℚ) ^ 52 * 2 ^ lastPlace q = 2 ^ (52 + lastPlace q) := (pow_add 2 52 _).symm
    _ ≤ ⌊q⌋₊ := by exact_mod_cast hlog
    _ ≤ q := Nat.floor_le hq

/-- A number counted in units of its last place is rounded to the nearest integer. -/
theorem exists_rounded_eq {q : ℚ} (hq : 0 ≤ q) :
    ∃ n, IsNearest (q / 2 ^ lastPlace q) n ∧ rounded q = n * 2 ^ lastPlace q := by
  refine ⟨_, ?_, rfl⟩
  have hnonneg : 0 ≤ q / 2 ^ lastPlace q := by positivity
  have hquotient : (((q / 2 ^ lastPlace q).num.toNat : ℕ) : ℚ) / (q / 2 ^ lastPlace q).den =
      q / 2 ^ lastPlace q := by
    have hnum : (((q / 2 ^ lastPlace q).num.toNat : ℕ) : ℤ) = (q / 2 ^ lastPlace q).num :=
      Int.toNat_of_nonneg (Rat.num_nonneg.mpr hnonneg)
    have hcast : (((q / 2 ^ lastPlace q).num.toNat : ℕ) : ℚ) = (q / 2 ^ lastPlace q).num := by
      exact_mod_cast congrArg (Int.cast : ℤ → ℚ) hnum
    rw [hcast, Rat.num_div_den]
  have := isNearest_roundHalfEven (q / 2 ^ lastPlace q).num.toNat (q / 2 ^ lastPlace q).den_pos
  rwa [hquotient] at this

theorem isNearest_natCast (n : ℕ) : IsNearest (n : ℚ) n := by
  constructor
  · norm_num
  · intro h
    norm_num at h

/-- What is rounded has 53 binary digits at most; if it has fewer, its last place is the least. -/
theorem rounded_bounds {q : ℚ} (hq : 0 ≤ q) {n : ℕ} (h : IsNearest (q / 2 ^ lastPlace q) n) :
    n ≤ 2 ^ 53 ∧ (lastPlace q = 0 ∨ 2 ^ 52 ≤ n) := by
  have hpos : (0 : ℚ) < 2 ^ lastPlace q := by positivity
  constructor
  · apply h.mono (isNearest_natCast _)
    rw [div_le_iff₀ hpos]
    push_cast
    exact (lt_of_lastPlace q).le
  · by_cases hplace : lastPlace q = 0
    · exact .inl hplace
    · refine .inr ((isNearest_natCast _).mono h ?_)
      rw [le_div_iff₀ hpos]
      push_cast
      exact le_of_lastPlace hq hplace

/-- What is rounded has a lowest form. -/
theorem exists_lowest {q : ℚ} (hq : 0 ≤ q) : ∃ m e, Lowest m e ∧ rounded q = m * 2 ^ e := by
  obtain ⟨n, hn, heq⟩ := exists_rounded_eq hq
  obtain ⟨hle, hlow⟩ := rounded_bounds hq hn
  by_cases hfull : n = 2 ^ 53
  · refine ⟨2 ^ 52, lastPlace q + 1, ⟨by norm_num, .inr le_rfl⟩, ?_⟩
    rw [heq, hfull, pow_succ 2 (lastPlace q)]
    ring
  · exact ⟨n, lastPlace q, ⟨by omega, hlow⟩, heq⟩

/-- Rounding keeps the order. -/
theorem rounded_mono {q q' : ℚ} (hq : 0 ≤ q) (h : q ≤ q') : rounded q ≤ rounded q' := by
  have hq' := hq.trans h
  obtain ⟨n, hn, heq⟩ := exists_rounded_eq hq
  obtain ⟨n', hn', heq'⟩ := exists_rounded_eq hq'
  rw [heq, heq']
  by_cases hplace : lastPlace q = lastPlace q'
  · rw [← hplace] at hn' ⊢
    apply Nat.mul_le_mul_right
    apply hn.mono hn'
    gcongr
  · -- A greater last place belongs to numbers from twice as much on.
    have hlt : lastPlace q + 1 ≤ lastPlace q' := by
      have := lastPlace_mono h
      omega
    have hbelow := (rounded_bounds hq hn).1
    have habove : 2 ^ 52 ≤ n' := by
      obtain hzero | habove := (rounded_bounds hq' hn').2
      · omega
      · exact habove
    calc n * 2 ^ lastPlace q ≤ 2 ^ 53 * 2 ^ lastPlace q := Nat.mul_le_mul_right _ hbelow
      _ = 2 ^ 52 * 2 ^ (lastPlace q + 1) := by rw [pow_succ 2 (lastPlace q)]; ring
      _ ≤ 2 ^ 52 * 2 ^ lastPlace q' :=
        Nat.mul_le_mul_left _ (Nat.pow_le_pow_right two_pos hlt)
      _ ≤ n' * 2 ^ lastPlace q' := Nat.mul_le_mul_right _ habove

/-- No double is nearer to a number than the one it is rounded to. -/
theorem abs_sub_rounded_le {q : ℚ} (hq : 0 ≤ q) {m e : ℕ} (h : Lowest m e) :
    |q - rounded q| ≤ |q - (m * 2 ^ e : ℕ)| := by
  obtain ⟨n, hn, heq⟩ := exists_rounded_eq hq
  have hpos : (0 : ℚ) < 2 ^ lastPlace q := by positivity
  have hgrid (k : ℕ) : |q - rounded q| ≤ |q - (k * 2 ^ lastPlace q : ℕ)| := by
    have hscale (j : ℕ) : |q - (j * 2 ^ lastPlace q : ℕ)| =
        |q / 2 ^ lastPlace q - j| * 2 ^ lastPlace q := by
      rw [← abs_of_pos hpos, ← abs_mul, abs_of_pos hpos, sub_mul, div_mul_cancel₀ _ hpos.ne']
      push_cast
      rfl
    rw [heq, hscale, hscale]
    exact mul_le_mul_of_nonneg_right (hn.le_abs k) hpos.le
  by_cases hplace : lastPlace q ≤ e
  · have hmultiple : m * 2 ^ e = m * 2 ^ (e - lastPlace q) * 2 ^ lastPlace q := by
      rw [mul_assoc, ← pow_add, Nat.sub_add_cancel hplace]
    rw [hmultiple]
    exact hgrid _
  · -- A double with a lesser last place lies below the least one that has this last place.
    have hfloor : (2 : ℚ) ^ 52 * 2 ^ lastPlace q ≤ q := le_of_lastPlace hq (by omega)
    have hbelow : m * 2 ^ e ≤ 2 ^ 52 * 2 ^ lastPlace q := by
      calc m * 2 ^ e ≤ 2 ^ 53 * 2 ^ e := Nat.mul_le_mul_right _ h.1.le
        _ = 2 ^ 52 * 2 ^ (e + 1) := by rw [pow_succ 2 e]; ring
        _ ≤ 2 ^ 52 * 2 ^ lastPlace q :=
          Nat.mul_le_mul_left _ (Nat.pow_le_pow_right two_pos (by omega))
    have hcast : ((m * 2 ^ e : ℕ) : ℚ) ≤ ((2 ^ 52 * 2 ^ lastPlace q : ℕ) : ℚ) := by
      exact_mod_cast hbelow
    have hfloor' : ((2 ^ 52 * 2 ^ lastPlace q : ℕ) : ℚ) ≤ q := by
      push_cast
      exact hfloor
    refine (hgrid (2 ^ 52)).trans ?_
    rw [abs_of_nonneg (by linarith), abs_of_nonneg (by linarith)]
    linarith

/-- A double is rounded to itself. -/
theorem rounded_of_lowest {m e : ℕ} (h : Lowest m e) :
    rounded ((m * 2 ^ e : ℕ) : ℚ) = m * 2 ^ e := by
  have hle := abs_sub_rounded_le (q := ((m * 2 ^ e : ℕ) : ℚ)) (by positivity) h
  rw [sub_self, abs_zero] at hle
  have hzero := abs_eq_zero.mp (le_antisymm hle (abs_nonneg _))
  exact_mod_cast (sub_eq_zero.mp hzero).symm

/-! ## Doubles -/

/-- A quotient of units makes a finite double exactly if that has the sign, and the units that the
quotient is rounded to. -/
theorem ofUnits_eq_finite_iff {negative : Bool} {num den : ℕ} (hden : 0 < den) {s : Bool}
    {m e : ℕ} {h : Normal m e} : ofUnits negative num den = .finite s m e h ↔
      negative = s ∧ rounded ((num : ℚ) / den) = m * 2 ^ e := by
  have hfloor : ⌊(num : ℚ) / den⌋₊ = num / den := Nat.floor_div_eq_div num den
  have hplace : (num / den).log2 + 1 - 53 = lastPlace ((num : ℚ) / den) := by
    rw [lastPlace, hfloor]
  have hq : (0 : ℚ) ≤ (num : ℚ) / den := by positivity
  obtain ⟨n, hn, heq⟩ := exists_rounded_eq hq
  obtain ⟨hle, hlow⟩ := rounded_bounds hq hn
  have hmantissa : roundHalfEven num (den * Nat.pow 2 (lastPlace ((num : ℚ) / den))) = n := by
    have hpos : 0 < den * 2 ^ lastPlace ((num : ℚ) / den) := by positivity
    apply (isNearest_roundHalfEven num hpos).unique
    rw [div_div] at hn
    exact_mod_cast hn
  -- The lowest form that comes out is the one of the double, if this has the same units.
  have hform {m' e' : ℕ} (hm : Lowest m' e') (heq' : rounded ((num : ℚ) / den) = m' * 2 ^ e') :
      (if normal : Normal m' e' then finite negative m' e' normal else infinite negative) =
        .finite s m e h ↔ negative = s ∧ rounded ((num : ℚ) / den) = m * 2 ^ e := by
    rw [heq']
    constructor
    · intro hfinite
      split_ifs at hfinite
      obtain ⟨hs, rfl, rfl⟩ := Double.finite.inj hfinite
      exact ⟨hs, rfl⟩
    · rintro ⟨rfl, hunits⟩
      obtain ⟨rfl, rfl⟩ := hm.unique h.lowest hunits
      rw [dif_pos h]
  unfold ofUnits
  simp only [hplace, hmantissa]
  apply hform
  · split_ifs with hfull
    · exact ⟨by norm_num, .inr le_rfl⟩
    · exact ⟨lt_of_le_of_ne hle hfull, hlow⟩
  · split_ifs with hfull
    · rw [heq, hfull, pow_succ 2 (lastPlace _), Nat.pow_eq, Nat.pow_eq]
      ring
    · exact heq

end Double

end Stepwise
