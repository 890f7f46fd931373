import Mathlib.Algebra.Order.Field.Basic
import Mathlib.Algebra.Order.Field.Rat
import Mathlib.Algebra.Ring.Parity
import Mathlib.Tactic.Linarith
import Mathlib.Tactic.Ring
import MiniJava.Decimal.Binary64

/-!
# Rounding to the nearest whole number

A whole number is nearest to a rational if it is off by a half at most, and it is even where it is
off by a half. There is one such number for each rational, it grows with the rational, and division
with rounding computes it.
-/

namespace MiniJava.Decimal

structure NearestEven (x : ℚ) (n : ℤ) : Prop where
  near : |(n : ℚ) - x| ≤ 1 / 2
  even : |(n : ℚ) - x| = 1 / 2 → Even n

namespace NearestEven

variable {x y : ℚ} {n m : ℤ}

theorem neg (h : NearestEven x n) : NearestEven (-x) (-n) := by
  have hdistance : |((-n : ℤ) : ℚ) - -x| = |(n : ℚ) - x| := by
    rw [Int.cast_neg, ← neg_sub', abs_neg]
  refine ⟨?_, fun hhalf => ?_⟩
  · rw [hdistance]
    exact h.near
  · rw [hdistance] at hhalf
    exact (h.even hhalf).neg

/-- Two numbers in the wrong order are both off by a half from the same rational, so they are both
even and cannot be next to each other. -/
theorem mono (hx : NearestEven x n) (hy : NearestEven y m) (hle : x ≤ y) : n ≤ m := by
  by_contra hlt
  have hstep : (m : ℚ) + 1 ≤ n := by exact_mod_cast Int.lt_of_not_ge hlt
  obtain ⟨-, hn⟩ := abs_le.mp hx.near
  obtain ⟨hm, -⟩ := abs_le.mp hy.near
  have hnhalf : (n : ℚ) - x = 1 / 2 := by linarith
  have hmhalf : (m : ℚ) - y = -(1 / 2) := by linarith
  have hnext : n = m + 1 := by
    have hcast : (n : ℚ) = m + 1 := by linarith
    exact_mod_cast hcast
  have hneven : Even n := hx.even (by rw [hnhalf]; norm_num)
  have hmeven : Even m := hy.even (by rw [hmhalf]; norm_num)
  rw [hnext] at hneven
  exact Int.not_even_iff_odd.mpr hmeven.add_one hneven

theorem of_lt (h : |(n : ℚ) - x| < 1 / 2) : NearestEven x n := ⟨h.le, fun heq => absurd heq h.ne⟩

theorem of_eq (h : (n : ℚ) = x) : NearestEven x n :=
  of_lt (by rw [h, sub_self, abs_zero]; norm_num)

end NearestEven

/-- Division with rounding gives the nearest whole number. -/
theorem nearestEven_roundDiv (num : ℕ) {den : ℕ} (hden : 0 < den) :
    NearestEven ((num : ℚ) / den) (roundDiv num den) := by
  have hpos : (0 : ℚ) < den := by exact_mod_cast hden
  -- The quotient lies between the floor and the next number; what is left decides.
  obtain ⟨quotient, hquotient⟩ : ∃ quotient, quotient = num / den := ⟨_, rfl⟩
  obtain ⟨rest, hrest⟩ : ∃ rest, rest = num % den := ⟨_, rfl⟩
  have hsplit : (num : ℚ) / den = quotient + (rest : ℚ) / den := by
    rw [div_eq_iff hpos.ne', add_mul, div_mul_cancel₀ _ hpos.ne', hquotient, hrest]
    exact_mod_cast (Nat.div_add_mod' num den).symm
  rw [roundDiv, hsplit, ← hquotient, ← hrest]
  rcases Nat.lt_trichotomy (2 * rest) den with hbelow | hhalf | habove
  · have hfraction : (rest : ℚ) / den < 1 / 2 := by
      rw [div_lt_div_iff₀ hpos two_pos]
      exact_mod_cast (by omega : rest * 2 < 1 * den)
    have hnonneg : 0 ≤ (rest : ℚ) / den := div_nonneg (Nat.cast_nonneg rest) hpos.le
    rw [if_pos hbelow]
    refine .of_lt ?_
    rw [Int.cast_natCast, abs_lt]
    constructor <;> linarith
  · have hfraction : (rest : ℚ) / den = 1 / 2 := by
      rw [div_eq_div_iff hpos.ne' two_ne_zero]
      exact_mod_cast (by omega : rest * 2 = 1 * den)
    rw [if_neg (by omega), if_neg (by omega), hfraction]
    by_cases heven : quotient % 2 = 0
    · rw [if_pos heven]
      refine ⟨?_, fun _ => (Int.even_coe_nat _).mpr (Nat.even_iff.mpr heven)⟩
      rw [Int.cast_natCast, abs_le]
      constructor <;> linarith
    · rw [if_neg heven]
      refine ⟨?_, fun _ => (Int.even_coe_nat _).mpr (Nat.even_iff.mpr (by omega))⟩
      rw [Int.cast_natCast, Nat.cast_add_one, abs_le]
      constructor <;> linarith
  · have hfraction : 1 / 2 < (rest : ℚ) / den := by
      rw [div_lt_div_iff₀ two_pos hpos]
      exact_mod_cast (by omega : 1 * den < rest * 2)
    have hlt : (rest : ℚ) / den < 1 := by
      rw [div_lt_one hpos]
      exact_mod_cast hrest ▸ Nat.mod_lt num hden
    rw [if_neg (by omega), if_pos habove]
    refine .of_lt ?_
    rw [Int.cast_natCast, Nat.cast_add_one, abs_lt]
    constructor <;> linarith

/-- The hundredths of a whole number times a power of two. -/
theorem nearestEven_hundredths (mantissa : ℕ) (exponent : ℤ) :
    NearestEven (100 * (mantissa * 2 ^ exponent)) (hundredths mantissa exponent) := by
  unfold hundredths
  by_cases hexponent : 0 ≤ exponent
  · obtain ⟨power, rfl⟩ := Int.eq_ofNat_of_zero_le hexponent
    rw [if_pos hexponent]
    refine .of_eq ?_
    rw [Int.toNat_natCast, Int.cast_natCast, zpow_natCast, Nat.pow_eq]
    push_cast
    ring
  · obtain ⟨power, hpower⟩ := Int.eq_ofNat_of_zero_le (by omega : 0 ≤ -exponent)
    obtain rfl : exponent = -power := by omega
    rw [if_neg hexponent, Int.neg_neg, Int.toNat_natCast]
    have hquotient : (100 * (mantissa * 2 ^ (-(power : ℤ))) : ℚ) =
        (mantissa * 100 : ℕ) / (Nat.pow 2 power : ℕ) := by
      rw [zpow_neg, zpow_natCast, Nat.pow_eq]
      push_cast
      ring
    rw [hquotient]
    exact nearestEven_roundDiv _ (Nat.two_pow_pos power)

end MiniJava.Decimal
