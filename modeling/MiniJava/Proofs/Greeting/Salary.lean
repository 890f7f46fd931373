import MiniJava.Greeting.Profile
import MiniJava.Proofs.Decimal.Exact
import MiniJava.Proofs.Decimal.Rounding

/-!
# Salaries to the hundredth

The text of a finite salary is a decimal with two places with the sign of the salary. It is off by
half a hundredth at most, ends in an even digit where it is off by that much, and grows with the
salary.
-/

namespace MiniJava

namespace Decimal

def signed (negative : Bool) (n : ℕ) : ℤ := if negative then -n else n

theorem cast_signed (negative : Bool) (n : ℕ) :
    (signed negative n : ℚ) = signFactor negative * n := by
  cases negative <;> simp [signed, signFactor]

theorem even_signed {negative : Bool} {n : ℕ} : Even (signed negative n) ↔ Even n := by
  cases negative <;> simp [signed]

theorem NearestEven.signed {x : ℚ} {n : ℕ} (h : NearestEven x n) (negative : Bool) :
    NearestEven (signFactor negative * x) (signed negative n) := by
  cases negative with
  | false => rwa [signFactor, if_neg Bool.false_ne_true, one_mul]
  | true =>
      rw [signFactor, if_pos rfl, neg_one_mul]
      exact h.neg

/-- A finite number is written as the number of hundredths nearest to it. -/
theorem exists_toFixed {x : Float} (h : x.isFinite = true) : ∃ n : ℕ,
    (Binary64.ofFloat x).toFixed = (TwoPlaces.ofHundredths (highestBit x) n).text ∧
      NearestEven (100 * exactValue x) (signed (highestBit x) n) := by
  obtain ⟨hsign, mantissa, exponent, hmagnitude, hvalue⟩ := exactValue_eq h
  refine ⟨hundredths mantissa exponent, ?_, ?_⟩
  · rw [Binary64.toFixed, hmagnitude, hsign, TwoPlaces.text_ofHundredths]
  · rw [hvalue, mul_left_comm]
    exact (nearestEven_hundredths mantissa exponent).signed (highestBit x)

/-- A number of hundredths is as far from a rational as the whole number is from a hundred times
it. -/
theorem distance_ofHundredths (negative : Bool) (n : ℕ) (x : ℚ) :
    |(TwoPlaces.ofHundredths negative n).value - x| =
      |(signed negative n : ℚ) - 100 * x| / 100 := by
  have hscaled : (TwoPlaces.ofHundredths negative n).value - x =
      ((signed negative n : ℚ) - 100 * x) / 100 := by
    rw [TwoPlaces.value_ofHundredths, cast_signed]
    ring
  rw [hscaled, abs_div, abs_of_pos (by norm_num : (0 : ℚ) < 100)]

end Decimal

namespace Greeting

open Decimal Text

/-- The text of a finite salary is the decimal with two places that is nearest to it, the even one
of two that are equally near. -/
theorem salaryText_nearest (x : Float) (h : x.isFinite = true) :
    ∃ d : TwoPlaces, salaryText x = d.text ∧ d.negative = highestBit x ∧
      |d.value - exactValue x| ≤ 1 / 200 ∧
      (|d.value - exactValue x| = 1 / 200 → Even (digitValue d.hundredth)) ∧
      ∀ (y : Float) (e : TwoPlaces), y.isFinite = true → salaryText y = e.text →
        exactValue x ≤ exactValue y → d.value ≤ e.value := by
  obtain ⟨n, htext, hnearest⟩ := exists_toFixed h
  refine ⟨.ofHundredths (highestBit x) n, htext, rfl, ?near, ?even, ?mono⟩
  case near =>
    have hnear := hnearest.near
    rw [distance_ofHundredths]
    linarith
  case even =>
    intro hhalf
    rw [distance_ofHundredths] at hhalf
    have heven := even_signed.mp (hnearest.even (by linarith))
    rw [TwoPlaces.digitValue_hundredth]
    rw [Nat.even_iff] at heven ⊢
    omega
  case mono =>
    intro y e hy hother hle
    obtain ⟨m, hwritten, hclosest⟩ := exists_toFixed hy
    obtain rfl : e = .ofHundredths (highestBit y) m :=
      TwoPlaces.text_injective (hother.symm.trans hwritten)
    have hscaled : 100 * exactValue x ≤ 100 * exactValue y := by linarith
    have hmono : (signed (highestBit x) n : ℚ) ≤ signed (highestBit y) m := by
      exact_mod_cast hnearest.mono hclosest hscaled
    rw [TwoPlaces.value_ofHundredths, TwoPlaces.value_ofHundredths]
    rw [cast_signed, cast_signed] at hmono
    linarith

/-- An eighth is exactly between two decimals and is written as the even one. -/
theorem salaryText_nearest_eighth :
    (0.125 : Float).isFinite = true ∧ exactValue 0.125 = 1 / 8 ∧ salaryText 0.125 = "0.12" ∧
    ∃ d : TwoPlaces, salaryText 0.125 = d.text ∧ d.negative = highestBit 0.125 ∧
      |d.value - exactValue 0.125| ≤ 1 / 200 ∧
      (|d.value - exactValue 0.125| = 1 / 200 → Even (digitValue d.hundredth)) ∧
      ∀ (y : Float) (e : TwoPlaces), y.isFinite = true → salaryText y = e.text →
        exactValue 0.125 ≤ exactValue y → d.value ≤ e.value := by
  have hfinite : (0.125 : Float).isFinite = true := by decide
  have hvalue : exactValue 0.125 = 1 / 8 := by
    have hunpack : (0.125 : Float).toModel.unpack =
        .finite .positive (2 ^ 52) (-55) (by decide) := by rfl
    have hpositive : (Float.Model.UnpackedFloat.Sign.positive == .negative) = false := rfl
    rw [exactValue, hunpack, rational, hpositive]
    norm_num [signFactor]
  exact ⟨hfinite, hvalue, by decide +kernel, salaryText_nearest 0.125 hfinite⟩

end Greeting

end MiniJava
