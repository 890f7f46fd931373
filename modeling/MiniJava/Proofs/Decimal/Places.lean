import Mathlib.Algebra.Order.Field.Rat
import Mathlib.Tactic.Ring
import MiniJava.Decimal.Binary64
import MiniJava.Proofs.Text.Integer

/-!
# Decimals with two places as they are written

The text of a decimal is an optional minus, digits without a zero too many in front, a point and two
digits. The text tells the decimal, and every number of hundredths is written as one.
-/

namespace MiniJava.Decimal

open Text (digitsValue digitValue isAsciiDigit)

def signFactor (negative : Bool) : ℚ := if negative then -1 else 1

/-- A decimal with two places in its parts. -/
@[ext]
structure TwoPlaces where
  negative : Bool
  whole : List Char
  tenth : Char
  hundredth : Char
  whole_ne_nil : whole ≠ []
  digits : ∀ c ∈ tenth :: hundredth :: whole, isAsciiDigit c = true
  no_leading_zero : whole.head? = some '0' → whole = ['0']

namespace TwoPlaces

def sign (d : TwoPlaces) : List Char := if d.negative then ['-'] else []

def text (d : TwoPlaces) : String :=
  String.ofList (d.sign ++ d.whole ++ ['.', d.tenth, d.hundredth])

/-- The rational that a decimal denotes. -/
def value (d : TwoPlaces) : ℚ :=
  signFactor d.negative *
    (digitsValue d.whole + digitValue d.tenth / 10 + digitValue d.hundredth / 100)

theorem ne_minus_of_mem_whole (d : TwoPlaces) : ∀ c ∈ d.whole, c ≠ '-' := by
  rintro c hc rfl
  have hdigit := d.digits '-' (List.mem_cons_of_mem _ (List.mem_cons_of_mem _ hc))
  exact absurd hdigit (by decide)

/-- The text of a decimal tells its parts. -/
theorem text_injective {d e : TwoPlaces} (h : d.text = e.text) : d = e := by
  have hlists : d.sign ++ d.whole ++ ['.', d.tenth, d.hundredth] =
      e.sign ++ e.whole ++ ['.', e.tenth, e.hundredth] := String.ofList_injective h
  obtain ⟨hfront, hplaces⟩ := List.append_inj' hlists rfl
  simp only [List.cons.injEq, true_and, and_true] at hplaces
  have hnegative : d.negative = e.negative ∧ d.whole = e.whole := by
    unfold sign at hfront
    cases hd : d.negative <;> cases he : e.negative <;>
      simp only [hd, he, if_true, Bool.false_eq_true, if_false, List.nil_append,
        List.cons_append, List.cons.injEq, true_and] at hfront
    · exact ⟨rfl, hfront⟩
    · exact absurd rfl (d.ne_minus_of_mem_whole '-' (by rw [hfront]; exact List.mem_cons_self))
    · exact absurd rfl (e.ne_minus_of_mem_whole '-' (by rw [← hfront]; exact List.mem_cons_self))
    · exact ⟨rfl, hfront⟩
  exact TwoPlaces.ext hnegative.1 hnegative.2 hplaces.1 hplaces.2

theorem isAsciiDigit_digitChar (n : ℕ) : isAsciiDigit (n % 10).digitChar = true := by
  have hall : ∀ n < 10, isAsciiDigit n.digitChar = true := by decide
  exact hall _ (Nat.mod_lt n (by decide))

theorem digitValue_digitChar (n : ℕ) : digitValue (n % 10).digitChar = n % 10 := by
  have hall : ∀ n < 10, digitValue n.digitChar = n := by decide
  exact hall _ (Nat.mod_lt n (by decide))

def ofHundredths (negative : Bool) (n : ℕ) : TwoPlaces where
  negative := negative
  whole := (n / 100).repr.toList
  tenth := (n / 10 % 10).digitChar
  hundredth := (n % 10).digitChar
  whole_ne_nil := Text.repr_ne_nil _
  digits := by
    intro c hc
    rcases List.mem_cons.mp hc with rfl | hc
    · exact isAsciiDigit_digitChar _
    rcases List.mem_cons.mp hc with rfl | hc
    · exact isAsciiDigit_digitChar _
    · exact Text.isAsciiDigit_of_mem_repr hc
  no_leading_zero := by
    intro hzero
    rcases Nat.eq_zero_or_pos (n / 100) with hnone | hpos
    · rw [hnone]
      rfl
    · exact absurd hzero (Text.head?_repr hpos)

theorem digit_eq (n : ℕ) : digit n = String.ofList [(n % 10).digitChar] := by
  rw [digit, Nat.toString_eq_repr, Nat.repr_of_lt (Nat.mod_lt n (by decide)),
    String.singleton_eq_ofList]

theorem text_ofHundredths (negative : Bool) (n : ℕ) :
    (ofHundredths negative n).text = (if negative then "-" else "") ++ Decimal.ofHundredths n := by
  have hsign : (if negative then "-" else "") = String.ofList (ofHundredths negative n).sign := by
    cases negative <;> rfl
  rw [Decimal.ofHundredths, digit_eq, digit_eq, Nat.toString_eq_repr, hsign]
  apply String.toList_injective
  simp [text, ofHundredths]

theorem value_ofHundredths (negative : Bool) (n : ℕ) :
    (ofHundredths negative n).value = signFactor negative * (n / 100) := by
  have hparts : n = n / 100 * 100 + n / 10 % 10 * 10 + n % 10 := by omega
  have hcast : (n : ℚ) = (n / 100 : ℕ) * 100 + (n / 10 % 10 : ℕ) * 10 + (n % 10 : ℕ) := by
    exact_mod_cast hparts
  rw [value, hcast]
  simp only [ofHundredths, Text.digitsValue_repr, digitValue_digitChar]
  ring

theorem digitValue_hundredth (negative : Bool) (n : ℕ) :
    digitValue (ofHundredths negative n).hundredth = n % 10 := digitValue_digitChar n

end TwoPlaces

end MiniJava.Decimal
