import Mathlib
import MiniJava.Decimal.Binary64
import MiniJava.Proofs.Decimal.Places

/-!
# The exact values of floating point numbers

A finite number denotes a rational, by the fields that its bits unpack to. The sign and the
magnitude that are read off the bits denote the same rational.
-/

namespace MiniJava.Decimal

open Float.Model

def rational : UnpackedFloat → ℚ
  | .finite sign mantissa exponent _ => signFactor (sign == .negative) * (mantissa * 2 ^ exponent)
  | .zero _ | .infinity _ | .notANumber => 0

def exactValue (x : Float) : ℚ := rational x.toModel.unpack

/-- The highest bit of a number, which is its sign. -/
def highestBit (x : Float) : Bool := x.toBits.toBitVec.msb

section Fields

variable (bits : BitVec Format.binary64.numBits)

theorem toNat_unpackMantissa :
    (UnpackedFloat.unpackMantissa bits).toNat = Binary64.fraction bits.toNat := by
  simp [UnpackedFloat.unpackMantissa, Binary64.fraction, Binary64.fractionBound]

theorem toNat_unpackExponent :
    (UnpackedFloat.unpackExponent bits).toNat = Binary64.biasedExponent bits.toNat := by
  simp [UnpackedFloat.unpackExponent, Binary64.biasedExponent, Binary64.fractionBound,
    Nat.shiftRight_eq_div_pow]

theorem toNat_unpackSign : (UnpackedFloat.unpackSign bits).toNat = bits.toNat / 2 ^ 63 % 2 := by
  simp [UnpackedFloat.unpackSign, Nat.shiftRight_eq_div_pow]

theorem msb_eq : bits.msb = decide (2 ^ 63 ≤ bits.toNat) := BitVec.msb_eq_decide bits

theorem sign_unpackSign :
    (UnpackedFloat.Sign.ofBitVec (UnpackedFloat.unpackSign bits) == .negative) = bits.msb := by
  have hlt : bits.toNat < 2 ^ 64 := bits.isLt
  have hsign := toNat_unpackSign bits
  rw [msb_eq, UnpackedFloat.Sign.ofBitVec]
  by_cases hle : 2 ^ 63 ≤ bits.toNat
  · have hset : UnpackedFloat.unpackSign bits ≠ 0#1 := by
      intro hzero
      rw [hzero, BitVec.toNat_ofNat] at hsign
      omega
    rw [if_neg hset, decide_eq_true hle]
    rfl
  · have hclear : UnpackedFloat.unpackSign bits = 0#1 := by
      apply BitVec.eq_of_toNat_eq
      rw [hsign, BitVec.toNat_ofNat]
      omega
    rw [if_pos hclear, decide_eq_false hle]
    rfl

variable {bits}

theorem biasedExponent_of_isFinite
    (h : (UnpackedFloat.unpack Format.binary64 bits).isFinite = true) :
    Binary64.biasedExponent bits.toNat ≠ 2047 := by
  rw [← toNat_unpackExponent]
  intro heq
  have hones : UnpackedFloat.unpackExponent bits = -1#_ := BitVec.eq_of_toNat_eq heq
  unfold UnpackedFloat.unpack at h
  dsimp only at h
  rw [if_pos hones] at h
  split at h <;> cases h

theorem rational_subnormal (h : Binary64.biasedExponent bits.toNat = 0) :
    rational (UnpackedFloat.unpack Format.binary64 bits) =
      signFactor bits.msb * (Binary64.fraction bits.toNat * 2 ^ (-1074 : ℤ)) := by
  rw [← toNat_unpackExponent] at h
  have hzeros : UnpackedFloat.unpackExponent bits = 0#_ := BitVec.eq_of_toNat_eq h
  have hones : UnpackedFloat.unpackExponent bits ≠ -1#_ := by
    rw [hzeros]
    decide
  rw [← sign_unpackSign, ← toNat_unpackMantissa]
  unfold UnpackedFloat.unpack
  dsimp only
  rw [if_neg hones, if_pos hzeros]
  by_cases hmantissa : UnpackedFloat.unpackMantissa bits = 0#_
  · rw [dif_pos hmantissa, hmantissa, rational]
    simp
  · rw [dif_neg hmantissa, rational, h]
    rfl

theorem rational_normal (hzeros : Binary64.biasedExponent bits.toNat ≠ 0)
    (hones : Binary64.biasedExponent bits.toNat ≠ 2047) :
    rational (UnpackedFloat.unpack Format.binary64 bits) = signFactor bits.msb *
      ((Binary64.fractionBound + Binary64.fraction bits.toNat : ℕ) *
        2 ^ ((Binary64.biasedExponent bits.toNat : ℤ) - 1075)) := by
  rw [← toNat_unpackExponent] at hzeros hones ⊢
  have hnotzeros : UnpackedFloat.unpackExponent bits ≠ 0#_ := fun heq => hzeros (by rw [heq]; rfl)
  have hnotones : UnpackedFloat.unpackExponent bits ≠ -1#_ := fun heq => hones (by rw [heq]; rfl)
  have hmantissa : (1#1 ++ UnpackedFloat.unpackMantissa bits).toNat =
      Binary64.fractionBound + Binary64.fraction bits.toNat := by
    rw [← toNat_unpackMantissa, BitVec.toNat_append,
      ← Nat.shiftLeft_add_eq_or_of_lt (UnpackedFloat.unpackMantissa bits).isLt]
    rfl
  rw [← sign_unpackSign, ← hmantissa]
  unfold UnpackedFloat.unpack
  dsimp only
  rw [if_neg hnotones, if_neg hnotzeros, rational]
  rfl

end Fields

/-- The sign and the magnitude that are read off the bits of a finite number make its value. -/
theorem exactValue_eq {x : Float} (h : x.isFinite = true) :
    (Binary64.ofFloat x).negative = highestBit x ∧
      ∃ mantissa exponent, (Binary64.ofFloat x).magnitude = .finite mantissa exponent ∧
        exactValue x = signFactor (highestBit x) * (mantissa * 2 ^ exponent) := by
  have hlt : x.toBits.toNat < 2 ^ 64 := x.toBits.toNat_lt
  have hones : Binary64.biasedExponent x.toBits.toNat ≠ 2047 := biasedExponent_of_isFinite h
  constructor
  · have hbit : highestBit x = decide (2 ^ 63 ≤ x.toBits.toNat) := msb_eq x.toBits.toBitVec
    rw [hbit]
    change decide (x.toBits.toNat / Binary64.signBit % 2 = 1) = _
    rw [decide_eq_decide, Binary64.signBit]
    omega
  · change ∃ mantissa exponent, Binary64.magnitudeOfBits x.toBits.toNat = _ ∧ _
    rw [Binary64.magnitudeOfBits, if_neg hones]
    by_cases hzeros : Binary64.biasedExponent x.toBits.toNat = 0
    · rw [if_pos hzeros]
      exact ⟨_, _, rfl, rational_subnormal hzeros⟩
    · rw [if_neg hzeros]
      exact ⟨_, _, rfl, rational_normal hzeros hones⟩

end MiniJava.Decimal
