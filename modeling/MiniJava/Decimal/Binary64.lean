/-!
# Binary floating point numbers as integers, and their decimals

The bits of a 64-bit number give a sign and either a finite magnitude, which is a whole number
times a power of two, or infinity, or no number. A number is written with exactly two digits behind
the point: the hundredth nearest to its exact value, and of two hundredths that are equally near the
even one. The sign is kept, also in front of zero.
-/

namespace MiniJava.Decimal

inductive Magnitude where
  | finite (mantissa : Nat) (exponent : Int)
  | infinite
  | notANumber
deriving DecidableEq, Repr, Inhabited

structure Binary64 where
  negative : Bool
  magnitude : Magnitude
deriving DecidableEq, Repr, Inhabited

namespace Binary64

/-- Two to the power of fifty-two. -/
def fractionBound : Nat := 4503599627370496

/-- Two to the power of sixty-three. -/
def signBit : Nat := 9223372036854775808

/-- The eleven bits behind the sign. -/
def biasedExponent (bits : Nat) : Nat := bits / fractionBound % 2048

/-- The lowest fifty-two bits. -/
def fraction (bits : Nat) : Nat := bits % fractionBound

def magnitudeOfBits (bits : Nat) : Magnitude :=
  if biasedExponent bits = 2047 then
    if fraction bits = 0 then .infinite else .notANumber
  else if biasedExponent bits = 0 then .finite (fraction bits) (-1074)
  else .finite (fractionBound + fraction bits) (biasedExponent bits - 1075)

def ofBits (bits : Nat) : Binary64 := ⟨bits / signBit % 2 = 1, magnitudeOfBits bits⟩

def ofFloat (x : Float) : Binary64 := ofBits x.toBits.toNat

end Binary64

/-- The whole number nearest to a quotient; of two that are equally near, the even one. -/
def roundDiv (num den : Nat) : Nat :=
  let quotient := num / den
  let twice := 2 * (num % den)
  if twice < den then quotient
  else if den < twice then quotient + 1
  else if quotient % 2 = 0 then quotient else quotient + 1

/-- The number of hundredths nearest to `mantissa * 2 ^ exponent`. -/
def hundredths (mantissa : Nat) (exponent : Int) : Nat :=
  if 0 ≤ exponent then mantissa * 100 * Nat.pow 2 exponent.toNat
  else roundDiv (mantissa * 100) (Nat.pow 2 (-exponent).toNat)

def digit (n : Nat) : String := toString (n % 10)

def ofHundredths (n : Nat) : String :=
  toString (n / 100) ++ "." ++ digit (n / 10) ++ digit n

def Binary64.toFixed (x : Binary64) : String :=
  let sign := if x.negative then "-" else ""
  match x.magnitude with
  | .finite mantissa exponent => sign ++ ofHundredths (hundredths mantissa exponent)
  | .infinite => sign ++ "inf"
  | .notANumber => "NaN"

end MiniJava.Decimal
