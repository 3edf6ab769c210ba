/-!
# Binary floating-point numbers

A number with 53 significant bits: an integer below 2⁵³ times a power of two that is at least
2⁻¹⁰⁷⁴, or an infinity. Every value has one representation. A ratio is rounded to the nearest
number, and a tie goes to the even mantissa; what is too large is infinite.
-/
namespace CHeader

inductive Binary64 where
  | finite (negative : Bool) (mantissa : Nat) (exponent : Int)
  | infinite (negative : Bool)
  deriving DecidableEq, Repr, Inhabited

namespace Binary64

def leastExponent : Int := -1074

def greatestExponent : Int := 971

def zero (negative : Bool) : Binary64 := .finite negative 0 leastExponent

/-- The ratio `numerator / (denominator · 2 ^ exponent)` as a fraction. -/
def scaled (numerator denominator : Nat) (exponent : Int) : Nat × Nat :=
  (numerator * Nat.pow 2 (-exponent).toNat, denominator * Nat.pow 2 exponent.toNat)

/-- The nearest integer to a ratio; a tie goes to the even one. -/
def roundHalfEven (numerator denominator : Nat) : Nat :=
  let quotient := numerator / denominator
  let twice := 2 * (numerator % denominator)
  if twice < denominator then quotient
  else if denominator < twice then quotient + 1
  else quotient + quotient % 2

/-- The exponent at which the integer part of a ratio has 53 bits, or the least exponent. -/
def exponentFor (numerator denominator : Nat) : Int :=
  let guess : Int := (numerator.log2 : Int) - denominator.log2 - 52
  let (top, bottom) := scaled numerator denominator guess
  max leastExponent (if Nat.pow 2 52 * bottom ≤ top then guess else guess - 1)

def ofRatio (negative : Bool) (numerator denominator : Nat) : Binary64 :=
  if numerator = 0 then zero negative
  else
    let exponent := exponentFor numerator denominator
    let (top, bottom) := scaled numerator denominator exponent
    let mantissa := roundHalfEven top bottom
    let (mantissa, exponent) :=
      if mantissa = Nat.pow 2 53 then (Nat.pow 2 52, exponent + 1) else (mantissa, exponent)
    if greatestExponent < exponent then .infinite negative
    else if mantissa = 0 then zero negative
    else .finite negative mantissa exponent

/-- The number nearest to `digits · 10 ^ exponent`, where `digits` has at most `count` decimal
digits. Beyond the range of exponents the power of ten is not worked out. -/
def ofDecimal (negative : Bool) (digits count : Nat) (exponent : Int) : Binary64 :=
  if digits = 0 ∨ exponent + count < -330 then zero negative
  else if 310 < exponent then .infinite negative
  else ofRatio negative (digits * Nat.pow 10 exponent.toNat) (Nat.pow 10 (-exponent).toNat)

/-- The magnitude as a fraction. -/
def ratio (mantissa : Nat) (exponent : Int) : Nat × Nat :=
  (mantissa * Nat.pow 2 exponent.toNat, Nat.pow 2 (-exponent).toNat)

end Binary64

end CHeader
