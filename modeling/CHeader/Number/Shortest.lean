import CHeader.Number.Binary64
import CHeader.Text.Basic

/-!
# Shortest decimal notation

A finite number is written with the fewest significant digits that read back as the same number,
and of those with the digits nearest to it. For each count of digits the two neighbours on that
decimal grid are tried.
-/
namespace CHeader

/-- The value `0.d₁d₂… · 10 ^ point`, given by the number whose digits are `d₁d₂…`. -/
structure Decimal where
  digits : Nat
  point : Int
  deriving DecidableEq, Repr

namespace Decimal

def digitsOf (n : Nat) : Text := Nat.toDigits 10 n

/-- How many zeros follow the point before the first digit of a fraction below one. -/
def leadingZeros (numerator denominator : Nat) : (fuel : Nat) → Nat
  | 0 => 0
  | fuel + 1 =>
    if denominator ≤ 10 * numerator then 0
    else leadingZeros (10 * numerator) denominator fuel + 1

/-- The position of the point relative to the first digit; every positive number is above
`10 ^ (-400)`. -/
def pointOf (numerator denominator : Nat) : Int :=
  if denominator ≤ numerator then (digitsOf (numerator / denominator)).length
  else -(leadingZeros numerator denominator 400)

/-- The neighbour with `count` digits that reads back, the nearer one if both do; of two that are
equally near, the even one. -/
def withDigits? (mantissa : Nat) (exponent : Int) (count : Nat) : Option Decimal :=
  let (numerator, denominator) := Binary64.ratio mantissa exponent
  let point := pointOf numerator denominator
  let shift := (count : Int) - point
  let top := numerator * Nat.pow 10 shift.toNat
  let bottom := denominator * Nat.pow 10 (-shift).toNat
  let below := top / bottom
  let readsBack := fun digits =>
    Binary64.ofDecimal false digits (count + 1) (-shift) = .finite false mantissa exponent
  let above : Decimal :=
    if below + 1 = Nat.pow 10 count then ⟨1, point + 1⟩ else ⟨below + 1, point⟩
  let nearest := Binary64.roundHalfEven top bottom
  if readsBack below ∧ (nearest = below ∨ ¬ readsBack (below + 1)) then some ⟨below, point⟩
  else if readsBack (below + 1) then some above
  else none

/-- Seventeen digits always read back. -/
def shortest (mantissa : Nat) (exponent : Int) : Decimal :=
  ((List.range 17).findSome? fun count => withDigits? mantissa exponent (count + 1)).getD ⟨0, 0⟩

end Decimal

/-- How floating-point numbers are laid out. -/
structure FloatLayout where
  /-- The least exponent of the first digit that is written without a power of ten. -/
  leastFixed : Int
  greatestFixed : Int
  /-- The least number of digits of a written exponent. -/
  exponentWidth : Nat
  infinity : Text

namespace FloatLayout

def padZeros (width : Nat) (digits : Text) : Text :=
  List.replicate (width - digits.length) '0' ++ digits

/-- Digits with a point, and a zero wherever there is no digit before or after it. -/
def fixed (digits : Text) (point : Int) : Text :=
  if point ≤ 0 then "0.".toList ++ List.replicate (-point).toNat '0' ++ digits
  else if digits.length ≤ point.toNat then
    digits ++ List.replicate (point.toNat - digits.length) '0' ++ ".0".toList
  else digits.take point.toNat ++ '.' :: digits.drop point.toNat

def scientific (layout : FloatLayout) (digits : Text) (exponent : Int) : Text :=
  let fraction := digits.drop 1
  digits.take 1 ++ (if fraction.isEmpty then [] else '.' :: fraction) ++
    'e' :: (if exponent < 0 then '-' else '+') ::
      padZeros layout.exponentWidth (Decimal.digitsOf exponent.natAbs)

def magnitude (layout : FloatLayout) (mantissa : Nat) (exponent : Int) : Text :=
  if mantissa = 0 then "0.0".toList
  else
    let decimal := Decimal.shortest mantissa exponent
    let digits := Decimal.digitsOf decimal.digits
    let first := decimal.point - 1
    if layout.leastFixed ≤ first ∧ first ≤ layout.greatestFixed then fixed digits decimal.point
    else layout.scientific digits first

def render (layout : FloatLayout) : Binary64 → Text
  | .finite negative mantissa exponent =>
    (if negative then ['-'] else []) ++ layout.magnitude mantissa exponent
  | .infinite negative => (if negative then ['-'] else []) ++ layout.infinity

/-- Fixed notation from 0.0001 up to below 10¹⁶; exponents have a sign and two digits at least. -/
def display : FloatLayout := ⟨-4, 15, 2, "inf".toList⟩

/-- Fixed notation from 0.00001 up to below 10¹⁶; exponents have a sign and no leading zero. -/
def interchange : FloatLayout := ⟨-5, 15, 1, "null".toList⟩

end FloatLayout

end CHeader
