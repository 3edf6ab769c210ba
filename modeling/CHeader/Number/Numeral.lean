import CHeader.Text.Basic
import CHeader.Number.Binary64

/-!
# Numerals

A numeral is a sign, digits with or without a point, and an exponent of ten. With a point it is a
floating-point number; without one it is an exact integer, and what a negative exponent moves behind
the point is cut off.
-/
namespace CHeader

open Text

structure Numeral where
  negative : Bool
  whole : Text
  /-- The digits after the point, if there is a point. -/
  fraction : Option Text
  /-- Whether the exponent is negative, and its digits. -/
  exponent : Option (Bool × Text)
  deriving DecidableEq, Repr

inductive NumeralError where
  /-- More digits than an integer without exponent may have. -/
  | tooManyDigits (count : Nat)
  | exponentOutOfRange
  deriving DecidableEq, Repr

namespace Numeral

/-- Is there a minus sign, and what follows an optional sign. -/
def sign : Text → Bool × Text
  | '-' :: rest => (true, rest)
  | '+' :: rest => (false, rest)
  | s => (false, s)

/-- An exponent that runs to the end of the text. -/
def exponent? : Text → Option (Bool × Text)
  | c :: rest =>
    let (negative, digits) := sign rest
    if (c = 'e' ∨ c = 'E') ∧ digits ≠ [] ∧ digits.all isDigit then some (negative, digits) else none
  | [] => none

def parse? (s : Text) : Option Numeral :=
  let (negative, s) := sign s
  let whole := s.takeWhile isDigit
  let rest := s.dropWhile isDigit
  let (fraction, rest) :=
    match rest with
    | '.' :: after => (some (after.takeWhile isDigit), after.dropWhile isDigit)
    | _ => (none, rest)
  if whole = [] ∧ fraction.getD [] = [] then none
  else if rest = [] then some ⟨negative, whole, fraction, none⟩
  else (exponent? rest).map fun exponent => ⟨negative, whole, fraction, some exponent⟩

def exponentValue : Bool × Text → Int
  | (negative, digits) => if negative then -(digitsValue digits) else digitsValue digits

/-- The most digits of an integer without exponent. -/
def digitLimit : Nat := 4300

/-- The exponents that leave an integer's value exact: the first digit's place is at most
`10 ^ (10 ^ 18 - 1)`, the last digit's at least `10 ^ (3 - 2 · 10 ^ 18)`. -/
def exponentInRange (digits : Text) (exponent : Int) : Bool :=
  let significant := (digits.dropWhile fun c => digitValue? c = some 0).length
  let bound : Int := Nat.pow 10 18
  exponent + (max significant 1 : Nat) ≤ bound && 3 - 2 * bound ≤ exponent

/-- The integer part of `digits · 10 ^ exponent`. A power of ten that leaves nothing, or stands
beside a zero, is not worked out. -/
def truncated (digits : Text) : (exponent : Int) → Nat
  | .ofNat power =>
    if digitsValue digits = 0 then 0 else digitsValue digits * Nat.pow 10 power
  | .negSucc power =>
    if digits.length ≤ power + 1 then 0 else digitsValue digits / Nat.pow 10 (power + 1)

def signed (negative : Bool) (magnitude : Nat) : Int :=
  if negative then -(magnitude : Int) else magnitude

def integer (numeral : Numeral) : Except NumeralError Int :=
  match numeral.exponent with
  | none =>
    if digitLimit < numeral.whole.length then .error (.tooManyDigits numeral.whole.length)
    else .ok (signed numeral.negative (digitsValue numeral.whole))
  | some exponent =>
    if exponentInRange numeral.whole (exponentValue exponent) then
      .ok (signed numeral.negative (truncated numeral.whole (exponentValue exponent)))
    else .error .exponentOutOfRange

/-- The nearest floating-point number to the numeral with the given digits after the point. -/
def float (numeral : Numeral) (fraction : Text) : Binary64 :=
  let digits := numeral.whole ++ fraction
  let exponent := (numeral.exponent.map exponentValue).getD 0
  Binary64.ofDecimal numeral.negative (digitsValue digits) digits.length
    (exponent - fraction.length)

end Numeral

end CHeader
