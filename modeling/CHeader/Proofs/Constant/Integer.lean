import CHeader.Proofs.Constant
import CHeader.Proofs.Number.Refused
import Mathlib.Data.Rat.Floor
import Mathlib.Tactic.Linarith
import Mathlib.Tactic.Ring

/-!
# Integers are exact

A numeral without a point stands for an integer. Where an exponent of ten moves digits behind the point,
they are cut off: the integer is the rational number that the numeral denotes, rounded toward zero,
whatever its size. A numeral without an exponent is the integer that its digits denote.
-/
namespace CHeader

open Text

/-- The integer part of a rational number. -/
def towardZero (q : ℚ) : ℤ := if q < 0 then ⌈q⌉ else ⌊q⌋

theorem towardZero_neg (q : ℚ) : towardZero (-q) = -towardZero q := by
  unfold towardZero
  rcases lt_trichotomy q 0 with negative | rfl | positive
  · rw [if_neg (by linarith), if_pos negative, Int.floor_neg]
  · simp
  · rw [if_pos (by linarith), if_neg (by linarith), Int.ceil_neg]

namespace Numeral

/-- The integer that digits behind a sign denote. -/
def signedValue (mark digits : Text) : ℤ :=
  if mark = ['-'] then -(digitsValue digits : ℤ) else digitsValue digits

/-! ## Digits -/

theorem digitValue?_lt (c : Char) : (digitValue? c).getD 0 < 10 := by
  cases found : digitValue? c with
  | none => decide
  | some value => exact (digitValue?_cases found).1

/-- Each digit counts for less than one in the place before it. -/
theorem digitsValue_lt (digits : Text) : digitsValue digits < 10 ^ digits.length := by
  -- generalised over the value of the digits in front
  have bound (start : Nat) :
      digits.foldl (fun value c => 10 * value + (digitValue? c).getD 0) start <
        (start + 1) * 10 ^ digits.length := by
    induction digits generalizing start with
    | nil => simp
    | cons c digits ih =>
      have small := digitValue?_lt c
      calc (c :: digits).foldl (fun value c => 10 * value + (digitValue? c).getD 0) start
          < (10 * start + (digitValue? c).getD 0 + 1) * 10 ^ digits.length := ih _
        _ ≤ (10 * (start + 1)) * 10 ^ digits.length := Nat.mul_le_mul_right _ (by omega)
        _ = (start + 1) * 10 ^ (c :: digits).length := by
          rw [List.length_cons, pow_succ]
          ring
  have whole := bound 0
  rwa [Nat.zero_add, Nat.one_mul] at whole

/-! ## Scaled digits -/

theorem truncated_natCast (digits : Text) (power : Nat) :
    truncated digits power = digitsValue digits * 10 ^ power := by
  change (if digitsValue digits = 0 then 0 else digitsValue digits * 10 ^ power) = _
  split
  next zero => rw [zero, Nat.zero_mul]
  next => rfl

/-- The shortcuts for a zero and for a number below one leave the integer part what it is. -/
theorem truncated_eq_floor (digits : Text) (exponent : ℤ) :
    (truncated digits exponent : ℤ) = ⌊(digitsValue digits : ℚ) * 10 ^ exponent⌋ := by
  cases exponent with
  | ofNat power =>
    have scaled : truncated digits (.ofNat power) = digitsValue digits * 10 ^ power :=
      truncated_natCast digits power
    have whole : (digitsValue digits : ℚ) * 10 ^ (Int.ofNat power) =
        ((digitsValue digits * 10 ^ power : ℕ) : ℚ) := by
      push_cast
      rfl
    rw [scaled, whole, Int.floor_natCast]
  | negSucc power =>
    have scaled : truncated digits (.negSucc power) = digitsValue digits / 10 ^ (power + 1) := by
      rw [truncated]
      split
      next short =>
        -- all digits end up behind the point
        have small := (digitsValue_lt digits).trans_le (Nat.pow_le_pow_right (by decide) short)
        rw [Nat.div_eq_of_lt small]
      next => rfl
    have whole : (digitsValue digits : ℚ) * 10 ^ (Int.negSucc power) =
        (digitsValue digits : ℚ) / ((10 ^ (power + 1) : ℕ) : ℚ) := by
      rw [zpow_negSucc, div_eq_mul_inv]
      push_cast
      rfl
    rw [scaled, whole, Rat.floor_natCast_div_natCast]
    rfl

theorem natAbs_signed (negative : Bool) (magnitude : Nat) :
    (signed negative magnitude).natAbs = magnitude := by
  unfold signed
  split
  · rw [Int.natAbs_neg, Int.natAbs_natCast]
  · rw [Int.natAbs_natCast]

theorem signed_digitsValue (mark digits : Text) :
    signed (decide (mark = ['-'])) (digitsValue digits) = signedValue mark digits := by
  simp only [signed, signedValue, decide_eq_true_eq]

theorem exponentValue_eq (mark digits : Text) :
    exponentValue (decide (mark = ['-']), digits) = signedValue mark digits := by
  simp only [exponentValue, signedValue, decide_eq_true_eq]

theorem signed_truncated (mark digits : Text) (exponent : ℤ) :
    signed (decide (mark = ['-'])) (truncated digits exponent) =
      towardZero (signedValue mark digits * 10 ^ exponent) := by
  have magnitude : (0 : ℚ) ≤ (digitsValue digits : ℚ) * 10 ^ exponent :=
    mul_nonneg (Nat.cast_nonneg _) (zpow_nonneg (by norm_num) exponent)
  have positive : towardZero ((digitsValue digits : ℚ) * 10 ^ exponent) =
      truncated digits exponent := by
    rw [towardZero, if_neg (not_lt.mpr magnitude), truncated_eq_floor]
  -- the sign is put in front of what is left, which is why negative numbers are rounded up
  unfold signed signedValue
  by_cases minus : mark = ['-']
  · simp only [minus, decide_true, ↓reduceIte, Int.cast_neg, Int.cast_natCast, neg_mul,
      towardZero_neg, positive]
  · simp only [minus, decide_false, Bool.false_eq_true, ↓reduceIte, Int.cast_natCast, positive]

theorem integer_whole (mark : Text) {digits : Text} (short : digits.length ≤ digitLimit) :
    integer ⟨decide (mark = ['-']), digits, none, none⟩ = .ok (signedValue mark digits) := by
  rw [← signed_digitsValue]
  exact if_neg (Nat.not_lt.mpr short)

theorem integer_scaled (mark : Text) {digits direction exponent : Text}
    (near : ¬OutOfRange digits (signedValue direction exponent)) :
    integer ⟨decide (mark = ['-']), digits, none, some (decide (direction = ['-']), exponent)⟩ =
      .ok (towardZero (signedValue mark digits * 10 ^ signedValue direction exponent)) := by
  have inRange : exponentInRange digits (exponentValue (decide (direction = ['-']), exponent)) =
      true := by
    rw [exponentValue_eq, ← Bool.not_eq_false, exponentInRange_eq_false_iff]
    exact near
  rw [← signed_truncated, ← exponentValue_eq direction]
  exact if_pos inRange

/-- Without an exponent, an integer has no more digits than are read. -/
theorem exponent_of_long {numeral : Numeral} {value : Int} (read : numeral.integer = .ok value)
    (long : 10 ^ digitLimit ≤ value.natAbs) : numeral.exponent ≠ none := by
  intro plain
  rw [integer, plain] at read
  dsimp only at read
  split at read
  · cases read
  next short =>
    cases read
    rw [natAbs_signed] at long
    have bound : digitsValue numeral.whole < 10 ^ digitLimit :=
      calc digitsValue numeral.whole
        _ < 10 ^ numeral.whole.length := digitsValue_lt numeral.whole
        _ ≤ 10 ^ digitLimit := Nat.pow_le_pow_right (by decide) (Nat.not_lt.mp short)
    exact absurd long (Nat.not_le.mpr bound)

/-! ## Numerals -/

theorem IsSign.solid {mark : Text} (signed : IsSign mark) :
    ∀ c ∈ mark, isSpace c = false ∧ c ≠ '/' := by
  rcases signed with rfl | rfl | rfl <;> decide

theorem Digits.solid {digits : Text} (all : Digits digits) :
    ∀ c ∈ digits, isSpace c = false ∧ c ≠ '/' := by
  intro c member
  refine ⟨isSpace_of_digit (all c member), ?_⟩
  rintro rfl
  have digit := all _ member
  revert digit
  decide

/-- Nothing in a numeral is blank or opens a comment. -/
theorem IsNumeral.solid {s : Text} (isNumeral : IsNumeral s) :
    ∀ c ∈ s, isSpace c = false ∧ c ≠ '/' := by
  obtain ⟨mark, mantissa, exponent, rfl, signed, isMantissa, isExponent⟩ := isNumeral
  simp only [List.forall_mem_append]
  refine ⟨signed.solid, ?_, ?_⟩
  · cases isMantissa with
    | whole _ all => exact all.solid
    | pointed _ left right =>
      rw [List.forall_mem_append, List.forall_mem_cons]
      exact ⟨left.solid, by decide, right.solid⟩
  · cases isExponent with
    | absent => decide
    | mark letter directed _ scale =>
      rw [List.forall_mem_cons, List.forall_mem_append]
      refine ⟨?_, directed.solid, scale.solid⟩
      rcases letter with rfl | rfl <;> decide

end Numeral

namespace Constant

open Numeral

variable {mark digits : Text}

theorem parse_of_numeral {s : Text} {numeral : Numeral} (read : Numeral.parse? s = some numeral)
    (pointless : numeral.fraction = none) : parse s = numeral.integer.map .integer := by
  have solid := (isNumeral_of_parse? read).solid
  have uncommented : ¬HasComment s := not_hasComment fun slash => (solid _ slash).2 rfl
  have trimmed : trim s = s := trim_of_solid fun c member => (solid c member).1
  simp only [parse, stripComments_eq_self uncommented, trimmed, read, pointless]

theorem numeral_of_parse_integer {text : Text} {value : Int} (parsed : parse text = .ok (.integer value)) :
    ∃ numeral, Numeral.parse? (trim (stripComments text)) = some numeral ∧
      numeral.integer = .ok value := by
  unfold parse at parsed
  dsimp only at parsed
  split at parsed
  next numeral found =>
    split at parsed
    · cases parsed
    next =>
      cases worked : numeral.integer with
      | error cause =>
        rw [worked] at parsed
        cases parsed
      | ok number =>
        rw [worked] at parsed
        cases parsed
        exact ⟨numeral, found, worked⟩
  next => split at parsed <;> cases parsed

/-- An integer with an exponent, where the exponent is in range, has for its value the number that it
denotes, rounded toward zero; without an exponent it is the integer that its digits denote, if there
are at most 4300 of them. -/
theorem parse_integer (signed : IsSign mark) (filled : digits ≠ []) (all : Digits digits) :
    (∀ letter direction exponent, letter = 'e' ∨ letter = 'E' → IsSign direction →
      exponent ≠ [] → Digits exponent → ¬OutOfRange digits (signedValue direction exponent) →
      parse (mark ++ (digits ++ letter :: (direction ++ exponent))) =
        .ok (.integer (towardZero
          (signedValue mark digits * 10 ^ signedValue direction exponent)))) ∧
    (digits.length ≤ 4300 → parse (mark ++ digits) = .ok (.integer (signedValue mark digits))) := by
  constructor
  · intro letter direction exponent isLetter directed some_digit scale near
    rw [parse_of_numeral (parse?_scaled signed filled all isLetter directed some_digit scale) rfl,
      integer_scaled mark near]
    rfl
  · intro short
    rw [parse_of_numeral (parse?_digits signed filled all) rfl, integer_whole mark short]
    rfl

/-- Zeros in front, and a negative number of which two digits are cut off. -/
theorem parse_integer_cut :
    IsSign ['-'] ∧ Digits "0012345".toList ∧ ¬OutOfRange "0012345".toList (-2) ∧
      parse "-0012345E-02".toList = .ok (.integer (-123)) ∧
      parse "-0012345".toList = .ok (.integer (-12345)) := by
  have signed : IsSign ['-'] := Or.inr (Or.inl rfl)
  have all : Digits "0012345".toList := by decide
  have near : ¬OutOfRange "0012345".toList (-2) := by
    unfold OutOfRange
    decide
  have exact := parse_integer signed (by decide) all
  have value : towardZero (signedValue ['-'] "0012345".toList *
      10 ^ signedValue ['-'] "02".toList) = -123 := by
    have parts : signedValue ['-'] "0012345".toList = -12345 ∧
        signedValue ['-'] "02".toList = -2 := by decide
    rw [parts.1, parts.2, towardZero, if_pos (by norm_num), Int.ceil_eq_iff]
    norm_num
  have scaled := exact.1 'E' ['-'] "02".toList (Or.inr rfl) signed (by decide) (by decide) near
  rw [value] at scaled
  exact ⟨signed, all, near, scaled, exact.2 (by decide)⟩

end Constant

end CHeader
