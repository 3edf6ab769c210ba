import CHeader.Proofs.Number.Numeral
import Mathlib.Algebra.Ring.Int.Defs

/-!
# Numerals that are refused

A numeral with a point is always read. One without a point is refused if it has no exponent and too
many digits, or if its exponent moves the digits beyond what exact arithmetic can hold.
-/
namespace CHeader.Numeral

open Text

/-! ## What is refused -/

/-- The digits from the first one on that is not zero. -/
def significant (digits : Text) : Text := digits.dropWhile fun c => digitValue? c = some 0

/-- The first digit would stand too far to the left, or the last one too far to the right. -/
def OutOfRange (digits : Text) (exponent : Int) : Prop :=
  10 ^ 18 < exponent + (max (significant digits).length 1 : Nat) ∨ exponent < 3 - 2 * 10 ^ 18

inductive Refused : Text → NumeralError → Prop where
  | long {mark digits : Text} (signed : IsSign mark) (all : Digits digits)
      (long : 4300 < digits.length) : Refused (mark ++ digits) (.tooManyDigits digits.length)
  | scaled {mark digits direction exponent : Text} {c : Char} (signed : IsSign mark)
      (filled : digits ≠ []) (all : Digits digits) (letter : c = 'e' ∨ c = 'E')
      (directed : IsSign direction) (some_digit : exponent ≠ []) (scale : Digits exponent)
      (far : OutOfRange digits
        (if direction = ['-'] then -(digitsValue exponent : Int) else digitsValue exponent)) :
      Refused (mark ++ (digits ++ c :: (direction ++ exponent))) .exponentOutOfRange

theorem exponentInRange_eq_false_iff {digits : Text} {exponent : Int} :
    exponentInRange digits exponent = false ↔ OutOfRange digits exponent := by
  have bound : ((Nat.pow 10 18 : Nat) : Int) = 10 ^ 18 := rfl
  unfold exponentInRange OutOfRange significant
  simp only [bound, Bool.and_eq_false_iff, decide_eq_false_iff_not, Int.not_le]

/-! ## Reading the parts -/

theorem IsSign.sign_eq {mark rest : Text} (signed : IsSign mark)
    (unsigned : ∀ c ∈ rest.head?, c ≠ '-' ∧ c ≠ '+') :
    sign (mark ++ rest) = (decide (mark = ['-']), rest) := by
  rcases signed with rfl | rfl | rfl
  · exact sign_unsigned unsigned
  · rfl
  · rfl

theorem Digits.unsigned_self {digits : Text} (all : Digits digits) (filled : digits ≠ []) :
    ∀ c ∈ digits.head?, c ≠ '-' ∧ c ≠ '+' := by
  have unsigned := all.unsigned filled []
  rwa [List.append_nil] at unsigned

theorem exponent?_eq {direction digits : Text} {c : Char} (letter : c = 'e' ∨ c = 'E')
    (directed : IsSign direction) (filled : digits ≠ []) (all : Digits digits) :
    exponent? (c :: (direction ++ digits)) = some (decide (direction = ['-']), digits) := by
  rw [exponent?, directed.sign_eq (all.unsigned_self filled)]
  exact if_pos ⟨letter, filled, List.all_eq_true.mpr all⟩

theorem parse?_whole {mark digits exponent : Text} (signed : IsSign mark) (filled : digits ≠ [])
    (all : Digits digits) (isExponent : IsExponent exponent) :
    parse? (mark ++ (digits ++ exponent)) =
      if exponent = [] then some ⟨decide (mark = ['-']), digits, none, none⟩
      else (exponent? exponent).map fun scale =>
        ⟨decide (mark = ['-']), digits, none, some scale⟩ := by
  have run := takeWhile_append_stop all fun c first => (isExponent.stops c first).1
  have unpointed : fractionPart exponent = (none, exponent) := by
    unfold fractionPart
    split
    · exact absurd rfl (isExponent.stops _ rfl).2
    · rfl
  rw [parse?_eq, signed.sign_eq (all.unsigned filled exponent)]
  dsimp only
  rw [run.1, run.2, unpointed]
  exact if_neg fun empty => filled empty.1

theorem parse?_digits {mark digits : Text} (signed : IsSign mark) (filled : digits ≠ [])
    (all : Digits digits) :
    parse? (mark ++ digits) = some ⟨decide (mark = ['-']), digits, none, none⟩ := by
  have read := parse?_whole signed filled all .absent
  rwa [List.append_nil] at read

theorem parse?_scaled {mark digits direction exponent : Text} {c : Char} (signed : IsSign mark)
    (filled : digits ≠ []) (all : Digits digits) (letter : c = 'e' ∨ c = 'E')
    (directed : IsSign direction) (some_digit : exponent ≠ []) (scale : Digits exponent) :
    parse? (mark ++ (digits ++ c :: (direction ++ exponent))) =
      some ⟨decide (mark = ['-']), digits, none,
        some (decide (direction = ['-']), exponent)⟩ := by
  rw [parse?_whole signed filled all (.mark letter directed some_digit scale),
    exponent?_eq letter directed some_digit scale]
  rfl

theorem fraction_of_pointed {mark before after exponent : Text} {numeral : Numeral}
    (signed : IsSign mark) (filled : before ≠ [] ∨ after ≠ []) (left : Digits before)
    (right : Digits after)
    (found : parse? (mark ++ ((before ++ '.' :: after) ++ exponent)) = some numeral) :
    numeral.fraction ≠ none := by
  have point : ∀ c ∈ ('.' :: (after ++ exponent)).head?, isDigit c = false := by
    intro c first
    cases Option.some.inj (Option.mem_def.mp first)
    decide
  have run := takeWhile_append_stop left point
  rw [parse?_eq, signed.sign_eq ((IsMantissa.pointed filled left right).unsigned exponent),
    List.append_assoc, List.cons_append] at found
  dsimp only at found
  rw [run.2, fractionPart] at found
  split at found
  · cases found
  · split at found
    · cases found
      exact Option.some_ne_none _
    · obtain ⟨scale, -, rfl⟩ := Option.map_eq_some_iff.mp found
      exact Option.some_ne_none _

/-! ## What is read as an integer -/

/-- The text is read as an integer, which is not worked out for the reason given. -/
def IntegerError (s : Text) (cause : NumeralError) : Prop :=
  ∃ numeral, parse? s = some numeral ∧ numeral.fraction = none ∧ numeral.integer = .error cause

theorem integerError_iff_refused {s : Text} {cause : NumeralError} :
    IntegerError s cause ↔ Refused s cause := by
  constructor
  · rintro ⟨numeral, found, pointless, failed⟩
    obtain ⟨mark, mantissa, exponent, rfl, signed, isMantissa, isExponent⟩ :=
      isNumeral_of_parse? found
    cases isMantissa with
    | pointed filled left right =>
      exact absurd pointless (fraction_of_pointed signed filled left right found)
    | whole filled all =>
      cases isExponent with
      | absent =>
        rw [List.append_nil, parse?_digits signed filled all] at found
        cases found
        rw [integer] at failed
        dsimp only at failed
        split at failed
        next long =>
          cases failed
          rw [List.append_nil]
          exact .long signed all long
        next => cases failed
      | mark letter directed some_digit scale =>
        rw [parse?_scaled signed filled all letter directed some_digit scale] at found
        cases found
        rw [integer] at failed
        dsimp only at failed
        split at failed
        next => cases failed
        next refused =>
          cases failed
          refine .scaled signed filled all letter directed some_digit scale ?_
          rw [Bool.not_eq_true, exponentInRange_eq_false_iff] at refused
          simpa only [exponentValue, decide_eq_true_eq] using refused
  · rintro (⟨signed, all, long⟩ | ⟨signed, filled, all, letter, directed, some_digit, scale, far⟩)
    · have filled := List.ne_nil_of_length_pos (Nat.zero_lt_of_lt long)
      exact ⟨_, parse?_digits signed filled all, rfl, if_pos long⟩
    · refine ⟨_, parse?_scaled signed filled all letter directed some_digit scale, rfl, ?_⟩
      rw [integer]
      dsimp only
      have refused := exponentInRange_eq_false_iff.mpr far
      simp only [exponentValue, decide_eq_true_eq, refused, Bool.false_eq_true, ↓reduceIte]

end CHeader.Numeral
