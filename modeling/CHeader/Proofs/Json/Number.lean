import CHeader.Proofs.Json.Quoted
import CHeader.Proofs.Number.Refused
import Mathlib.Data.List.TakeWhile

/-!
# Where numbers end

A number takes as much of the text as can belong to it. It is refused in one case only: it is an
integer, and has more digits than the limit.
-/
namespace CHeader.JsonValue

open Text
open Numeral (IsSign)

/-- At least one digit. -/
def Figures (s : Text) : Prop := s ≠ [] ∧ ∀ c ∈ s, c.isDigit = true

/-- The digits before the point: no zero stands in front of others. -/
def IsWhole (s : Text) : Prop := s = ['0'] ∨ Figures s ∧ s.head? ≠ some '0'

def IsFraction (s : Text) : Prop := ∃ digits, s = '.' :: digits ∧ Figures digits

def IsScale (s : Text) : Prop :=
  ∃ letter sign digits, s = letter :: (sign ++ digits) ∧ (letter = 'e' ∨ letter = 'E') ∧
    IsSign sign ∧ Figures digits

/-- The text does not go on with a number that ends before it. -/
def Unextended (after : Text) : Prop :=
  ∀ more, more <+: after → ¬(Figures more ∨ IsFraction more ∨ IsScale more)

/-- A number that can be read: as an integer it has no more digits than the limit. -/
inductive IsNumber : Text → Prop
  | intro {minus whole fraction scale : Text} (negative : minus = [] ∨ minus = ['-'])
      (digits : IsWhole whole) (point : fraction = [] ∨ IsFraction fraction)
      (power : scale = [] ∨ IsScale scale)
      (short : fraction = [] → scale = [] → whole.length ≤ Numeral.digitLimit) :
      IsNumber (minus ++ (whole ++ (fraction ++ scale)))

/-- A text that starts with an integer of a number of digits that is beyond the limit. -/
inductive Overlong : Nat → Text → Prop
  | intro {minus whole after : Text} (negative : minus = [] ∨ minus = ['-'])
      (digits : IsWhole whole) (long : Numeral.digitLimit < whole.length)
      (ends : Unextended after) : Overlong whole.length (minus ++ (whole ++ after))

variable {c : Char} {s rest : Text}

theorem takeWhile_figures (s : Text) (filled : s.takeWhile Char.isDigit ≠ []) :
    Figures (s.takeWhile Char.isDigit) :=
  ⟨filled, fun _ member => List.mem_takeWhile_imp member⟩

theorem Figures.takeWhile_ne_nil {digits : Text} (figures : Figures digits) (rest : Text) :
    (digits ++ rest).takeWhile Char.isDigit ≠ [] := by
  obtain ⟨c, others, rfl⟩ := List.exists_cons_of_ne_nil figures.1
  rw [List.cons_append, List.takeWhile_cons_of_pos (figures.2 c List.mem_cons_self)]
  exact List.cons_ne_nil _ _

theorem Figures.unsigned {digits : Text} (figures : Figures digits) (rest : Text) :
    ∀ c ∈ (digits ++ rest).head?, c ≠ '-' ∧ c ≠ '+' := by
  intro c first
  obtain ⟨d, others, rfl⟩ := List.exists_cons_of_ne_nil figures.1
  cases Option.some.inj (Option.mem_def.mp first)
  have digit := figures.2 c List.mem_cons_self
  constructor <;> rintro rfl <;> cases digit

theorem unextended_of_head (plain : ∀ c ∈ s.head?, c.isDigit = false ∧ c ∉ ['.', 'e', 'E']) :
    Unextended s := by
  rintro more ⟨after, rfl⟩ (figures | ⟨digits, rfl, -⟩ | ⟨letter, sign, digits, rfl, kind, -⟩)
  · obtain ⟨c, others, rfl⟩ := List.exists_cons_of_ne_nil figures.1
    have digit := figures.2 c List.mem_cons_self
    rw [(plain c rfl).1] at digit
    cases digit
  · exact (plain '.' rfl).2 (by decide)
  · refine (plain letter rfl).2 ?_
    rcases kind with rfl | rfl <;> decide

theorem Unextended.stops (ends : Unextended rest) : ∀ c ∈ rest.head?, c.isDigit = false := by
  intro c first
  rw [Option.mem_def, List.head?_eq_some_iff] at first
  obtain ⟨others, rfl⟩ := first
  refine Bool.eq_false_iff.mpr fun digit => ends [c] ⟨others, rfl⟩ (.inl ⟨by simp, ?_⟩)
  simpa using digit

theorem wholeDigits?_eq_some {whole : Text} (found : wholeDigits? s = some (whole, rest)) :
    IsWhole whole ∧ s = whole ++ rest ∧
      (whole ≠ ['0'] → ∀ c ∈ rest.head?, c.isDigit = false) := by
  cases s with
  | nil => cases found
  | cons c s =>
    simp only [wholeDigits?] at found
    split at found
    next zero =>
      cases found
      exact ⟨.inl (by rw [zero]), rfl, fun more => absurd (by rw [zero]) more⟩
    next nonzero =>
      obtain ⟨digit, same⟩ := Option.ite_none_right_eq_some.mp found
      cases same
      refine ⟨.inr ⟨⟨List.cons_ne_nil _ _, ?_⟩, ?_⟩, ?_, fun _ => ?_⟩
      · exact List.forall_mem_cons.mpr ⟨digit, fun _ member => List.mem_takeWhile_imp member⟩
      · rw [List.head?_cons]
        exact fun same => nonzero (Option.some.inj same)
      · rw [List.cons_append, List.takeWhile_append_dropWhile]
      · intro next first
        have stops := List.head?_dropWhile_not Char.isDigit s
        rwa [Option.mem_def.mp first] at stops

theorem wholeDigits?_append {whole : Text} (digits : IsWhole whole)
    (stops : ∀ c ∈ rest.head?, c.isDigit = false) :
    wholeDigits? (whole ++ rest) = some (whole, rest) := by
  rcases digits with rfl | ⟨figures, nonzero⟩
  · rfl
  · obtain ⟨c, others, rfl⟩ := List.exists_cons_of_ne_nil figures.1
    obtain ⟨digit, more⟩ := List.forall_mem_cons.mp figures.2
    have run := takeWhile_append_stop more stops
    have first : c ≠ '0' := fun same => nonzero (by rw [same, List.head?_cons])
    rw [List.cons_append, wholeDigits?, if_neg first, if_pos digit, run.1, run.2]

/-- A fraction takes a point with all digits behind it. -/
theorem fraction_append {front : Text} (isFraction : IsFraction front)
    (stops : ∀ c ∈ rest.head?, c.isDigit = false) :
    ∃ digits, fraction (front ++ rest) = (some digits, rest) := by
  obtain ⟨digits, rfl, figures⟩ := isFraction
  have run := takeWhile_append_stop figures.2 stops
  refine ⟨digits, ?_⟩
  rw [List.cons_append, fraction, run.1, run.2, if_neg figures.1]

theorem fraction_cases (s : Text) :
    (fraction s = (none, s) ∧ ∀ front, front <+: s → ¬IsFraction front) ∨
      ∃ front digits rest, s = front ++ rest ∧ IsFraction front ∧ fraction s = (some digits, rest) := by
  unfold fraction
  split
  next after =>
    split
    next empty =>
      refine .inl ⟨rfl, ?_⟩
      rintro front ⟨rest, same⟩ ⟨digits, rfl, figures⟩
      obtain ⟨-, rfl⟩ := List.cons.inj same
      exact figures.takeWhile_ne_nil rest empty
    next filled =>
      refine .inr ⟨_, _, _, ?_, ⟨_, rfl, takeWhile_figures after filled⟩, rfl⟩
      rw [List.cons_append, List.takeWhile_append_dropWhile]
  next pointless =>
    refine .inl ⟨rfl, ?_⟩
    rintro front ⟨rest, rfl⟩ ⟨digits, rfl, -⟩
    exact pointless _ rfl

/-- An exponent takes its letter, a sign and all digits behind it. -/
theorem exponent_append {front : Text} (isScale : IsScale front)
    (stops : ∀ c ∈ rest.head?, c.isDigit = false) :
    ∃ power, exponent (front ++ rest) = (some power, rest) := by
  obtain ⟨letter, sign, digits, rfl, kind, signed, figures⟩ := isScale
  have run := takeWhile_append_stop figures.2 stops
  refine ⟨(decide (sign = ['-']), digits), ?_⟩
  rw [List.cons_append, List.append_assoc, exponent, signed.sign_eq (figures.unsigned rest)]
  dsimp only
  rw [run.1, run.2, if_pos ⟨kind, figures.1⟩]

theorem exponent_cases (s : Text) :
    (exponent s = (none, s) ∧ ∀ front, front <+: s → ¬IsScale front) ∨
      ∃ front power rest, s = front ++ rest ∧ IsScale front ∧ exponent s = (some power, rest) := by
  cases s with
  | nil =>
    refine .inl ⟨rfl, ?_⟩
    rintro front empty ⟨letter, sign, digits, rfl, -⟩
    cases List.prefix_nil.mp empty
  | cons c s =>
    obtain ⟨sign, signed, whole⟩ := Numeral.sign_append s
    simp only [exponent]
    split
    next scale =>
      refine .inr ⟨c :: (sign ++ (Numeral.sign s).2.takeWhile Char.isDigit), _, _, ?_,
        ⟨c, sign, _, rfl, scale.1, signed, takeWhile_figures _ scale.2⟩, rfl⟩
      rw [List.cons_append, List.append_assoc, List.takeWhile_append_dropWhile, ← whole]
    next unscaled =>
      refine .inl ⟨rfl, ?_⟩
      rintro front ⟨rest, same⟩ ⟨letter, mark, digits, rfl, kind, marked, figures⟩
      rw [List.cons_append, List.append_assoc] at same
      obtain ⟨rfl, rfl⟩ := List.cons.inj same
      rw [marked.sign_eq (figures.unsigned rest)] at unscaled
      exact unscaled ⟨kind, figures.takeWhile_ne_nil rest⟩

theorem IsWhole.head_isDigit {whole : Text} (digits : IsWhole whole) (rest : Text) :
    ∃ c others, whole ++ rest = c :: others ∧ c.isDigit = true := by
  rcases digits with rfl | ⟨figures, -⟩
  · exact ⟨'0', rest, rfl, rfl⟩
  · obtain ⟨c, others, rfl⟩ := List.exists_cons_of_ne_nil figures.1
    exact ⟨c, others ++ rest, rfl, figures.2 c List.mem_cons_self⟩

/-- Whether a number has a minus sign, and the text behind it. -/
def unsigned (s : Text) : Bool × Text :=
  match s with
  | '-' :: rest => (true, rest)
  | _ => (false, s)

theorem exists_minus (s : Text) :
    ∃ minus, (minus = [] ∨ minus = ['-']) ∧ s = minus ++ (unsigned s).2 := by
  unfold unsigned
  split
  · exact ⟨['-'], .inr rfl, rfl⟩
  · exact ⟨[], .inl rfl, rfl⟩

theorem unsigned_append {minus whole : Text} (negative : minus = [] ∨ minus = ['-'])
    (digits : IsWhole whole) (rest : Text) :
    (unsigned (minus ++ (whole ++ rest))).2 = whole ++ rest := by
  rcases negative with rfl | rfl
  · obtain ⟨c, others, same, digit⟩ := digits.head_isDigit rest
    rw [List.nil_append, same, unsigned]
    rintro _ first
    obtain ⟨rfl, -⟩ := List.cons.inj first
    cases digit
  · rfl

theorem number_eq (s : Text) :
    number s =
      match wholeDigits? (unsigned s).2 with
      | none => .error (.fault .expectingValue s.length)
      | some (whole, tail) =>
        let numeral : Numeral :=
          ⟨(unsigned s).1, whole, (fraction tail).1, (exponent (fraction tail).2).1⟩
        if (fraction tail).1.isSome || (exponent (fraction tail).2).1.isSome then
          .ok (.float (numeral.float ((fraction tail).1.getD [])), (exponent (fraction tail).2).2)
        else
          match numeral.integer with
          | .ok value => .ok (.integer value, (exponent (fraction tail).2).2)
          | .error cause => .error (.numeral cause) :=
  rfl

theorem left_number {whole tail : Text} (found : wholeDigits? (unsigned s).2 = some (whole, tail)) :
    left (number s) =
      if (fraction tail).1 = none ∧ (exponent (fraction tail).2).1 = none ∧
          Numeral.digitLimit < whole.length then
        .error (.numeral (.tooManyDigits whole.length))
      else .ok (exponent (fraction tail).2).2 := by
  rw [number_eq, found]
  dsimp only
  split
  next inexact =>
    rw [if_neg]
    · rfl
    · rintro ⟨pointless, unscaled, -⟩
      rw [pointless, unscaled] at inexact
      cases inexact
  next exact =>
    have bare : (fraction tail).1 = none ∧ (exponent (fraction tail).2).1 = none := by
      simpa using exact
    simp only [bare, Numeral.integer, true_and]
    by_cases long : Numeral.digitLimit < whole.length
    · simp only [if_pos long]
      rfl
    · simp only [if_neg long]
      rfl

theorem left_number_of_none (missing : wholeDigits? (unsigned s).2 = none) :
    left (number s) = .error (.fault .expectingValue s.length) := by
  rw [number_eq, missing]
  rfl

/-- The parts of a number behind its first digits. -/
theorem exists_parts (tail : Text) :
    ∃ point power, tail = point ++ (power ++ (exponent (fraction tail).2).2) ∧
      (point = [] ∧ (fraction tail).1 = none ∨ IsFraction point) ∧
      (power = [] ∧ (exponent (fraction tail).2).1 = none ∨ IsScale power) := by
  have back (s : Text) : ∃ power, s = power ++ (exponent s).2 ∧
      (power = [] ∧ (exponent s).1 = none ∨ IsScale power) := by
    rcases exponent_cases s with ⟨read, -⟩ | ⟨power, value, rest, rfl, scaled, read⟩
    · exact ⟨[], by rw [read]; rfl, .inl ⟨rfl, by rw [read]⟩⟩
    · exact ⟨power, by rw [read], .inr scaled⟩
  rcases fraction_cases tail with ⟨read, -⟩ | ⟨point, digits, rest, rfl, pointed, read⟩
  · obtain ⟨power, same, scaled⟩ := back tail
    exact ⟨[], power, by rw [read]; exact same, .inl ⟨rfl, by rw [read]⟩, by rw [read]; exact scaled⟩
  · obtain ⟨power, same, scaled⟩ := back rest
    exact ⟨point, power, by rw [read]; exact congrArg (point ++ ·) same, .inr pointed,
      by rw [read]; exact scaled⟩

theorem IsFraction.ne_nil (isFraction : IsFraction s) : s ≠ [] := by
  obtain ⟨digits, rfl, -⟩ := isFraction
  exact List.cons_ne_nil _ _

theorem IsScale.ne_nil (isScale : IsScale s) : s ≠ [] := by
  obtain ⟨letter, sign, digits, rfl, -⟩ := isScale
  exact List.cons_ne_nil _ _

theorem isNumber_of_number (read : left (number s) = .ok rest) :
    ∃ t, IsNumber t ∧ s = t ++ rest := by
  obtain ⟨minus, negative, same⟩ := exists_minus s
  cases found : wholeDigits? (unsigned s).2 with
  | none =>
    rw [left_number_of_none found] at read
    cases read
  | some digits =>
    obtain ⟨whole, tail⟩ := digits
    obtain ⟨isWhole, behind, -⟩ := wholeDigits?_eq_some found
    obtain ⟨point, power, parts, pointed, scaled⟩ := exists_parts tail
    rw [left_number found] at read
    split at read
    · cases read
    next readable =>
      rw [Except.ok.inj read] at parts
      refine ⟨_, .intro negative isWhole (pointed.imp_left And.left) (scaled.imp_left And.left)
        fun pointless bare => ?_, by rw [same, behind, parts]; simp only [List.append_assoc]⟩
      obtain ⟨-, first⟩ := pointed.resolve_right fun point => point.ne_nil pointless
      obtain ⟨-, second⟩ := scaled.resolve_right fun power => power.ne_nil bare
      exact Nat.not_lt.mp fun long => readable ⟨first, second, long⟩

theorem overlong_of_number {cause : NumeralError} (failed : left (number s) = .error (.numeral cause)) :
    ∃ count, cause = .tooManyDigits count ∧ Overlong count s := by
  obtain ⟨minus, negative, same⟩ := exists_minus s
  cases found : wholeDigits? (unsigned s).2 with
  | none =>
    rw [left_number_of_none found] at failed
    cases failed
  | some digits =>
    obtain ⟨whole, tail⟩ := digits
    obtain ⟨isWhole, behind, stops⟩ := wholeDigits?_eq_some found
    rw [left_number found] at failed
    split at failed
    next refused =>
      obtain ⟨pointless, bare, long⟩ := refused
      cases failed
      refine ⟨whole.length, rfl, ?_⟩
      rw [same, behind]
      refine .intro negative isWhole long ?_
      -- all digits were taken, and then neither a fraction nor an exponent was found
      have several : whole ≠ ['0'] := by
        rintro rfl
        exact absurd long (by decide)
      rcases fraction_cases tail with ⟨read, noFraction⟩ | ⟨_, _, _, _, _, read⟩
      · rw [read] at bare
        rcases exponent_cases tail with ⟨_, noScale⟩ | ⟨_, _, _, _, _, found⟩
        · rintro more ⟨after, rfl⟩ (figures | isFraction | isScale)
          · obtain ⟨c, others, rfl⟩ := List.exists_cons_of_ne_nil figures.1
            have digit := figures.2 c List.mem_cons_self
            rw [stops several c rfl] at digit
            cases digit
          · exact noFraction more (List.prefix_append more after) isFraction
          · exact noScale more (List.prefix_append more after) isScale
        · rw [found] at bare
          cases bare
      · rw [read] at pointless
        cases pointless
    next => cases failed

/-! ### Every number is read -/

theorem fraction_of_absent (absent : ∀ front, front <+: s → ¬IsFraction front) :
    fraction s = (none, s) := by
  rcases fraction_cases s with ⟨read, -⟩ | ⟨front, _, rest, rfl, isFraction, -⟩
  · exact read
  · exact absurd isFraction (absent front (List.prefix_append front rest))

theorem exponent_of_absent (absent : ∀ front, front <+: s → ¬IsScale front) :
    exponent s = (none, s) := by
  rcases exponent_cases s with ⟨read, -⟩ | ⟨front, _, rest, rfl, isScale, -⟩
  · exact read
  · exact absurd isScale (absent front (List.prefix_append front rest))

theorem stops_power {power : Text} (scaled : power = [] ∨ IsScale power) (ends : Unextended rest) :
    (∀ c ∈ (power ++ rest).head?, c.isDigit = false) ∧
      ∀ front, front <+: power ++ rest → ¬IsFraction front := by
  rcases scaled with rfl | ⟨letter, sign, digits, rfl, kind, -⟩
  · exact ⟨ends.stops, fun front begins isFraction => ends front begins (.inr (.inl isFraction))⟩
  constructor
  · rintro c ⟨⟩
    rcases kind with rfl | rfl <;> rfl
  · rintro front ⟨after, same⟩ ⟨more, rfl, -⟩
    obtain ⟨rfl, -⟩ := List.cons.inj same
    rcases kind with same | same <;> cases same

theorem stops_point {point : Text} (pointed : point = [] ∨ IsFraction point)
    (stops : ∀ c ∈ rest.head?, c.isDigit = false) :
    ∀ c ∈ (point ++ rest).head?, c.isDigit = false := by
  rcases pointed with rfl | ⟨digits, rfl, -⟩
  · exact stops
  · rintro c ⟨⟩
    rfl

theorem parts_append {point power : Text} (pointed : point = [] ∨ IsFraction point)
    (scaled : power = [] ∨ IsScale power) (ends : Unextended rest) :
    ∃ first second, fraction (point ++ (power ++ rest)) = (first, power ++ rest) ∧
      exponent (power ++ rest) = (second, rest) ∧ (first = none ↔ point = []) ∧
      (second = none ↔ power = []) := by
  obtain ⟨stops, pointless⟩ := stops_power scaled ends
  have front : ∃ first, fraction (point ++ (power ++ rest)) = (first, power ++ rest) ∧
      (first = none ↔ point = []) := by
    rcases pointed with rfl | pointed
    · exact ⟨none, fraction_of_absent pointless, by simp⟩
    · obtain ⟨digits, read⟩ := fraction_append pointed stops
      exact ⟨some digits, read, by simp [pointed.ne_nil]⟩
  have back : ∃ second, exponent (power ++ rest) = (second, rest) ∧
      (second = none ↔ power = []) := by
    rcases scaled with rfl | scaled
    · exact ⟨none, exponent_of_absent fun front begins isScale =>
        ends front begins (.inr (.inr isScale)), by simp⟩
    · obtain ⟨value, read⟩ := exponent_append scaled ends.stops
      exact ⟨some value, read, by simp [scaled.ne_nil]⟩
  obtain ⟨first, readFirst, without⟩ := front
  obtain ⟨second, readSecond, bare⟩ := back
  exact ⟨first, second, readFirst, readSecond, without, bare⟩

/-- What is read of a number with given parts. -/
theorem number_parts {minus whole point power : Text} (negative : minus = [] ∨ minus = ['-'])
    (digits : IsWhole whole) (pointed : point = [] ∨ IsFraction point)
    (scaled : power = [] ∨ IsScale power) (ends : Unextended rest) :
    left (number (minus ++ (whole ++ (point ++ (power ++ rest))))) =
      if point = [] ∧ power = [] ∧ Numeral.digitLimit < whole.length then
        .error (.numeral (.tooManyDigits whole.length))
      else .ok rest := by
  obtain ⟨first, second, readFirst, readSecond, without, bare⟩ := parts_append pointed scaled ends
  have stops := stops_point pointed (stops_power scaled ends).1
  have found : wholeDigits? (unsigned (minus ++ (whole ++ (point ++ (power ++ rest))))).2 =
      some (whole, point ++ (power ++ rest)) := by
    rw [unsigned_append negative digits, wholeDigits?_append digits stops]
  rw [left_number found, readFirst]
  dsimp only
  rw [readSecond]
  simp only [without, bare]

theorem number_append (isNumber : IsNumber s) (ends : Unextended rest) :
    left (number (s ++ rest)) = .ok rest := by
  obtain ⟨negative, digits, pointed, scaled, short⟩ := isNumber
  simp only [List.append_assoc]
  rw [number_parts negative digits pointed scaled ends, if_neg]
  rintro ⟨pointless, bare, long⟩
  exact absurd (short pointless bare) (Nat.not_le.mpr long)

theorem number_overlong {count : Nat} (overlong : Overlong count s) :
    left (number s) = .error (.numeral (.tooManyDigits count)) := by
  obtain ⟨negative, digits, long, ends⟩ := overlong
  have read := number_parts negative digits (.inl rfl) (.inl rfl) ends
  rwa [if_pos ⟨rfl, rfl, long⟩] at read

end CHeader.JsonValue
