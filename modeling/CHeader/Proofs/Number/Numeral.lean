import CHeader.Number.Numeral
import CHeader.Proofs.Text.Word
import Mathlib.Data.List.TakeWhile

/-!
# The grammar of numerals

A numeral is an optional sign, digits with an optional point among, before or after them, and an
optional exponent. The reader accepts exactly these texts, and it reads an integer in decimal as
that integer.
-/
namespace CHeader.Numeral

open Text

/-! ## Grammar -/

/-- A sign, or none. -/
def IsSign (s : Text) : Prop := s = [] ∨ s = ['-'] ∨ s = ['+']

def Digits (s : Text) : Prop := ∀ c ∈ s, isDigit c = true

instance : DecidablePred Digits := fun s =>
  inferInstanceAs (Decidable (∀ c ∈ s, isDigit c = true))

inductive IsMantissa : Text → Prop where
  | whole {digits : Text} (filled : digits ≠ []) (all : Digits digits) : IsMantissa digits
  /-- The point has a digit before or after it. -/
  | pointed {before after : Text} (filled : before ≠ [] ∨ after ≠ []) (left : Digits before)
      (right : Digits after) : IsMantissa (before ++ '.' :: after)

inductive IsExponent : Text → Prop where
  | absent : IsExponent []
  | mark {c : Char} {sign digits : Text} (letter : c = 'e' ∨ c = 'E') (signed : IsSign sign)
      (filled : digits ≠ []) (all : Digits digits) : IsExponent (c :: (sign ++ digits))

def IsNumeral (s : Text) : Prop :=
  ∃ sign mantissa exponent, s = sign ++ (mantissa ++ exponent) ∧ IsSign sign ∧
    IsMantissa mantissa ∧ IsExponent exponent

/-! ## What is read is a numeral -/

theorem sign_append (s : Text) : ∃ mark, IsSign mark ∧ s = mark ++ (sign s).2 := by
  unfold sign
  split
  · exact ⟨['-'], Or.inr (Or.inl rfl), rfl⟩
  · exact ⟨['+'], Or.inr (Or.inr rfl), rfl⟩
  · exact ⟨[], Or.inl rfl, rfl⟩

theorem isExponent_of_exponent? {s : Text} {exponent : Bool × Text}
    (found : exponent? s = some exponent) : IsExponent s := by
  cases s with
  | nil => cases found
  | cons c rest =>
    obtain ⟨mark, signed, whole⟩ := sign_append rest
    simp only [exponent?, Option.ite_none_right_eq_some] at found
    obtain ⟨⟨letter, filled, all⟩, -⟩ := found
    rw [whole]
    exact .mark letter signed filled (List.all_eq_true.mp all)

theorem digits_takeWhile (s : Text) : Digits (s.takeWhile isDigit) :=
  fun _ member => List.mem_takeWhile_imp member

/-- The digits after a point, if there is a point, and what follows. -/
def fractionPart (s : Text) : Option Text × Text :=
  match s with
  | '.' :: after => (some (after.takeWhile isDigit), after.dropWhile isDigit)
  | _ => (none, s)

theorem parse?_eq (s : Text) :
    parse? s =
      let whole := (sign s).2.takeWhile isDigit
      let part := fractionPart ((sign s).2.dropWhile isDigit)
      if whole = [] ∧ part.1.getD [] = [] then none
      else if part.2 = [] then some ⟨(sign s).1, whole, part.1, none⟩
      else (exponent? part.2).map fun exponent => ⟨(sign s).1, whole, part.1, some exponent⟩ :=
  rfl

theorem isMantissa_of_digits {s : Text} (some_digit : ¬(s.takeWhile isDigit = [] ∧
    (fractionPart (s.dropWhile isDigit)).1.getD [] = [])) :
    ∃ mantissa, IsMantissa mantissa ∧ s = mantissa ++ (fractionPart (s.dropWhile isDigit)).2 := by
  have left := digits_takeWhile s
  have whole := List.takeWhile_append_dropWhile (p := isDigit) (l := s)
  unfold fractionPart at some_digit ⊢
  split at some_digit
  next after rest =>
    rw [rest] at whole
    -- a point may stand without digits on one side, but not on both
    refine ⟨_, .pointed ?_ left (digits_takeWhile after), ?_⟩
    · exact Decidable.not_and_iff_not_or_not.mp some_digit
    · dsimp only
      rw [List.append_assoc, List.cons_append, List.takeWhile_append_dropWhile, whole]
  next =>
    exact ⟨_, .whole (fun empty => some_digit ⟨empty, rfl⟩) left, whole.symm⟩

theorem isNumeral_of_parse? {s : Text} {numeral : Numeral} (found : parse? s = some numeral) :
    IsNumeral s := by
  obtain ⟨mark, signed, whole⟩ := sign_append s
  rw [parse?_eq] at found
  dsimp only at found
  split at found
  · cases found
  next some_digit =>
    obtain ⟨mantissa, isMantissa, rest⟩ := isMantissa_of_digits some_digit
    split at found
    next ends =>
      -- nothing follows the mantissa
      refine ⟨mark, mantissa, [], ?_, signed, isMantissa, .absent⟩
      rw [ends] at rest
      rw [whole, rest]
    next =>
      obtain ⟨exponent, read, -⟩ := Option.map_eq_some_iff.mp found
      refine ⟨mark, mantissa, _, ?_, signed, isMantissa, isExponent_of_exponent? read⟩
      rw [← rest, ← whole]

/-! ## Every numeral is read -/

theorem sign_unsigned {s : Text} (unsigned : ∀ c ∈ s.head?, c ≠ '-' ∧ c ≠ '+') :
    sign s = (false, s) := by
  unfold sign
  split
  · exact absurd rfl (unsigned _ rfl).1
  · exact absurd rfl (unsigned _ rfl).2
  · rfl

theorem IsSign.sign_append {mark : Text} (signed : IsSign mark) {rest : Text}
    (unsigned : ∀ c ∈ rest.head?, c ≠ '-' ∧ c ≠ '+') : (sign (mark ++ rest)).2 = rest := by
  rcases signed with rfl | rfl | rfl
  · rw [List.nil_append, sign_unsigned unsigned]
  · rfl
  · rfl

theorem IsExponent.stops {exponent : Text} (isExponent : IsExponent exponent) :
    ∀ c ∈ exponent.head?, isDigit c = false ∧ c ≠ '.' := by
  intro c first
  cases isExponent with
  | absent => cases first
  | mark letter =>
    cases Option.some.inj (Option.mem_def.mp first)
    rcases letter with rfl | rfl <;> decide

/-- Digits stand before no sign, whatever follows them. -/
theorem Digits.unsigned {digits : Text} (all : Digits digits) (filled : digits ≠ []) (rest : Text) :
    ∀ c ∈ (digits ++ rest).head?, c ≠ '-' ∧ c ≠ '+' := by
  intro c first
  cases digits with
  | nil => exact absurd rfl filled
  | cons d digits =>
    cases Option.some.inj (Option.mem_def.mp first)
    have digit := all c List.mem_cons_self
    constructor <;> rintro rfl <;> revert digit <;> decide

theorem IsExponent.read {exponent : Text} (isExponent : IsExponent exponent)
    (filled : exponent ≠ []) : (exponent? exponent).isSome := by
  cases isExponent with
  | absent => exact absurd rfl filled
  | mark letter signed some_digit all =>
    have unsigned := all.unsigned some_digit []
    rw [List.append_nil] at unsigned
    simp [exponent?, signed.sign_append unsigned, letter, some_digit, List.all_eq_true.mpr all]

/-- The digits of a mantissa end where its exponent begins. -/
theorem IsMantissa.read {mantissa exponent : Text} (isMantissa : IsMantissa mantissa)
    (stops : ∀ c ∈ exponent.head?, isDigit c = false ∧ c ≠ '.') :
    ¬((mantissa ++ exponent).takeWhile isDigit = [] ∧
      (fractionPart ((mantissa ++ exponent).dropWhile isDigit)).1.getD [] = []) ∧
    (fractionPart ((mantissa ++ exponent).dropWhile isDigit)).2 = exponent := by
  have ends : ∀ c ∈ exponent.head?, isDigit c = false := fun c first => (stops c first).1
  cases isMantissa with
  | whole filled all =>
    have run := takeWhile_append_stop all ends
    rw [run.1, run.2]
    refine ⟨fun empty => filled empty.1, ?_⟩
    unfold fractionPart
    split
    · exact absurd rfl (stops _ rfl).2
    · rfl
  | @pointed before after filled left right =>
    -- the point ends the first digits, and the exponent the ones after it
    have point : ∀ c ∈ ('.' :: (after ++ exponent)).head?, isDigit c = false := by
      intro c first
      cases Option.some.inj (Option.mem_def.mp first)
      decide
    have first := takeWhile_append_stop left point
    have second := takeWhile_append_stop right ends
    rw [List.append_assoc, List.cons_append, first.1, first.2, fractionPart, second.1, second.2]
    exact ⟨Decidable.not_and_iff_not_or_not.mpr filled, rfl⟩

theorem IsMantissa.unsigned {mantissa : Text} (isMantissa : IsMantissa mantissa) (rest : Text) :
    ∀ c ∈ (mantissa ++ rest).head?, c ≠ '-' ∧ c ≠ '+' := by
  cases isMantissa with
  | whole filled all => exact all.unsigned filled rest
  | @pointed before after _ left =>
    by_cases bare : before = []
    · -- the mantissa begins with its point
      subst bare
      intro c first
      cases Option.some.inj (Option.mem_def.mp first)
      decide
    · rw [List.append_assoc]
      exact left.unsigned bare _

theorem parse?_isSome_iff {s : Text} : (parse? s).isSome ↔ IsNumeral s := by
  constructor
  · intro read
    obtain ⟨numeral, found⟩ := Option.isSome_iff_exists.mp read
    exact isNumeral_of_parse? found
  · rintro ⟨mark, mantissa, exponent, rfl, signed, isMantissa, isExponent⟩
    obtain ⟨some_digit, rest⟩ := isMantissa.read isExponent.stops
    rw [parse?_eq]
    dsimp only
    rw [signed.sign_append (isMantissa.unsigned exponent), if_neg some_digit, rest]
    split
    · rfl
    next filled => simpa using isExponent.read filled

instance : DecidablePred IsNumeral := fun _ => decidable_of_iff _ parse?_isSome_iff

/-! ## Integers in decimal -/

def decimal (value : Int) : Text :=
  if value < 0 then '-' :: Nat.toDigits 10 value.natAbs else Nat.toDigits 10 value.natAbs

theorem digitValue?_ascii {c : Char} (digit : c.isDigit = true) :
    digitValue? c = some (c.toNat - '0'.toNat) := by
  have ascii : c.toNat < 128 := by
    have bounds := Char.isDigit_iff_toNat.mp digit
    exact Nat.lt_of_le_of_lt bounds.2 (by decide)
  rw [digitValue?, if_pos ascii, if_pos digit]

theorem digits_toDigits (n : Nat) : Digits (Nat.toDigits 10 n) := by
  intro c member
  rw [isDigit, digitValue?_ascii (Nat.isDigit_of_mem_toDigits (by decide) (by decide) member)]
  rfl

theorem digitsValue_toDigits (n : Nat) : digitsValue (Nat.toDigits 10 n) = n := by
  -- on the digits of ASCII both folds take the same step
  have same (digits : Text) (ascii : ∀ c ∈ digits, c.isDigit = true) (start : Nat) :
      digits.foldl (fun value c => 10 * value + (digitValue? c).getD 0) start =
        Nat.ofDigitChars 10 digits start := by
    induction digits generalizing start with
    | nil => rfl
    | cons c digits ih =>
      obtain ⟨here, others⟩ := List.forall_mem_cons.mp ascii
      rw [List.foldl_cons, digitValue?_ascii here, ih others]
      rfl
  rw [digitsValue, same _ fun c => Nat.isDigit_of_mem_toDigits (by decide) (by decide)]
  exact Nat.ofDigitChars_toDigits (by decide) (by decide)

/-- The numeral that an integer in decimal is. -/
def ofInt (value : Int) : Numeral :=
  ⟨decide (value < 0), Nat.toDigits 10 value.natAbs, none, none⟩

theorem parse?_decimal (value : Int) : parse? (decimal value) = some (ofInt value) := by
  have digits := digits_toDigits value.natAbs
  have signed : sign (decimal value) = (decide (value < 0), Nat.toDigits 10 value.natAbs) := by
    have unsigned := digits.unsigned Nat.toDigits_ne_nil []
    rw [List.append_nil] at unsigned
    rw [decimal]
    split
    next negative => simp [sign, negative]
    next positive => simp [sign_unsigned unsigned, positive]
  have run := takeWhile_append_stop (t := []) digits (by simp)
  rw [List.append_nil] at run
  rw [parse?_eq, signed]
  dsimp only
  rw [run.1, run.2]
  simp [fractionPart, Nat.toDigits_ne_nil, ofInt]

theorem integer_ofInt {value : Int} (short : (Nat.toDigits 10 value.natAbs).length ≤ digitLimit) :
    (ofInt value).integer = .ok value := by
  have magnitude : signed (decide (value < 0)) value.natAbs = value := by
    rw [signed]
    split
    next negative =>
      rw [decide_eq_true_eq] at negative
      omega
    next positive =>
      rw [decide_eq_true_eq] at positive
      omega
  simp only [integer, ofInt, if_neg (Nat.not_lt.mpr short), digitsValue_toDigits, magnitude]

end CHeader.Numeral
