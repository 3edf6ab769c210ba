import CHeader.Json.Parse
import Mathlib.Data.List.Basic

/-!
# Strings are read as they were written

Every character is written as itself or as an escape, and reading takes one or the other off the front
of the text: an escape of one letter, a unit of four hexadecimal digits, or a pair of units for a
character beyond the first plane.
-/
namespace CHeader.JsonValue

open Text

variable {c : Char} {rest : Text}

/-! ## Units -/

theorem hexDigit?_digitChar : ∀ digit < 16, hexDigit? (Nat.digitChar digit) = some digit := by decide

theorem hex_four {n : Nat} (bound : n < 0x10000) :
    hex 4 n = [(n / 4096).digitChar, (n / 256 % 16).digitChar, (n / 16 % 16).digitChar,
      (n % 16).digitChar] := by
  have last (m : Nat) (small : m < 16) : Nat.toDigits 16 m = [m.digitChar] :=
    Nat.toDigits_of_lt_base small
  have more (m : Nat) (large : 16 ≤ m) :
      Nat.toDigits 16 m = Nat.toDigits 16 (m / 16) ++ [(m % 16).digitChar] :=
    Nat.toDigits_of_base_le (by decide) large
  have second : n / 16 / 16 = n / 256 := Nat.div_div_eq_div_mul n 16 16
  have third : n / 256 / 16 = n / 4096 := Nat.div_div_eq_div_mul n 256 16
  unfold hex
  -- shorter numbers are filled up with zeros
  rcases Nat.lt_or_ge n 16 with one | two
  · rw [last n one, Nat.div_eq_of_lt (by omega : n < 4096), Nat.div_eq_of_lt (by omega : n < 256),
      Nat.div_eq_of_lt one, Nat.mod_eq_of_lt one]
    rfl
  rw [more n two]
  rcases Nat.lt_or_ge (n / 16) 16 with two | three
  · rw [last _ two, Nat.div_eq_of_lt (by omega : n < 4096), Nat.div_eq_of_lt (by omega : n < 256),
      Nat.mod_eq_of_lt two]
    rfl
  rw [more _ three, second]
  rcases Nat.lt_or_ge (n / 256) 16 with three | four
  · rw [last _ three, Nat.div_eq_of_lt (by omega : n < 4096), Nat.mod_eq_of_lt three]
    rfl
  rw [more _ four, third, last _ (by omega : n / 4096 < 16)]
  rfl

theorem unit?_hex {n : Nat} (bound : n < 0x10000) (rest : Text) :
    unit? (hex 4 n ++ rest) = some (n, rest) := by
  rw [hex_four bound]
  simp only [List.cons_append, List.nil_append, unit?, Option.bind_eq_bind]
  rw [hexDigit?_digitChar _ (by omega), hexDigit?_digitChar _ (by omega),
    hexDigit?_digitChar _ (by omega), hexDigit?_digitChar _ (by omega)]
  simp only [Option.bind_some, Option.pure_def, Option.some.injEq, Prod.mk.injEq, and_true]
  omega

theorem length_hex {n : Nat} (bound : n < 0x10000) : (hex 4 n).length = 4 := by
  rw [hex_four bound]
  rfl

/-- A character is no half of a pair. -/
theorem toNat_cases (c : Char) : c.toNat < 0xD800 ∨ 0xDFFF < c.toNat ∧ c.toNat < 0x110000 := c.valid

theorem charOfUnit_toNat (c : Char) : charOfUnit c.toNat = c := by
  have whole := toNat_cases c
  have high : isHighUnit c.toNat = false := by
    simp only [isHighUnit, Bool.and_eq_false_iff, decide_eq_false_iff_not]
    omega
  have low : isLowUnit c.toNat = false := by
    simp only [isLowUnit, Bool.and_eq_false_iff, decide_eq_false_iff_not]
    omega
  rw [charOfUnit, high, low]
  exact Char.ofNat_toNat c

theorem unicodeEscape?_unit (small : c.toNat < 0x10000) (more : rest ≠ []) :
    unicodeEscape? (hex 4 c.toNat ++ rest) = .ok (c, rest) := by
  have filled := List.length_pos_iff.mpr more
  have enough : ¬(hex 4 c.toNat ++ rest).length < 5 := by
    rw [List.length_append, length_hex small]
    omega
  have whole := toNat_cases c
  have high : isHighUnit c.toNat = false := by
    simp only [isHighUnit, Bool.and_eq_false_iff, decide_eq_false_iff_not]
    omega
  rw [unicodeEscape?, if_neg enough, unit?_hex small]
  simp only [high, Bool.false_and, charOfUnit_toNat]

theorem unicodeEscape?_pair (large : 0x10000 ≤ c.toNat) (more : rest ≠ []) :
    unicodeEscape? (hex 4 (0xD800 + (c.toNat - 0x10000) / 0x400) ++
      unicodeEscape (0xDC00 + (c.toNat - 0x10000) % 0x400) ++ rest) = .ok (c, rest) := by
  have filled := List.length_pos_iff.mpr more
  have whole := toNat_cases c
  obtain ⟨high, highEq⟩ : ∃ high, high = 0xD800 + (c.toNat - 0x10000) / 0x400 := ⟨_, rfl⟩
  obtain ⟨low, lowEq⟩ : ∃ low, low = 0xDC00 + (c.toNat - 0x10000) % 0x400 := ⟨_, rfl⟩
  rw [← highEq, ← lowEq, unicodeEscape]
  have highSmall : high < 0x10000 := by omega
  have lowSmall : low < 0x10000 := by omega
  have isHigh : isHighUnit high = true := by
    simp only [isHighUnit, Bool.and_eq_true, decide_eq_true_eq]
    omega
  have isLow : isLowUnit low = true := by
    simp only [isLowUnit, Bool.and_eq_true, decide_eq_true_eq]
    omega
  have joined : joinUnits high low = c.toNat := by
    unfold joinUnits
    omega
  have later : (hex 4 low ++ rest).length = 4 + rest.length := by
    rw [List.length_append, length_hex lowSmall]
  have enough : ¬(hex 4 high ++ '\\' :: 'u' :: (hex 4 low ++ rest)).length < 5 := by
    simp only [List.length_append, List.length_cons, length_hex highSmall]
    omega
  -- a second unit is looked for only where seven more characters are left
  have paired : (isHighUnit high &&
      decide (7 ≤ ('\\' :: 'u' :: (hex 4 low ++ rest)).length)) = true := by
    simp only [isHigh, List.length_cons, later, Bool.true_and, decide_eq_true_eq]
    omega
  rw [List.append_assoc]
  simp only [List.cons_append]
  rw [unicodeEscape?, if_neg enough, unit?_hex highSmall]
  simp only [paired, unit?_hex lowSmall, isLow, ↓reduceIte, joined, Char.ofNat_toNat]

/-! ## Characters -/

variable {escapes : JsonEscapes} {opened fuel : Nat}

/-- Reading goes on behind a character. -/
def andThen (c : Char) (later : Step Text) : Step Text := later.map fun (s, rest) => (c :: s, rest)

theorem stringRest_letter {letter : Char} (escape : simpleEscape? letter = some c) :
    stringRest opened (fuel + 1) ('\\' :: letter :: rest) =
      andThen c (stringRest opened fuel rest) := by
  -- the letter u has no meaning of its own
  have noUnit : letter ≠ 'u' := by
    rintro rfl
    cases escape
  conv_lhs => unfold stringRest
  split
  next same => cases same
  next same => simp at same
  next same => simp at same
  next same =>
    simp only [List.cons.injEq, true_and] at same
    exact absurd same.1 noUnit
  next same =>
    simp only [List.cons.injEq, true_and] at same
    obtain ⟨rfl, rfl⟩ := same
    simp only [escape]
    rfl
  next _ _ _ other same =>
    simp only [List.cons.injEq] at same
    exact absurd same.2.symm (other letter rest same.1.symm)

theorem stringRest_unit {digits : Text} (escape : unicodeEscape? digits = .ok (c, rest)) :
    stringRest opened (fuel + 1) ('\\' :: 'u' :: digits) =
      andThen c (stringRest opened fuel rest) := by
  rw [stringRest]
  simp only [escape]
  rfl

theorem stringRest_plain (noMark : c ≠ '"') (noBackslash : c ≠ '\\') (visible : ¬c.toNat < 32) :
    stringRest opened (fuel + 1) (c :: rest) = andThen c (stringRest opened fuel rest) := by
  conv_lhs => unfold stringRest
  split
  next same => cases same
  next same => exact absurd (List.cons.inj same).1 noMark
  next same => exact absurd (List.cons.inj same).1 noBackslash
  next same => exact absurd (List.cons.inj same).1 noBackslash
  next same => exact absurd (List.cons.inj same).1 noBackslash
  next same =>
    obtain ⟨rfl, rfl⟩ := List.cons.inj same
    rw [if_neg visible]
    rfl

theorem stringRest_unitEscapes (more : rest ≠ []) :
    stringRest opened (fuel + 1) (unitEscapes c ++ rest) =
      andThen c (stringRest opened fuel rest) := by
  unfold unitEscapes
  split
  next small =>
    rw [unicodeEscape, List.cons_append, List.cons_append]
    exact stringRest_unit (unicodeEscape?_unit small more)
  next large =>
    have read := unicodeEscape?_pair (Nat.not_lt.mp large) more
    rw [unicodeEscape, List.cons_append, List.cons_append, List.cons_append, List.cons_append]
    exact stringRest_unit read

/-- The ways in which a character is written. -/
inductive Escaped (escapes : JsonEscapes) (c : Char) : Text → Prop
  | letter {letter : Char} (escape : simpleEscape? letter = some c) :
      Escaped escapes c ['\\', letter]
  | units : Escaped escapes c (unitEscapes c)
  | plain (noMark : c ≠ '"') (noBackslash : c ≠ '\\') (visible : 32 ≤ c.toNat)
      (ascii : escapes = .ascii → c.toNat < 127) : Escaped escapes c [c]

theorem escaped_escapeChar (escapes : JsonEscapes) (c : Char) :
    Escaped escapes c (escapeChar escapes c) := by
  unfold escapeChar
  split
  next same => subst same; exact .letter rfl
  rename_i noMark
  split
  next same => subst same; exact .letter rfl
  rename_i noBackslash
  -- the five control characters that have a letter
  iterate 5
    split
    next same => subst same; exact .letter rfl
  split
  next => exact .units
  next plain =>
    rw [not_or, Nat.not_lt, not_and, Nat.not_le] at plain
    exact .plain noMark noBackslash plain.1 plain.2

/-- A written character is read back, whichever way it is written. -/
theorem Escaped.stringRest {written : Text} (escaped : Escaped escapes c written)
    (more : rest ≠ []) :
    JsonValue.stringRest opened (fuel + 1) (written ++ rest) =
      andThen c (JsonValue.stringRest opened fuel rest) := by
  cases escaped with
  | letter escape => exact stringRest_letter escape
  | units => exact stringRest_unitEscapes more
  | plain noMark noBackslash visible =>
    exact stringRest_plain noMark noBackslash (Nat.not_lt.mpr visible)

theorem Escaped.ne_nil {written : Text} (escaped : Escaped escapes c written) : written ≠ [] := by
  cases escaped with
  | letter => exact List.cons_ne_nil _ _
  | units =>
    -- one unit or two, each behind a backslash
    unfold unitEscapes
    split
    · exact List.cons_ne_nil _ _
    · exact List.append_ne_nil_of_left_ne_nil (List.cons_ne_nil _ _) _
  | plain => exact List.cons_ne_nil _ _

/-! ## Strings -/

theorem stringRest_written (s : Text) (enough : s.length < fuel) :
    stringRest opened fuel (s.flatMap (escapeChar escapes) ++ '"' :: rest) = .ok (s, rest) := by
  induction s generalizing fuel with
  | nil =>
    obtain ⟨fuel, rfl⟩ : ∃ less, fuel = less + 1 := ⟨fuel - 1, by simp at enough; omega⟩
    rw [List.flatMap_nil, List.nil_append, stringRest]
  | cons c s ih =>
    rw [List.length_cons] at enough
    obtain ⟨fuel, rfl⟩ : ∃ less, fuel = less + 1 := ⟨fuel - 1, by omega⟩
    rw [List.flatMap_cons, List.append_assoc, (escaped_escapeChar escapes c).stringRest (by simp),
      ih (by omega)]
    simp only [andThen, Except.map]

theorem length_le_written (escapes : JsonEscapes) (s : Text) :
    s.length ≤ (s.flatMap (escapeChar escapes)).length := by
  induction s with
  | nil => simp
  | cons c s ih =>
    have some := List.length_pos_iff.mpr (escaped_escapeChar escapes c).ne_nil
    rw [List.flatMap_cons, List.length_append, List.length_cons]
    omega

/-- A written string is read back from behind its opening quotation mark. -/
theorem stringAfterQuote_written (s : Text) :
    stringAfterQuote (s.flatMap (escapeChar escapes) ++ '"' :: rest) = .ok (s, rest) := by
  have short := length_le_written escapes s
  refine stringRest_written s ?_
  rw [List.length_append]
  omega

end CHeader.JsonValue
