import CHeader.Proofs.Constant.Merge
import CHeader.Proofs.Extraction

/-!
# Expressions that are kept

A definition is checked after its comments have been removed, and again when its value is worked out.
The first time leaves none, so that the value is worked out from the text that was checked: an
expression that is kept is not empty, is not the name itself, and is not a numeral or a quoted text
that was overlooked.
-/
namespace CHeader.Constant

open Text

variable {text name value source : Text}

/-! ## What is checked -/

theorem blank?_suffix {s rest : Text} (found : blank? s = some rest) : rest <:+ s := by
  cases s with
  | nil => cases found
  | cons c s =>
    rw [blank?, Option.ite_none_right_eq_some, Option.some.injEq] at found
    rw [← found.2]
    exact (List.dropWhile_suffix isSpace).trans (List.suffix_cons c s)

theorem definition?_suffix {line : Text} (found : definition? line = some (name, value)) :
    value <:+ line := by
  simp only [definition?, Option.bind_eq_bind, Option.bind_eq_some_iff] at found
  obtain ⟨signed, sign, keyed, keyword, spaced, space, ⟨word, rest⟩, named, after, gap, last⟩ := found
  split at last
  · cases last
  · cases last
    -- every part of the directive that is read leaves an end of what was left before it
    rw [dropLeading?_eq_some.mp sign]
    have worded : rest <:+ spaced := ⟨word, (word?_append named).1⟩
    have defined : keyed <:+ trimStart signed :=
      ⟨"define".toList, (dropLeading?_eq_some.mp keyword).symm⟩
    calc value <:+ rest := blank?_suffix gap
      _ <:+ spaced := worded
      _ <:+ keyed := blank?_suffix space
      _ <:+ trimStart signed := defined
      _ <:+ signed := List.dropWhile_suffix isSpace
      _ <:+ ['#'] ++ signed := List.suffix_append _ _

/-- The value of a definition stands in one line, as the definition does. -/
theorem oneLine_definition (member : (name, value) ∈ definitions text) :
    ∀ c ∈ value, isLineBreak c = false := by
  obtain ⟨line, listed, written, defined, rfl, -⟩ := mem_definitions_iff.mp member
  intro c inside
  rcases mem_stripComments ((infix_trim _).subset inside) with rfl | kept
  · decide
  · have onLine := (infix_trim line).subset ((definition?_suffix defined).subset kept)
    exact (chars_of_mem_lines listed c onLine).2

/-! ## What is kept -/

theorem quoted?_eq_none_iff {s : Text} (oneLine : ∀ c ∈ s, isLineBreak c = false) :
    quoted? s = none ↔ ∀ inner, s ≠ '"' :: (inner ++ ['"']) := by
  constructor
  · rintro unquoted inner rfl
    have inside : '\n' ∉ inner := fun member => by
      have ends := oneLine '\n' (by simp [member])
      cases ends
    rw [quoted?_of_oneLine inside] at unquoted
    cases unquoted
  · intro differ
    rw [Option.eq_none_iff_forall_ne_some]
    exact fun inner found => differ inner (quoted?_eq_some found)

theorem parse_eq_expression_iff {s : Text} :
    parse s = .ok (.expression source) ↔ source = trim (stripComments s) ∧
      Numeral.parse? source = none ∧ quoted? source = none := by
  unfold parse
  generalize trim (stripComments s) = value
  dsimp only
  split
  next numeral found =>
    constructor
    · intro parsed
      split at parsed
      · cases parsed
      · cases worked : numeral.integer <;> rw [worked] at parsed <;> cases parsed
    · rintro ⟨rfl, unread, -⟩
      rw [found] at unread
      cases unread
  next unread =>
    split
    next inner found =>
      constructor
      · intro parsed
        cases parsed
      · rintro ⟨rfl, -, unquoted⟩
        rw [found] at unquoted
        cases unquoted
    next unquoted =>
      constructor
      · intro parsed
        cases parsed
        exact ⟨rfl, unread, unquoted⟩
      · rintro ⟨rfl, -⟩
        rfl

/-- What the value of a definition is kept for: it is not read in another way. -/
theorem parse_definition_eq_expression_iff (member : (name, value) ∈ definitions text) :
    parse value = .ok (.expression source) ↔ source = value ∧ ¬Numeral.IsNumeral value ∧
      ∀ inner, value ≠ '"' :: (inner ++ ['"']) := by
  rw [parse_eq_expression_iff, value_of_definition member]
  refine and_congr_right fun same => ?_
  rw [same, ← Numeral.parse?_isSome_iff, Option.not_isSome_iff_eq_none,
    quoted?_eq_none_iff (oneLine_definition member)]

/-- An expression under a name: a trimmed text without comments that is not the name, and that cannot
be read as a number or as a string. -/
structure IsKept (name source : Text) : Prop where
  filled : source ≠ []
  trimmed : trim source = source
  uncommented : ¬HasComment source
  proper : source ≠ name
  notNumeral : ¬Numeral.IsNumeral source
  notQuoted : ∀ inner, source ≠ '"' :: (inner ++ ['"'])

/-- Removing the comments a second time changes no text that was checked, and that text is what is worked
out: it is kept as it is unless it is a numeral or quoted. So every expression in a table is a text that
was checked, and it is one that is kept. -/
theorem extract_expression {table : ConstantTable} (read : extract text = .ok table) :
    (∀ name value, (name, value) ∈ definitions text →
      stripComments value = value ∧ trim value = value ∧
        ∀ source, parse value = .ok (.expression source) ↔ source = value ∧
          ¬Numeral.IsNumeral value ∧ ∀ inner, value ≠ '"' :: (inner ++ ['"'])) ∧
    ∀ name source, (name, .expression source) ∈ table →
      (name, source) ∈ definitions text ∧ IsKept name source := by
  constructor
  · intro name value defined
    exact ⟨stripComments_eq_self (not_hasComment_definition defined), trim_definition defined,
      fun source => parse_definition_eq_expression_iff defined⟩
  · intro name source member
    -- later definitions may have replaced the value, so the entry is traced back to its own one
    obtain ⟨entries, reads, rfl⟩ := extract_eq_ok_iff.mp read
    obtain ⟨value, defined, parsed⟩ := reads.exists_definition (Table.mem_of_mem_ofList member)
    obtain ⟨rfl, notNumeral, notQuoted⟩ := (parse_definition_eq_expression_iff defined).mp parsed
    obtain ⟨-, -, -, -, -, -, filled, proper⟩ := mem_definitions_iff.mp defined
    exact ⟨defined, filled, trim_definition defined, not_hasComment_definition defined, proper,
      notNumeral, notQuoted⟩

/-- Signs that would make a comment if nothing were left for the one between them, and a block that is
not closed. -/
theorem extract_expression_markers :
    let text := "#define A A // A\n#define B / /*/**/ * 1 // 2\n#define C /* 3".toList
    let table := [("B".toList, .expression "/   * 1".toList), ("C".toList, .expression "/* 3".toList)]
    extract text = .ok table ∧ IsKept "B".toList "/   * 1".toList := by
  intro text table
  have read : extract text = .ok table := by
    change extract "#define A A // A\n#define B / /*/**/ * 1 // 2\n#define C /* 3".toList = _
    decide +kernel
  exact ⟨read, ((extract_expression read).2 _ _ List.mem_cons_self).2⟩

end CHeader.Constant
