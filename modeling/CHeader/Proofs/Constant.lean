import CHeader.Constant
import CHeader.Proofs.Number.Numeral
import CHeader.Proofs.Table
import CHeader.Proofs.Text.Comment

/-!
# Written constants

A constant is written on a line of its own, as the definition of a name: an integer in decimal, a
string in quotes, or an expression. Extraction from a text of written constants gives the table of
what they stand for: no line is joined to the next one, nothing in a value is taken for a comment,
and no value is taken for another kind of value.
-/
namespace CHeader.Constant

open Text

/-! ## Values -/

/-- A string between quotes, on one line. -/
structure Quoted where
  text : Text
  oneLine : ∀ c ∈ text, isLineBreak c = false
  uncommented : ¬HasComment ('"' :: (text ++ ['"']))

/-- An expression that is neither a numeral nor quoted. -/
structure Expression where
  source : Text
  filled : source ≠ []
  trimmed : trim source = source
  oneLine : ∀ c ∈ source, isLineBreak c = false
  uncommented : ¬HasComment source
  /-- A backslash at the end would join the next line. -/
  whole : source.getLast? ≠ some '\\'
  notNumeral : ¬Numeral.IsNumeral source
  notQuoted : ∀ inner, source ≠ '"' :: (inner ++ ['"'])

/-- A value as it is written. -/
inductive Value where
  | integer (value : Int) (short : (Nat.toDigits 10 value.natAbs).length ≤ 4300)
  | string (form : Quoted)
  | expression (form : Expression)

namespace Value

def text : Value → Text
  | .integer value _ => Numeral.decimal value
  | .string form => '"' :: (form.text ++ ['"'])
  | .expression form => form.source

def constant : Value → Constant
  | .integer value _ => .integer value
  | .string form => .string form.text
  | .expression form => .expression form.source

end Value

/-- A name with a value. -/
structure Entry where
  name : Word
  initial : ∀ c ∈ name.text.head?, c.isDigit = false
  value : Value
  /-- An expression that is the name itself makes a guard. -/
  proper : ∀ form, value = .expression form → form.source ≠ name.text

def Entry.line (entry : Entry) : Text :=
  "#define ".toList ++ (entry.name.text ++ ' ' :: entry.value.text)

/-- A line for each entry; the last line may be left open. -/
def written (entries : List Entry) (closed : Bool) : Text :=
  joinWith ['\n'] (entries.map Entry.line) ++ if closed then ['\n'] else []

/-! ## Characters of integers -/

theorem decimal_chars (value : Int) : ∀ c ∈ Numeral.decimal value, c = '-' ∨ c.isDigit = true := by
  have digits : ∀ c ∈ Nat.toDigits 10 value.natAbs, c.isDigit = true := fun c =>
    Nat.isDigit_of_mem_toDigits (by decide) (by decide)
  intro c member
  rw [Numeral.decimal] at member
  split at member
  · exact (List.mem_cons.mp member).imp_right (digits c)
  · exact Or.inr (digits c member)

theorem decimal_ne_nil (value : Int) : Numeral.decimal value ≠ [] := by
  rw [Numeral.decimal]
  split
  · exact List.cons_ne_nil _ _
  · exact Nat.toDigits_ne_nil

theorem not_mem_decimal (value : Int) {sign : Char} (apart : sign ≠ '-' ∧ sign.isDigit = false) :
    sign ∉ Numeral.decimal value := by
  intro member
  rcases decimal_chars value sign member with minus | digit
  · exact apart.1 minus
  · rw [apart.2] at digit
    cases digit

theorem isSpace_decimal (value : Int) : ∀ c ∈ Numeral.decimal value, isSpace c = false := by
  intro c member
  rcases decimal_chars value c member with rfl | digit
  · decide
  · exact isSpace_of_isWord (isWord_of_isDigit digit)

/-! ## Reading a value -/

theorem quoted?_eq_some {s inner : Text} (found : quoted? s = some inner) :
    s = '"' :: (inner ++ ['"']) := by
  unfold quoted? at found
  split at found
  next rest =>
    obtain ⟨closed, -⟩ := Option.filter_eq_some_iff.mp found
    unfold dropLast? at closed
    split at closed
    next c before reversed =>
      split at closed
      next same =>
        cases closed
        rw [← List.reverse_reverse rest, reversed, same]
        simp
      next => cases closed
    next => cases closed
  next => cases found

theorem quoted?_of_oneLine {inner : Text} (oneLine : '\n' ∉ inner) :
    quoted? ('"' :: (inner ++ ['"'])) = some inner := by
  simp [quoted?, dropLast?_concat, Option.filter, oneLine]

namespace Value

theorem starts (value : Value) : Starts value.text := by
  cases value with
  | integer value _ =>
    obtain ⟨c, rest, whole⟩ := List.exists_cons_of_ne_nil (decimal_ne_nil value)
    have solid := isSpace_decimal value c (whole ▸ List.mem_cons_self)
    rw [text, whole]
    exact starts_cons solid rest
  | string form => exact starts_cons (by decide) _
  | expression form => exact starts_of_trim form.filled form.trimmed

theorem ends (value : Value) : Ends value.text := by
  cases value with
  | integer value _ =>
    have last := List.getLast_mem (decimal_ne_nil value)
    exact ⟨_, List.getLast?_eq_some_getLast (decimal_ne_nil value), isSpace_decimal value _ last⟩
  | string form => exact ends_concat (by decide) ('"' :: form.text)
  | expression form => exact ends_of_trim form.filled form.trimmed

theorem oneLine (value : Value) : ∀ c ∈ value.text, isLineBreak c = false := by
  intro c member
  cases value with
  | integer value _ => exact isLineBreak_of_isSpace (isSpace_decimal value c member)
  | string form =>
    simp only [text, List.mem_cons, List.mem_append, List.not_mem_nil, or_false] at member
    rcases member with rfl | inside | rfl
    · decide
    · exact form.oneLine c inside
    · decide
  | expression form => exact form.oneLine c member

theorem uncommented (value : Value) : ¬HasComment value.text := by
  cases value with
  | integer value _ => exact not_hasComment (not_mem_decimal value (by decide))
  | string form => exact form.uncommented
  | expression form => exact form.uncommented

/-- The value does not join the next line. -/
theorem whole (value : Value) : value.text.getLast? ≠ some '\\' := by
  cases value with
  | integer value _ =>
    intro last
    exact not_mem_decimal value (by decide) (List.mem_of_getLast? last)
  | string form =>
    rw [text, ← List.cons_append, List.getLast?_concat]
    decide
  | expression form => exact form.whole

theorem trim_stripComments (value : Value) : trim (stripComments value.text) = value.text := by
  rw [stripComments_eq_self value.uncommented, trim_eq_self value.starts value.ends]

/-- What is written is read as what it stands for. -/
theorem parse_text (value : Value) : parse value.text = .ok value.constant := by
  rw [parse, value.trim_stripComments]
  -- numerals are tried first, then quotes
  cases value with
  | integer value short =>
    simp only [text, Numeral.parse?_decimal, Numeral.integer_ofInt short]
    rfl
  | string form =>
    have inner : '\n' ∉ form.text := fun member => by
      have inside := form.oneLine _ member
      revert inside
      decide
    have unread : Numeral.parse? ('"' :: (form.text ++ ['"'])) = none := rfl
    simp only [text, unread, quoted?_of_oneLine inner, constant]
  | expression form =>
    have unread : Numeral.parse? form.source = none := by
      rw [← Option.not_isSome_iff_eq_none, Numeral.parse?_isSome_iff]
      exact form.notNumeral
    have unquoted : quoted? form.source = none := by
      rw [Option.eq_none_iff_forall_ne_some]
      exact fun inner found => form.notQuoted inner (quoted?_eq_some found)
    simp only [text, unread, unquoted, constant]

end Value

/-! ## Lines -/

theorem joinContinued_cons {c : Char} {rest : Text}
    (apart : c = '\\' → ∀ d ∈ rest.head?, isLineBreak d = false) :
    joinContinued (c :: rest) = c :: joinContinued rest := by
  rw [joinContinued]
  · rintro after same rfl
    cases apart same '\n' rfl
  · rintro after same rfl
    cases apart same '\r' rfl

theorem joinContinued_eq_self {line : Text} (inside : ∀ c ∈ line, isLineBreak c = false) :
    joinContinued line = line := by
  induction line with
  | nil => rfl
  | cons c line ih =>
    obtain ⟨-, others⟩ := List.forall_mem_cons.mp inside
    rw [joinContinued_cons, ih others]
    exact fun _ d first => others d (List.mem_of_mem_head? first)

/-- A line feed without a backslash in front of it is no continuation. -/
theorem joinContinued_append_line {s : Text} (unjoined : ¬['\\'] <:+ s)
    (unreturned : ¬['\\', '\r'] <:+ s) (t : Text) :
    joinContinued (s ++ '\n' :: t) = joinContinued s ++ '\n' :: joinContinued t := by
  fun_induction joinContinued s with
  | case1 => exact joinContinued_cons fun backslash => absurd backslash (by decide)
  | case2 rest ih =>
    -- a line that is continued within the first text: what is left of that text ends as it does
    have later := ih (fun ends => unjoined (ends.trans (List.suffix_append ['\\', '\n'] rest)))
      fun ends => unreturned (ends.trans (List.suffix_append ['\\', '\n'] rest))
    rw [List.cons_append, List.cons_append, joinContinued, later]
    rfl
  | case3 rest ih =>
    have later := ih (fun ends => unjoined (ends.trans (List.suffix_append ['\\', '\r', '\n'] rest)))
      fun ends => unreturned (ends.trans (List.suffix_append ['\\', '\r', '\n'] rest))
    rw [List.cons_append, List.cons_append, List.cons_append, joinContinued, later]
    rfl
  | case4 c rest plain returned ih =>
    have later := ih (fun ends => unjoined (ends.trans (List.suffix_cons c rest)))
      fun ends => unreturned (ends.trans (List.suffix_cons c rest))
    -- a backslash here is followed by what follows it in the first text
    have kept : joinContinued (c :: (rest ++ '\n' :: t)) = c :: joinContinued (rest ++ '\n' :: t) := by
      rw [joinContinued]
      · rintro more rfl begins
        cases rest with
        | nil => exact unjoined List.suffix_rfl
        | cons d rest =>
          cases begins
          exact plain rest rfl rfl
      · rintro more rfl begins
        cases rest with
        | nil => cases begins
        | cons d rest =>
          cases rest with
          | nil =>
            cases begins
            exact unreturned List.suffix_rfl
          | cons e rest =>
            cases begins
            exact returned rest rfl rfl
    rw [List.cons_append, kept, later, List.cons_append]

theorem definitions_line {line : Text} (filled : line ≠ [])
    (inside : ∀ c ∈ line, isLineBreak c = false) :
    definitions line = (lineDefinition? line).toList := by
  rw [definitions, joinContinued_eq_self inside, lines_eq_singleton filled inside,
    List.filterMap_cons]
  cases lineDefinition? line <;> rfl

/-- The definitions of two texts with a line break between them. -/
theorem definitions_append_line {s : Text} (unjoined : ¬['\\'] <:+ s)
    (unreturned : ¬['\\', '\r'] <:+ s) (t : Text) :
    definitions (s ++ '\n' :: t) = definitions s ++ definitions t := by
  have empty : lineDefinition? [] = none := rfl
  rw [definitions, joinContinued_append_line unjoined unreturned, definitions, definitions]
  -- an empty line defines nothing
  rcases lines_append_line (joinContinued s) (joinContinued t) with whole | whole
  · rw [whole, List.filterMap_append]
  · rw [whole, List.filterMap_append, List.filterMap_cons_none empty]

/-- What is defined stands on a line, and is checked before and after its comments are removed. -/
theorem mem_definitions_iff {text name value : Text} :
    (name, value) ∈ definitions text ↔
      ∃ line ∈ lines (joinContinued text), ∃ written,
        definition? (trim line) = some (name, written) ∧ value = trim (stripComments written) ∧
          written ≠ name ∧ value ≠ [] ∧ value ≠ name := by
  rw [definitions, List.mem_filterMap]
  refine exists_congr fun line => and_congr_right fun _ => ?_
  unfold lineDefinition?
  rw [Option.bind_eq_bind, Option.bind_eq_some_iff]
  constructor
  · rintro ⟨⟨known, written⟩, defined, checked⟩
    dsimp only at checked
    split at checked
    · cases checked
    next proper =>
      cases checked
      simp only [not_or] at proper
      exact ⟨written, defined, rfl, proper⟩
  · rintro ⟨written, defined, rfl, proper⟩
    exact ⟨(name, written), defined, if_neg (by simpa only [not_or] using proper)⟩

theorem exists_name_of_definitions {text name value : Text} (member : (name, value) ∈ definitions text) :
    ∃ word : Word, word.text = name := by
  obtain ⟨line, -, written, defined, -⟩ := mem_definitions_iff.mp member
  simp only [definition?, Option.bind_eq_bind, Option.bind_eq_some_iff] at defined
  obtain ⟨_, -, _, -, _, -, ⟨known, _⟩, named, _, -, made⟩ := defined
  obtain ⟨word, rfl, -⟩ := exists_word named
  split at made
  · cases made
  · cases made
    exact ⟨word, rfl⟩

theorem mem_joinContinued {s : Text} {c : Char} (member : c ∈ joinContinued s) :
    c = ' ' ∨ c ∈ s := by
  fun_induction joinContinued s with
  | case1 => exact Or.inr member
  | case2 rest ih =>
    rcases List.mem_cons.mp member with same | later
    · exact Or.inl same
    · exact (ih later).imp_right fun inside => by simp [inside]
  | case3 rest ih =>
    rcases List.mem_cons.mp member with same | later
    · exact Or.inl same
    · exact (ih later).imp_right fun inside => by simp [inside]
  | case4 d rest _ _ ih =>
    rcases List.mem_cons.mp member with same | later
    · exact Or.inr (same ▸ List.mem_cons_self)
    · exact (ih later).imp_right (List.mem_cons_of_mem d)

theorem lineDefinition?_eq_none {line : Text} (absent : '#' ∉ line) :
    lineDefinition? line = none := by
  have unsigned : dropLeading? ['#'] (trim line) = none := by
    rw [Option.eq_none_iff_forall_ne_some]
    intro rest signed
    have inside : '#' ∈ trim line := by simp [dropLeading?_eq_some.mp signed]
    exact absent ((infix_trim line).subset inside)
  simp only [lineDefinition?, definition?, unsigned, Option.bind_eq_bind, Option.bind_none]

/-- A text without the sign of a directive defines no constant. -/
theorem extract_eq_nil {s : Text} (absent : '#' ∉ s) : extract s = .ok [] := by
  have none_defined : definitions s = [] := by
    apply List.filterMap_eq_nil_iff.mpr
    intro line member
    apply lineDefinition?_eq_none
    intro inside
    rcases mem_joinContinued (chars_of_mem_lines member _ inside).1 with space | signed
    · revert space
      decide
    · exact absent signed
  rw [extract, none_defined]
  rfl

namespace Entry

variable (entry : Entry)

theorem line_ne_nil : entry.line ≠ [] := List.cons_ne_nil _ _

theorem line_oneLine : ∀ c ∈ entry.line, isLineBreak c = false := by
  have start : ∀ c ∈ "#define ".toList, isLineBreak c = false := by decide
  intro c member
  rcases List.mem_append.mp member with keyword | rest
  · exact start c keyword
  · rcases List.mem_append.mp rest with name | value
    · exact isLineBreak_of_isSpace (isSpace_of_isWord (entry.name.chars c name))
    · rcases List.mem_cons.mp value with rfl | inside
      · decide
      · exact entry.value.oneLine c inside

theorem value_ne_nil : entry.value.text ≠ [] := entry.value.starts.ne_nil

theorem line_unjoined : ¬['\\'] <:+ entry.line := by
  rw [List.singleton_suffix_iff_getLast?_eq_some]
  have last : entry.line.getLast? = entry.value.text.getLast? := by
    change ("#define ".toList ++ (entry.name.text ++ ' ' :: entry.value.text)).getLast? = _
    rw [List.getLast?_append_of_ne_nil _ (by simp), List.getLast?_append_of_ne_nil _ (by simp),
      List.getLast?_cons_of_ne_nil entry.value_ne_nil]
  rw [last]
  exact entry.value.whole

theorem line_unreturned : ¬['\\', '\r'] <:+ entry.line := by
  intro ends
  have inside := entry.line_oneLine '\r' (ends.subset (by simp))
  cases inside

theorem line_ends : Ends entry.line :=
  ((entry.value.ends.append [' ']).append entry.name.text).append "#define ".toList

/-- No value is taken for a guard. -/
theorem value_ne_name : entry.value.text ≠ entry.name.text := by
  intro same
  cases form : entry.value with
  | integer value short =>
    rw [form] at same
    -- a name begins neither with a sign nor with a digit
    obtain ⟨c, rest, start⟩ := List.exists_cons_of_ne_nil (decimal_ne_nil value)
    have first : c ∈ entry.name.text.head? := by rw [← same, Value.text, start]; rfl
    rcases decimal_chars value c (start ▸ List.mem_cons_self) with rfl | digit
    · exact entry.name.not_mem (show isWord '-' = false by decide) (List.mem_of_mem_head? first)
    · rw [entry.initial c first] at digit
      cases digit
  | string string =>
    -- nor with a quotation mark
    rw [form] at same
    exact entry.name.not_mem (show isWord '"' = false by decide) (same ▸ List.mem_cons_self)
  | expression expression => exact entry.proper expression form (by rw [← same, form]; rfl)

theorem definition?_line : definition? entry.line = some (entry.name.text, entry.value.text) := by
  have hash : dropLeading? ['#'] entry.line =
      some ("define ".toList ++ (entry.name.text ++ ' ' :: entry.value.text)) := rfl
  have keyword : dropLeading? "define".toList
      (trimStart ("define ".toList ++ (entry.name.text ++ ' ' :: entry.value.text))) =
        some (' ' :: (entry.name.text ++ ' ' :: entry.value.text)) := rfl
  have blank {s : Text} (starts : Starts s) : blank? (' ' :: s) = some s := by
    rw [blank?, if_pos (by decide), starts.trimStart]
  simp only [definition?, hash, keyword, blank (entry.name.starts.append _),
    entry.name.word?_append_cons (show isWord ' ' = false by decide), blank entry.value.starts,
    entry.value_ne_nil, Option.bind_eq_bind, Option.bind_some, ↓reduceIte]

theorem lineDefinition?_line :
    lineDefinition? entry.line = some (entry.name.text, entry.value.text) := by
  have trimmed : trim entry.line = entry.line :=
    trim_eq_self (starts_cons (by decide) _) entry.line_ends
  simp only [lineDefinition?, trimmed, entry.definition?_line, entry.value.trim_stripComments,
    entry.value_ne_name, entry.value_ne_nil, Option.bind_eq_bind, Option.bind_some, or_self,
    ↓reduceIte]

end Entry

/-! ## Texts -/

theorem definitions_written (entries : List Entry) (closed : Bool) :
    definitions (written entries closed) =
      entries.map fun entry => (entry.name.text, entry.value.text) := by
  induction entries with
  | nil => cases closed <;> rfl
  | cons entry entries ih =>
    have alone : definitions entry.line = [(entry.name.text, entry.value.text)] := by
      rw [definitions_line entry.line_ne_nil entry.line_oneLine, entry.lineDefinition?_line]
      rfl
    have next := definitions_append_line entry.line_unjoined entry.line_unreturned
    by_cases last : entries = []
    · -- only the last line may be left open
      subst last
      cases closed with
      | true =>
        have whole : written [entry] true = entry.line ++ '\n' :: [] := rfl
        rw [whole, next, alone]
        rfl
      | false =>
        have whole : written [entry] false = entry.line := List.append_nil _
        rw [whole, alone]
        rfl
    · have whole : written (entry :: entries) closed =
          entry.line ++ '\n' :: written entries closed := by
        rw [written, List.map_cons, joinWith_cons_of_ne_nil _ _ (by simpa using last)]
        simp [written]
      rw [whole, next, alone, ih]
      rfl

theorem foldlM_map_ok {ι α β σ ε : Type} {f : σ → α → Except ε σ} {g : σ → β → σ} {a : ι → α}
    {b : ι → β} (step : ∀ state item, f state (a item) = .ok (g state (b item))) (items : List ι)
    (state : σ) : (items.map a).foldlM f state = .ok ((items.map b).foldl g state) := by
  induction items generalizing state with
  | nil => rfl
  | cons item items ih =>
    rw [List.map_cons, List.foldlM_cons, step, List.map_cons, List.foldl_cons]
    exact ih _

/-- A later line of the same name replaces the value of an earlier one. -/
theorem extract_written_eq_ofList (entries : List Entry) (closed : Bool) :
    extract (written entries closed) =
      .ok (Table.ofList (entries.map fun entry => (entry.name.text, entry.value.constant))) := by
  rw [extract, definitions_written, Table.ofList]
  apply foldlM_map_ok
  intro table entry
  dsimp only
  rw [entry.value.parse_text]
  rfl

theorem extract_writtenLines {entries : List Entry} (closed : Bool)
    (distinct : (entries.map (·.name.text)).Nodup) :
    extract (written entries closed) =
      .ok (entries.map fun entry => (entry.name.text, entry.value.constant)) := by
  rw [extract_written_eq_ofList, Table.ofList_eq_self]
  rwa [Table.keys, List.map_map]

/-- An expression that begins like a numeral. -/
def Expression.shift : Expression where
  source := "1 << 3".toList
  filled := by decide
  trimmed := by decide
  oneLine := by decide
  uncommented := not_hasComment (by decide)
  whole := by decide
  notNumeral := by decide
  notQuoted := fun _ same => by cases congrArg List.head? same

/-- One value of each kind. -/
def mixedEntries : List Entry := [
  ⟨⟨"LOW".toList, by decide, by decide⟩, by rintro _ ⟨⟩; decide,
    .integer (-42) (by decide), by rintro _ ⟨⟩⟩,
  ⟨⟨"_TEXT".toList, by decide, by decide⟩, by rintro _ ⟨⟩; decide,
    .string ⟨"say \"hi\"".toList, by decide, not_hasComment (by decide)⟩, by rintro _ ⟨⟩⟩,
  ⟨⟨"MASK".toList, by decide, by decide⟩, by rintro _ ⟨⟩; decide, .expression .shift,
    by rintro _ ⟨⟩; decide⟩]

theorem extract_writtenLines_mixed :
    extract "#define LOW -42\n#define _TEXT \"say \"hi\"\"\n#define MASK 1 << 3".toList = .ok [
      ("LOW".toList, .integer (-42)), ("_TEXT".toList, .string "say \"hi\"".toList),
      ("MASK".toList, .expression "1 << 3".toList)] := by
  have distinct : (mixedEntries.map (·.name.text)).Nodup := by decide
  have text : written mixedEntries false =
      "#define LOW -42\n#define _TEXT \"say \"hi\"\"\n#define MASK 1 << 3".toList := by decide
  rw [← text]
  exact extract_writtenLines false distinct

end CHeader.Constant
