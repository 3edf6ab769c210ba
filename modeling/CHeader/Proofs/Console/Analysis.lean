import CHeader.Extractor
import CHeader.Proofs.Console.Display
import CHeader.Proofs.Constant.Integer
import CHeader.Proofs.Constant.Merge
import CHeader.Proofs.Extraction
import CHeader.Proofs.Prototype
import CHeader.Proofs.Record

/-!
# What can be shown of an analysis

The names that are found in a text are words, in which no tag begins, and whatever else is found goes
escaped into the tables. So nothing in a header can break the markup that shows its analysis. What
remains are the numbers: an integer is exact whatever its size, but it is written out only up to a
number of digits.
-/
namespace CHeader.Console

open Text

variable {ε : Type} {screen : Nat} {error : DisplayError ε}

/-! ## Tables -/

theorem plain_word (word : Word) : Plain word.text :=
  ⟨word.not_mem (by decide), word.not_mem (by decide)⟩

theorem plain_counted {noun : String} (plain : Plain noun.toList) (count : Nat) :
    Plain (counted noun count) :=
  ((plain.append (by decide)).append (plain_digitsOf count)).append
    (by decide)

namespace Renderer

variable {r : Renderer ε}

theorem Lawful.drawn_literal (lawful : r.Lawful) {title : Text} {headings : List String}
    {rows : List (List Text)} (titled : Plain title)
    (headed : ∀ heading ∈ headings, Plain heading.toList)
    (cells : ∀ row ∈ rows, ∀ cell ∈ row, r.Literal cell) :
    ∃ text, r.drawn screen title headings rows = .ok text := by
  obtain ⟨text, made⟩ : ∃ text, r.table screen ⟨title, headings.map String.toList, rows⟩ = .ok text :=
    lawful.table_literal screen (.plain titled)
      (List.forall_mem_map.mpr fun heading member => .plain (headed heading member)) cells
  exact ⟨text, by rw [drawn, made]; rfl⟩

theorem literal_functionRow {function : Prototype} {word : Word}
    (named : word.text = function.name) : ∀ cell ∈ r.functionRow function, r.Literal cell := by
  simp only [functionRow, List.forall_mem_cons]
  exact ⟨.plain (named ▸ plain_word word), .escaped _, .escaped _, by simp⟩

theorem literal_recordRow {record : Record} {word : Word} (named : word.text = record.name) :
    ∀ cell ∈ r.recordRow record, r.Literal cell := by
  have kind : Plain (kindText record.kind) := by
    cases record.kind <;> decide
  simp only [recordRow, List.forall_mem_cons]
  exact ⟨.plain (named ▸ plain_word word), .plain kind, .escaped _, by simp⟩

end Renderer

/-! ## Constants -/

/-- An integer is too long to be written out. -/
def TooLong (constant : Constant) : Prop :=
  ∃ value, constant = .integer value ∧ 10 ^ Numeral.digitLimit ≤ value.natAbs

theorem integerText_eq_error_iff {value : Int} :
    integerText value = .error error ↔
      error = .integerTooLong ∧ 10 ^ Numeral.digitLimit ≤ value.natAbs := by
  have short : (Decimal.digitsOf value.natAbs).length ≤ Numeral.digitLimit ↔
      value.natAbs < 10 ^ Numeral.digitLimit :=
    Nat.length_toDigits_le_iff (by decide) (by decide)
  rw [← Nat.not_lt, ← short, Nat.not_le, integerText]
  split
  next long => simp [long, eq_comm]
  next fits => simp [fits]

theorem constantText_eq_error_iff {constant : Constant} :
    constantText constant = .error error ↔ error = .integerTooLong ∧ TooLong constant := by
  cases constant with
  | integer value => simp [constantText, TooLong, integerText_eq_error_iff]
  | float value => simp [constantText, TooLong]
  | string value => simp [constantText, TooLong]
  | expression source => simp [constantText, TooLong]

theorem plain_constantKind (constant : Constant) : Plain (constantKind constant) := by
  cases constant with
  | integer => exact (by decide : Plain "int".toList)
  | float => exact (by decide : Plain "float".toList)
  | string => exact (by decide : Plain "str".toList)
  | expression => exact (by decide : Plain "expression".toList)

namespace Renderer

variable {r : Renderer ε}

theorem constantRow_eq_error_iff {name : Text} {constant : Constant} :
    r.constantRow name constant = .error error ↔ error = .integerTooLong ∧ TooLong constant := by
  rw [← constantText_eq_error_iff, constantRow]
  cases constantText constant <;> simp [bind, Except.bind, pure, Except.pure]

theorem literal_constantRow {word : Word} {constant : Constant} {row : List Text}
    (worked : r.constantRow word.text constant = .ok row) : ∀ cell ∈ row, r.Literal cell := by
  rw [constantRow] at worked
  cases written : constantText constant with
  | error cause =>
    rw [written] at worked
    cases worked
  | ok text =>
    rw [written] at worked
    cases worked
    simp only [List.forall_mem_cons]
    exact ⟨.plain (plain_word word), .escaped text, .plain (plain_constantKind constant), by simp⟩

theorem Lawful.constantsTable_eq_error_iff (lawful : r.Lawful) {constants : ConstantTable}
    (named : ∀ entry ∈ constants, ∃ word : Word, word.text = entry.1) :
    r.constantsTable screen constants = .error error ↔
      error = .integerTooLong ∧ ∃ entry ∈ constants, TooLong entry.2 := by
  rw [← firstError_iff_exists (f := fun (entry : Text × Constant) => r.constantRow entry.1 entry.2)
    fun entry cause => constantRow_eq_error_iff, ← mapM_eq_error_iff, constantsTable]
  cases worked : constants.mapM fun entry => r.constantRow entry.1 entry.2 with
  | error cause => simp [bind, Except.bind]
  | ok rows =>
    -- every row was worked out, so each of its cells is a word, escaped text or a kind
    obtain ⟨text, drawn⟩ : ∃ text, r.drawn screen (counted "Constants" constants.length)
        ["Name", "Value", "Kind"] rows = .ok text := by
      apply lawful.drawn_literal (plain_counted (by decide) _) (by decide)
      intro row member
      obtain ⟨⟨name, constant⟩, inside, made⟩ := exists_of_mem_mapM worked row member
      obtain ⟨word, rfl⟩ := named _ inside
      exact literal_constantRow made
    simp [drawn, bind, Except.bind]

/-! ## Analyses -/

/-- The included names stand escaped in a paragraph of their own. -/
theorem Lawful.shown_includes (lawful : r.Lawful) (screen : Nat) (includes : List Text) :
    ∀ part ∈ (if includes = [] then [] else [r.shown (.wrapped screen)
        (r.escape ("Includes: ".toList ++ joinWith [',', ' '] includes))]),
      ∃ text, part = .ok text := by
  intro part member
  split at member
  · cases member
  · rw [List.mem_singleton] at member
    rw [member]
    exact lawful.shown_literal (.escaped _)

/-- If the names are words, only the constants can fail. -/
theorem Lawful.failure_showAnalysis_iff (lawful : r.Lawful) {header : Text} {analysis : Analysis}
    (functions : ∀ function ∈ analysis.functions, ∃ word : Word, word.text = function.name)
    (records : ∀ record ∈ analysis.records, ∃ word : Word, word.text = record.name) :
    (r.showAnalysis screen header analysis).failure = some error ↔
      r.constantsTable screen analysis.constants = .error error := by
  have title : ∃ text, r.shown (.wrapped screen) (bold (r.escape header)) = .ok text :=
    lawful.shown_bold (.escaped header)
  have functionsShown : ∃ text, r.drawn screen (counted "Functions" analysis.functions.length)
      ["Name", "Returns", "Parameters"] (analysis.functions.map r.functionRow) = .ok text := by
    apply lawful.drawn_literal (plain_counted (by decide) _) (by decide)
    rw [List.forall_mem_map]
    intro function member
    obtain ⟨word, named⟩ := functions function member
    exact literal_functionRow named
  have recordsShown : ∃ text, r.drawn screen (counted "Structures" analysis.records.length)
      ["Name", "Kind", "Fields"] (analysis.records.map r.recordRow) = .ok text := by
    apply lawful.drawn_literal (plain_counted (by decide) _) (by decide)
    rw [List.forall_mem_map]
    intro record member
    obtain ⟨word, named⟩ := records record member
    exact literal_recordRow named
  -- the parts before the constants are shown and passed over, and so is the one behind them
  rw [showAnalysis, List.cons_append, List.cons_append, List.cons_append, List.cons_append,
    List.nil_append, Printout.failure_cons_of_ok title, Printout.failure_cons_of_ok functionsShown,
    Printout.failure_cons_of_ok recordsShown]
  exact Printout.failure_cons_iff (lawful.shown_includes screen analysis.includes)

end Renderer

/-- Whatever renderer shows it, the analysis of a text can be shown unless it has an integer of too
many digits, which can only have been written with an exponent. Nothing else stands in the way,
whatever the header is called and whatever the text holds. -/
theorem showAnalysis_failure {r : Renderer ε} (lawful : r.Lawful) (screen : Nat) (header : Text)
    {text : Text} {analysis : Analysis}
    (analyzed : Extractor.pattern.analyzeText text = .ok analysis) :
    (∀ error, (r.showAnalysis screen header analysis).failure = some error ↔
      error = .integerTooLong ∧ ∃ entry ∈ analysis.constants, TooLong entry.2) ∧
    ∀ entry ∈ analysis.constants, TooLong entry.2 →
      ∃ value numeral, (entry.1, value) ∈ Constant.definitions text ∧
        Numeral.parse? value = some numeral ∧ numeral.exponent ≠ none := by
  rw [Extractor.analyzeText, Analysis.ofText] at analyzed
  cases read : Constant.extract text with
  | error cause =>
    rw [read] at analyzed
    cases analyzed
  | ok constants =>
    rw [read] at analyzed
    cases analyzed
    constructor
    · intro error
      rw [lawful.failure_showAnalysis_iff (fun _ => Prototype.exists_name)
        (fun _ => Record.exists_name), lawful.constantsTable_eq_error_iff]
      -- what is entered in the table is defined in the text, under a word
      intro entry member
      obtain ⟨value, defined, -⟩ := Constant.exists_definition read member
      exact Constant.exists_name_of_definitions defined
    · rintro ⟨name, constant⟩ member ⟨number, rfl, long⟩
      obtain ⟨value, defined, parsed⟩ := Constant.exists_definition read member
      obtain ⟨numeral, found, worked⟩ := Constant.numeral_of_parse_integer parsed
      rw [Constant.value_of_definition defined] at found
      exact ⟨value, numeral, defined, found, Numeral.exponent_of_long worked long⟩

/-- A header that closes what is not open, an array of pointers, and an integer with an exponent. -/
theorem showAnalysis_failure_scaled :
    let text := "int f(char *[]);\n#define A 12e3\n".toList
    let analysis : Analysis := {
      functions := [⟨"f".toList, "int".toList, [⟨"char *[]".toList, none⟩]⟩]
      records := []
      constants := [("A".toList, .integer 12000)]
      includes := [] }
    Extractor.pattern.analyzeText text = .ok analysis ∧
      (Renderer.standard.showAnalysis 80 "[/].h".toList analysis).failure = none := by
  intro text analysis
  have analyzed : Extractor.pattern.analyzeText text = .ok analysis := by
    have constants : Constant.extract text = .ok [("A".toList, .integer 12000)] := by
      decide +kernel
    have functions : Prototype.extract (flatten text) =
        [⟨"f".toList, "int".toList, [⟨"char *[]".toList, none⟩]⟩] := by decide +kernel
    have records : Record.extract (flatten text) = [] := by decide +kernel
    have includes : Include.extract text = [] := by decide +kernel
    rw [Extractor.analyzeText, Analysis.ofText, constants, functions, records, includes]
    rfl
  refine ⟨analyzed, ?_⟩
  rw [Option.eq_none_iff_forall_ne_some]
  intro error failed
  obtain ⟨-, entry, member, number, same, long⟩ :=
    ((showAnalysis_failure Renderer.standard_lawful 80 "[/].h".toList analyzed).1 error).mp failed
  obtain rfl := List.mem_singleton.mp member
  cases same
  have short : 12000 < 10 ^ Numeral.digitLimit :=
    calc 12000
      _ < 10 ^ 5 := by decide
      _ ≤ 10 ^ Numeral.digitLimit := Nat.pow_le_pow_right (by decide) (by decide)
  exact absurd long (Nat.not_le.mpr short)

/-- One digit too many. -/
theorem showAnalysis_long : ∃ analysis,
    Extractor.pattern.analyzeText "#define X 1e4300\n".toList = .ok analysis ∧
      (showAnalysis 80 "x.h".toList analysis).failure = some .integerTooLong := by
  have defined : Constant.definitions "#define X 1e4300\n".toList =
      [("X".toList, "1e4300".toList)] := by decide +kernel
  have functions : Prototype.extract (flatten "#define X 1e4300\n".toList) = [] := by decide +kernel
  have records : Record.extract (flatten "#define X 1e4300\n".toList) = [] := by decide +kernel
  have found : Numeral.parse? "1e4300".toList =
      some ⟨false, "1".toList, none, some (false, "4300".toList)⟩ := by decide
  -- from here on the integer stays a power
  obtain ⟨value, worked, long⟩ : ∃ value,
      Numeral.integer ⟨false, "1".toList, none, some (false, "4300".toList)⟩ = .ok value ∧
        10 ^ Numeral.digitLimit ≤ value.natAbs := by
    have scale : Numeral.exponentValue (false, "4300".toList) = Numeral.digitLimit := by decide
    have near : Numeral.exponentInRange "1".toList Numeral.digitLimit = true := by decide
    have one : digitsValue "1".toList = 1 := by decide
    refine ⟨Numeral.signed false (Numeral.truncated "1".toList Numeral.digitLimit), ?_, ?_⟩
    · rw [Numeral.integer]
      dsimp only
      rw [scale, if_pos near]
    · rw [Numeral.natAbs_signed, Numeral.truncated_natCast, one, Nat.one_mul]
  have parsed : Constant.parse "1e4300".toList = .ok (.integer value) := by
    rw [Constant.parse_of_numeral found rfl, worked]
    rfl
  have read : Constant.extract "#define X 1e4300\n".toList = .ok [("X".toList, .integer value)] := by
    refine Constant.extract_eq_ok_iff.mpr ⟨[("X".toList, .integer value)], ?_, rfl⟩
    rw [defined]
    exact .cons ⟨rfl, parsed⟩ .nil
  refine ⟨⟨[], [], [("X".toList, .integer value)], Include.extract "#define X 1e4300\n".toList⟩, ?_, ?_⟩
  · rw [Extractor.analyzeText, Analysis.ofText, read, functions, records]
    rfl
  · rw [showAnalysis, Renderer.standard_lawful.failure_showAnalysis_iff (by simp) (by simp),
      Renderer.standard_lawful.constantsTable_eq_error_iff]
    · exact ⟨rfl, _, List.mem_singleton_self _, value, rfl, long⟩
    · intro entry member
      rw [List.mem_singleton.mp member]
      exact Constant.exists_name_of_definitions (by rw [defined]; exact List.mem_singleton_self _)

end CHeader.Console
