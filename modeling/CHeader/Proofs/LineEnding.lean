import CHeader.Extractor
import CHeader.Proofs.Constant
import CHeader.Proofs.Text.LineBreak

/-!
# Line endings

A text may end its lines in a carriage return and a line feed. Its constants are those of the text
with plain line feeds. Its functions and records are those of the text with a space before each line
feed: the carriage return stands between the backslash and the end of the line, so that no directive
goes on in a second line. They are the same as with plain line feeds where no directive does so.
-/
namespace CHeader

open Text

namespace Text

/-- The text with a carriage return before each line feed. -/
def withReturns (s : Text) : Text := replaceChar '\n' ['\r', '\n'] s

/-- The text with a space before each line feed. -/
def withSpaces (s : Text) : Text := replaceChar '\n' [' ', '\n'] s

theorem withReturns_cons (c : Char) (s : Text) :
    withReturns (c :: s) = (if c = '\n' then ['\r', '\n'] else [c]) ++ withReturns s := rfl

theorem flatten_withReturns (s : Text) : flatten (withReturns s) = flatten (withSpaces s) :=
  flatten_padded (x := ['\r']) (y := [' ']) (by simp [IsPadding, isSpace]; decide)
    (by simp [IsPadding]; decide) (by simp) (by simp) s

theorem flatten_withReturns_of_unjoined {s : Text}
    (unjoined : Unjoined (splitOn '\n' (stripComments s))) :
    flatten (withReturns s) = flatten s :=
  flatten_padded_of_unjoined (y := ['\r']) (by simp [IsPadding]; decide) unjoined

theorem lines_withReturns {s : Text} (absent : '\r' ∉ s) : lines (withReturns s) = lines s := by
  induction s with
  | nil => rfl
  | cons c s ih =>
    simp only [List.mem_cons, not_or] at absent
    rw [withReturns_cons]
    split
    next ends =>
      subst ends
      have first : lines ('\n' :: s) = [] :: lines s := by simp [lines, isLineBreak, inRanges]
      rw [first, ← ih absent.2]
      rfl
    next inside =>
      rw [List.singleton_append, lines, lines, ih absent.2]
      · simp [Ne.symm absent.1]
      · simp [Ne.symm absent.1]

end Text

namespace Constant

/-- A backslash joins lines whether or not a carriage return stands after it. -/
theorem joinContinued_withReturns {s : Text} (absent : '\r' ∉ s) :
    joinContinued (withReturns s) = withReturns (joinContinued s) := by
  fun_induction joinContinued s with
  | case1 => rfl
  | case2 rest ih =>
    have later := ih fun member => absent (by simp [member])
    have joins : joinContinued (withReturns ('\\' :: '\n' :: rest)) =
        ' ' :: joinContinued (withReturns rest) := by
      simp [withReturns_cons, joinContinued]
    rw [joins, later]
    rfl
  | case3 rest => simp at absent
  | case4 c rest plain _ ih =>
    simp only [List.mem_cons, not_or] at absent
    rw [withReturns_cons, withReturns_cons, ← ih absent.2]
    split
    next => simp [joinContinued]
    next =>
      -- the character that follows a backslash is the same in both texts
      have follows : ∀ d more, c = '\\' → withReturns rest = d :: more → d ≠ '\n' ∧ d ≠ '\r' := by
        rintro d more joins begins
        cases rest with
        | nil => cases begins
        | cons e rest =>
          have apart : e ≠ '\n' := fun ends => plain rest joins (by rw [ends])
          rw [withReturns_cons, if_neg apart] at begins
          cases begins
          exact ⟨apart, fun returns => absent.2 (by rw [returns]; exact List.mem_cons_self)⟩
      rw [List.singleton_append, List.singleton_append, joinContinued]
      · exact fun more joins begins => (follows _ more joins begins).1 rfl
      · exact fun more joins begins => (follows _ _ joins begins).2 rfl

theorem extract_withReturns {s : Text} (absent : '\r' ∉ s) :
    extract (withReturns s) = extract s := by
  have inside : '\r' ∉ joinContinued s := by
    intro member
    rcases mem_joinContinued member with same | member
    · cases same
    · exact absent member
  rw [extract, extract, definitions, definitions, joinContinued_withReturns absent,
    lines_withReturns inside]

end Constant

/-- What an analysis says about declarations, apart from the names of included headers. -/
def Analysis.declarations (analysis : Analysis) : List Prototype × List Record × ConstantTable :=
  (analysis.functions, analysis.records, analysis.constants)

namespace Extractor

theorem map_declarations_analyzeText (s : Text) :
    (Extractor.pattern.analyzeText s).map Analysis.declarations =
      (Constant.extract s).map fun constants =>
        (Prototype.extract (flatten s), Record.extract (flatten s), constants) := by
  rw [analyzeText, Analysis.ofText]
  cases Constant.extract s <;> rfl

/-- Carriage returns before the line feeds leave the constants as they are. Prototypes and records are
those of the text with a space before each line feed, and those of the text itself unless a directive
goes on behind a backslash. -/
theorem analyzeText_withReturns {s : Text} (absent : '\r' ∉ s) :
    (Extractor.pattern.analyzeText (withReturns s)).map Analysis.declarations =
        (Constant.extract s).map (fun constants =>
          (Prototype.extract (flatten (withSpaces s)), Record.extract (flatten (withSpaces s)),
            constants)) ∧
      (Unjoined (splitOn '\n' (stripComments s)) →
        (Extractor.pattern.analyzeText (withReturns s)).map Analysis.declarations =
          (Extractor.pattern.analyzeText s).map Analysis.declarations) := by
  simp only [map_declarations_analyzeText, Constant.extract_withReturns absent]
  refine ⟨by rw [flatten_withReturns], fun unjoined => ?_⟩
  rw [flatten_withReturns_of_unjoined unjoined]

/-- A comment over two lines, a definition, and a comment that ends in a backslash. -/
theorem analyzeText_withReturns_plain :
    let s := "/* a\n b */ #define N 4 // one \\\nint f(int x,\n  int y);\n".toList
    '\r' ∉ s ∧ Unjoined (splitOn '\n' (stripComments s)) ∧
      (Extractor.pattern.analyzeText (withReturns s)).map Analysis.declarations =
        (Extractor.pattern.analyzeText s).map Analysis.declarations := by
  intro s
  have absent : '\r' ∉ s := by decide
  have lines : splitOn '\n' (stripComments s) = ["".toList, " #define N 4  ".toList,
      "int f(int x,".toList, "  int y);".toList, "".toList] := by
    change splitOn '\n' (stripComments
      "/* a\n b */ #define N 4 // one \\\nint f(int x,\n  int y);\n".toList) = _
    decide +kernel
  have unjoined : Unjoined (splitOn '\n' (stripComments s)) := by
    rw [lines, Unjoined]
    decide
  exact ⟨absent, unjoined, (analyzeText_withReturns absent).2 unjoined⟩

/-- The second line of the definition is code once its line ends have two characters. -/
theorem analyzeText_withReturns_continued :
    '\r' ∉ "#define F \\\nint f(void);\n".toList ∧
      (Extractor.pattern.analyzeText (withReturns "#define F \\\nint f(void);\n".toList)).map
          Analysis.declarations ≠
        (Extractor.pattern.analyzeText "#define F \\\nint f(void);\n".toList).map
          Analysis.declarations := by
  have constants : Constant.extract "#define F \\\nint f(void);\n".toList =
      .ok [("F".toList, .expression "int f(void);".toList)] := by decide +kernel
  have hidden : flatten "#define F \\\nint f(void);\n".toList = [] := by decide +kernel
  have shown : flatten (withReturns "#define F \\\nint f(void);\n".toList) =
      "int f(void);".toList := by decide +kernel
  have nothing : Prototype.extract [] = [] := by decide +kernel
  have declared : Prototype.extract "int f(void);".toList =
      [⟨"f".toList, "int".toList, []⟩] := by decide +kernel
  have absent : '\r' ∉ "#define F \\\nint f(void);\n".toList := by decide
  refine ⟨absent, ?_⟩
  rw [map_declarations_analyzeText, map_declarations_analyzeText,
    Constant.extract_withReturns absent, constants, hidden, shown, nothing, declared]
  intro same
  cases same

end Extractor

end CHeader
