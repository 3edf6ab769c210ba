import CHeader.Include
import CHeader.Proofs.Distinct
import CHeader.Proofs.Text.Word

/-!
# Written include directives

A text without the sign of a directive includes nothing, and a directive is read as a whole wherever it
stands. So the names found in a text that is made of both in turn are those of its directives, whatever
their names hold. What is extracted are these names in the order of their first occurrences.
-/
namespace CHeader.Include

open Text

/-! ## Texts between directives -/

theorem directive?_eq_none {c : Char} (plain : c ≠ '#') (s : Text) : directive? (c :: s) = none := by
  have unsigned : dropLeading? ['#'] (c :: s) = none := if_neg (Ne.symm plain)
  simp only [directive?, unsigned, Option.bind_eq_bind, Option.bind_none]

theorem names_cons {c : Char} (plain : c ≠ '#') (s : Text) : names (c :: s) = names s := by
  rw [names]
  split
  next found =>
    rw [directive?_eq_none plain] at found
    cases found
  next => rfl

theorem names_append {lead : Text} (plain : '#' ∉ lead) (s : Text) :
    names (lead ++ s) = names s := by
  induction lead with
  | nil => rfl
  | cons c lead ih =>
    simp only [List.mem_cons, not_or] at plain
    rw [List.cons_append, names_cons (Ne.symm plain.1), ih plain.2]

theorem extract_eq_nil {s : Text} (absent : '#' ∉ s) : extract s = [] := by
  have unnamed := names_append absent []
  rw [List.append_nil, names] at unnamed
  rw [extract, unnamed]
  rfl

/-! ## Directives -/

/-- A name between delimiters, which need not pair, with blank space around the keyword. The name may
hold anything but the marks that could close it. -/
structure Directive where
  indent : Gap
  gap : Gap
  opening : Char
  opens : opening = '<' ∨ opening = '"'
  name : Text
  filled : name ≠ []
  unclosed : ∀ c ∈ name, c ≠ '>' ∧ c ≠ '"'
  closing : Char
  closes : closing = '>' ∨ closing = '"'

namespace Directive

variable (directive : Directive)

def text : Text :=
  '#' :: (directive.indent.text ++ (keyword ++ (directive.gap.text ++
    directive.opening :: (directive.name ++ [directive.closing]))))

/-- The name ends at the first mark that can close it. -/
theorem while_name (rest : Text) :
    (directive.name ++ directive.closing :: rest).takeWhile isNameChar = directive.name ∧
      (directive.name ++ directive.closing :: rest).dropWhile isNameChar =
        directive.closing :: rest := by
  refine takeWhile_append_stop (fun c member => ?_) fun c first => ?_
  · simp [isNameChar, directive.unclosed c member]
  · cases first
    rcases directive.closes with mark | mark <;> rw [mark] <;> decide

theorem directive?_text (rest : Text) :
    directive? (directive.text ++ rest) = some (directive.name, rest) := by
  have sign (behind : Text) : dropLeading? ['#'] ('#' :: behind) = some behind :=
    dropLeading?_eq_some.mpr rfl
  have keyed (behind : Text) :
      dropLeading? keyword (trimStart (directive.indent.text ++ (keyword ++ behind))) =
        some behind := by
    rw [trimStart_append_of_blank directive.indent.blank]
    rfl
  have opened (behind : Text) :
      trimStart (directive.gap.text ++ directive.opening :: behind) =
        directive.opening :: behind := by
    rw [trimStart_append_of_blank directive.gap.blank]
    refine trimStart_cons ?_ behind
    rcases directive.opens with mark | mark <;> rw [mark] <;> decide
  have named := directive.while_name rest
  simp only [directive?, text, List.cons_append, List.append_assoc, List.nil_append, sign, keyed,
    opened, named, directive.opens, directive.filled, Option.bind_eq_bind, Option.bind_some, ne_eq,
    not_false_eq_true, and_self, ↓reduceIte]

theorem names_text (rest : Text) :
    names (directive.text ++ rest) = directive.name :: names rest := by
  have found := directive.directive?_text rest
  -- `names` looks for a directive behind a first character only
  rw [text, List.cons_append] at found ⊢
  rw [names]
  split
  next name after again =>
    rw [found] at again
    cases again
    rfl
  next none =>
    rw [found] at none
    cases none

end Directive

/-! ## Texts with directives -/

/-- A directive and the text up to the next one. -/
structure Passage where
  directive : Directive
  after : Text
  plain : '#' ∉ after

def Passage.text (passage : Passage) : Text := passage.directive.text ++ passage.after

theorem names_passages (passages : List Passage) :
    names (passages.flatMap Passage.text) = passages.map (·.directive.name) := by
  induction passages with
  | nil => rw [List.flatMap_nil, names, List.map_nil]
  | cons passage passages ih =>
    rw [List.flatMap_cons, Passage.text, List.append_assoc, passage.directive.names_text,
      names_append passage.plain, ih, List.map_cons]

/-- In a text with directives each of them is found, once and in order, and its name is extracted in the
place where it occurs for the first time. -/
theorem extract_passages {lead : Text} (plain : '#' ∉ lead) (passages : List Passage) :
    names (lead ++ passages.flatMap Passage.text) = passages.map (·.directive.name) ∧
      extract (lead ++ passages.flatMap Passage.text) =
        (passages.map (·.directive.name)).eraseDups ∧
      FirstOccurrences (passages.map (·.directive.name))
        (extract (lead ++ passages.flatMap Passage.text)) := by
  have listed : names (lead ++ passages.flatMap Passage.text) =
      passages.map (·.directive.name) := by
    rw [names_append plain, names_passages]
  refine ⟨listed, ?_, ?_⟩
  · rw [extract, listed]
  · rw [extract, listed]
    exact firstOccurrences_eraseDups _

/-- A name with a directive inside, over two lines, between two that are the same. -/
def nestedPassages : List Passage := [
  ⟨⟨.empty, ⟨['\t'], by decide⟩, '<', by decide, "a.h".toList, by decide, by decide, '>', by decide⟩,
    ['\n'], by decide⟩,
  ⟨⟨⟨[' ', '\n'], by decide⟩, ⟨['\t'], by decide⟩, '"', by decide, "b #include <c\n.h".toList,
    by decide, by decide, '>', by decide⟩, "int y; ".toList, by decide⟩,
  ⟨⟨.empty, .empty, '"', by decide, "a.h".toList, by decide, by decide, '>', by decide⟩, [],
    by decide⟩]

theorem extract_passages_nested :
    '#' ∉ "int x;\n".toList ∧
      extract
          "int x;\n#include\t<a.h>\n# \ninclude\t\"b #include <c\n.h>int y; #include\"a.h>".toList =
        ["a.h".toList, "b #include <c\n.h".toList] := by
  have plain : '#' ∉ "int x;\n".toList := by decide
  have text : "int x;\n".toList ++ nestedPassages.flatMap Passage.text =
      "int x;\n#include\t<a.h>\n# \ninclude\t\"b #include <c\n.h>int y; #include\"a.h>".toList := by
    decide
  have found := (extract_passages plain nestedPassages).2.1
  rw [text] at found
  exact ⟨plain, found⟩

end CHeader.Include
