import CHeader.Text.Basic

/-!
# Tokens of a header

A header is a sequence of words, marks, quoted literals and directives, with blanks and comments
between them. A directive is one token up to the end of its line; a backslash before the line break
and a comment continue it.
-/
namespace CHeader.Syntax

open Text

inductive Lexeme where
  | blank
  | word
  | literal
  | mark
  | directive
  deriving DecidableEq, Repr

structure Token where
  lexeme : Lexeme
  text : Text
  /-- The place of the first byte, and of the first byte after the token. -/
  start : Nat
  stop : Nat
  deriving DecidableEq, Repr

/-- The length of what follows the two slashes of a comment. -/
def lineCommentLength : Text → Nat
  | '\\' :: '\r' :: '\n' :: rest => lineCommentLength rest + 3
  | '\\' :: _ :: rest => lineCommentLength rest + 2
  | c :: rest => if c = '\n' then 0 else lineCommentLength rest + 1
  | [] => 0

/-- The length of what follows an opening quotation mark. -/
def literalLength (mark : Char) : Text → Nat
  | '\\' :: _ :: rest => literalLength mark rest + 2
  | c :: rest => if c = mark then 1 else if c = '\n' then 0 else literalLength mark rest + 1
  | [] => 0

/-- The length of what follows the sign of a directive, up to the line break. -/
def directiveLength : (inComment : Bool) → Text → Nat
  | false, '\\' :: '\r' :: '\n' :: rest => directiveLength false rest + 3
  | false, '\\' :: '\n' :: rest => directiveLength false rest + 2
  | false, '/' :: '*' :: rest => directiveLength true rest + 2
  | true, '*' :: '/' :: rest => directiveLength false rest + 2
  | inComment, c :: rest =>
    if c = '\n' && !inComment then 0 else directiveLength inComment rest + 1
  | _, [] => 0

def isWordPart (c : Char) : Bool := isWord c || c == '$'

/-- The characters of operators and brackets. All others that begin no token are passed over. -/
def isMark (c : Char) : Bool := "()[]\x7b\x7d<>;:,.=+-*/%&|^!~?".toList.contains c

/-- What a text with the given first character begins with, and how many characters follow the
first. -/
def lexemeAt (c : Char) (rest : Text) : Lexeme × Nat :=
  match c, rest with
  | '/', '/' :: comment => (.blank, lineCommentLength comment + 1)
  | '/', '*' :: comment =>
    match splitThrough? ['*', '/'] comment with
    | some (body, _) => (.blank, body.length + 1)
    | none => (.mark, 0)
  | '\\', '\n' :: _ => (.blank, 1)
  | '\\', '\r' :: '\n' :: _ => (.blank, 2)
  | '#', _ => (.directive, directiveLength false rest)
  | _, _ =>
    if c = '"' ∨ c = '\'' then (.literal, literalLength c rest)
    else if isWordPart c then (.word, (rest.takeWhile isWordPart).length)
    else if isMark c then (.mark, 0)
    else (.blank, 0)

def byteLength : Text → Nat
  | [] => 0
  | c :: rest => c.utf8Size + byteLength rest

/-- The tokens of a text that starts at a byte position, without blanks and comments. -/
def tokensFrom (position : Nat) (s : Text) : List Token :=
  match s with
  | [] => []
  | c :: rest =>
    let found := lexemeAt c rest
    let text := c :: rest.take found.2
    let stop := position + byteLength text
    if found.1 = .blank then tokensFrom stop (rest.drop found.2)
    else ⟨found.1, text, position, stop⟩ :: tokensFrom stop (rest.drop found.2)
termination_by s.length
decreasing_by all_goals simp only [List.length_drop, List.length_cons]; omega

end CHeader.Syntax
