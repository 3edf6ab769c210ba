import CHeader.Parameter

/-!
# Function prototypes

In flat text a prototype stands before a semicolon: a return word with stars, a name, and parameters
in parentheses that close right before the semicolon. Each piece between semicolons is searched on
its own, and its first match decides.
-/
namespace CHeader

open Text

structure Prototype where
  name : Text
  returns : Text
  parameters : List Parameter
  deriving DecidableEq, Repr, Inhabited

namespace Prototype

/-- Words of statements, storage classes and tags: a piece that has one of them for its name or
return type declares no function. -/
def reservedWords : List Text := [
  "typedef".toList, "return".toList, "if".toList, "else".toList, "while".toList, "for".toList,
  "do".toList, "switch".toList, "case".toList, "goto".toList, "sizeof".toList, "extern".toList,
  "static".toList, "inline".toList, "register".toList, "auto".toList] ++ Parameter.tagWords

/-- The texts of a prototype's parts, before anything is known of their meaning. -/
structure Head where
  returns : Text
  name : Text
  parameters : Text
  deriving DecidableEq, Repr

/-- The head that starts with the word at the start of a piece and runs to the end of the piece. -/
def Head.at? (piece : Text) : Option Head := do
  let (word, rest) ← word? piece
  let (name, afterName) ← word? (trimStart (stars rest).2)
  let opened ← dropLeading? ['('] (trimStart afterName)
  let parameters ← dropLast? ')' (trimEnd opened)
  return ⟨word ++ (stars rest).1, name, parameters⟩

/-- The head that starts first. Heads start at the beginning of a word. -/
def Head.find? (afterWord : Bool) : Text → Option Head
  | [] => none
  | c :: rest =>
    if isWord c && !afterWord then
      match Head.at? (c :: rest) with
      | some head => some head
      | none => Head.find? true rest
    else Head.find? (isWord c) rest

/-- The return type without what is space or star at its end. -/
def Head.returnWord (head : Head) : Text :=
  dropEndWhile (fun c => c == ' ' || c == '*') head.returns

def Head.prototype? (head : Head) : Option Prototype :=
  if head.name ∈ Parameter.typeWords ∨ head.name ∈ reservedWords ∨
      head.returnWord ∈ reservedWords then none
  else some ⟨head.name, head.returns, Parameter.parseList head.parameters⟩

/-- The prototype in the piece before a semicolon. -/
def ofPiece? (piece : Text) : Option Prototype :=
  (Head.find? false piece).bind Head.prototype?

/-- The prototypes of a flat text. What follows the last semicolon declares nothing. -/
def extract (flat : Text) : List Prototype :=
  (splitOn ';' flat).dropLast.filterMap ofPiece?

end Prototype

end CHeader
