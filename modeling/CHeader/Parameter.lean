import CHeader.Text.Scan

/-!
# Parameters and fields

A parameter is a type and, mostly, a name. Its text is read as a function pointer first, then as a
type with a name and array dimensions after it; any other text is the type of an unnamed parameter.
-/
namespace CHeader

open Text

structure Parameter where
  type : Text
  /-- The name, which unnamed parameters lack. -/
  name : Option Text
  deriving DecidableEq, Repr, Inhabited

namespace Parameter

/-- Words that end a type and so never name a parameter. -/
def typeWords : List Text := [
  "void".toList, "char".toList, "short".toList, "int".toList, "long".toList, "float".toList,
  "double".toList, "signed".toList, "unsigned".toList, "const".toList, "volatile".toList,
  "restrict".toList, "_Bool".toList, "bool".toList]

/-- Words that a tag follows. -/
def tagWords : List Text := ["struct".toList, "union".toList, "enum".toList]

/-! ## Splitting a list -/

/-- How a character changes the nesting depth. A depth may go below zero. -/
def nesting (c : Char) : Int := if c = '(' then 1 else if c = ')' then -1 else 0

/-- The pieces between the commas that stand at depth zero. -/
def segments (depth : Int) : Text → List Text
  | [] => [[]]
  | c :: rest =>
    if c = ',' ∧ depth = 0 then [] :: segments depth rest
    else match segments (depth + nesting c) rest with
      | segment :: others => (c :: segment) :: others
      | [] => [[c]]

/-- The trimmed pieces of a comma-separated list; a blank last piece does not count. -/
def split (s : Text) : List Text :=
  let pieces := (segments 0 s).map trim
  if pieces.getLast? = some [] then pieces.dropLast else pieces

/-! ## Reading one parameter -/

/-- The part `(*name)(arguments)` that closes a function pointer. -/
def pointerTail? (s : Text) : Option (Text × Text) := do
  let s ← dropLeading? ['('] (trimStart s)
  let s ← dropLeading? ['*'] (trimStart s)
  let (name, s) ← word? (trimStart s)
  let s ← dropLeading? [')'] (trimStart s)
  let s ← dropLeading? ['('] (trimStart s)
  let arguments ← dropLast? ')' s
  if '\n' ∈ arguments then none else some (name, arguments)

/-- The return type, name and arguments of a function pointer; the shortest return type wins. -/
def functionPointer? : Text → Option (Text × Text × Text)
  | [] => none
  | c :: rest =>
    if c = '\n' then none
    else match pointerTail? rest with
      | some (name, arguments) => some ([c], name, arguments)
      | none => (functionPointer? rest).map fun (returns, tail) => (c :: returns, tail)

/-- Array dimensions up to the end of the text, without blank space. A dimension ends at the first
closing bracket. -/
def dimensions? : (inside : Bool) → Text → Option Text
  | false, [] => some []
  | true, [] => none
  | false, c :: rest =>
    if c = '[' then (dimensions? true rest).map (c :: ·)
    else if isSpace c then dimensions? false rest
    else none
  | true, c :: rest =>
    if c = ']' then (dimensions? false rest).map (c :: ·)
    else if isSpace c then dimensions? true rest
    else (dimensions? true rest).map (c :: ·)

/-- A name with its dimensions, and nothing else. -/
def declarator? (s : Text) : Option (Text × Text) := do
  let (name, rest) ← word? s
  let dimensions ← dimensions? false rest
  return (name, dimensions)

/-- The type, name and dimensions of a declaration. The type ends in a star or a blank, and the
shortest type wins; it stays on the first line. -/
def declaration? : Text → Option (Text × Text × Text)
  | [] => none
  | c :: rest =>
    match if isSpace c || c = '*' then declarator? rest else none with
    | some (name, dimensions) => some ([c], name, dimensions)
    | none =>
      if c = '\n' then none
      else (declaration? rest).map fun (type, tail) => (c :: type, tail)

def pointerType (returns name arguments : Text) : Text :=
  returns ++ " (*".toList ++ name ++ ")(".toList ++ trim arguments ++ [')']

def parse (text : Text) : Parameter :=
  let text := trim text
  match functionPointer? text with
  | some (returns, name, arguments) => ⟨pointerType returns name arguments, some name⟩
  | none =>
    match declaration? text with
    | some (type, name, dimensions) =>
      if name ∈ typeWords ∨ trim type ∈ tagWords then ⟨text, none⟩
      else ⟨trim type ++ dimensions, some name⟩
    | none => ⟨text, none⟩

/-- The parameters of a function; `void` alone stands for none. -/
def parseList (s : Text) : List Parameter :=
  let s := trim s
  if s = [] ∨ s = "void".toList then []
  else ((split s).filter (· ≠ [])).map parse

end Parameter

end CHeader
