import CHeader.Text.WordTable

/-!
# Texts and their character classes

A header is a list of characters. Words are made of letters, digits of any script and underscores;
blank space is every character that separates words, the line separators included.
-/
namespace CHeader

abbrev Text := List Char

/-- Texts that test equal are equal. -/
instance instLawfulBEqText : LawfulBEq Text := inferInstance

namespace Text

def inRanges (ranges : List (Nat × Nat)) (c : Char) : Bool :=
  ranges.any fun (first, last) => first ≤ c.toNat && c.toNat ≤ last

/-- A letter, a character with a numeric value, or an underscore. -/
def isWord (c : Char) : Bool :=
  if c.toNat < 128 then c.isAlphanum || c == '_' else inRanges wordRanges c

def spaceRanges : List (Nat × Nat) := [
  (9, 13), (28, 32), (133, 133), (160, 160), (5760, 5760), (8192, 8202), (8232, 8233),
  (8239, 8239), (8287, 8287), (12288, 12288)]

/-- Blank space of any kind, the separators of files, groups, records and units included. -/
def isSpace (c : Char) : Bool := inRanges spaceRanges c

/-- A space or a tab: what may stand before the sign that opens a directive. -/
def isIndent (c : Char) : Bool := c == ' ' || c == '\t'

/-- The value of a decimal digit of any script. -/
def digitValue? (c : Char) : Option Nat :=
  if c.toNat < 128 then
    if c.isDigit then some (c.toNat - '0'.toNat) else none
  else
    (digitZeros.find? fun first => first ≤ c.toNat && c.toNat < first + 10).map (c.toNat - ·)

def isDigit (c : Char) : Bool := (digitValue? c).isSome

/-- The number that a run of digits denotes; other characters count as zero. -/
def digitsValue (digits : Text) : Nat :=
  digits.foldl (fun value c => 10 * value + (digitValue? c).getD 0) 0

/-! ## Trimming -/

def dropEndWhile (p : Char → Bool) (s : Text) : Text := (s.reverse.dropWhile p).reverse

def trimStart (s : Text) : Text := s.dropWhile isSpace

def trimEnd (s : Text) : Text := dropEndWhile isSpace s

def trim (s : Text) : Text := trimEnd (trimStart s)

/-! ## Splitting and joining -/

/-- The pieces between the separators: one more than there are separators. -/
def splitOn (separator : Char) : Text → List Text
  | [] => [[]]
  | c :: rest =>
    if c = separator then [] :: splitOn separator rest
    else match splitOn separator rest with
      | piece :: pieces => (c :: piece) :: pieces
      | [] => [[c]]

def joinWith (separator : Text) : List Text → Text
  | [] => []
  | [piece] => piece
  | piece :: pieces => piece ++ separator ++ joinWith separator pieces

/-- The maximal runs of characters that are not blank. -/
def words : Text → List Text
  | [] => []
  | c :: rest =>
    if isSpace c then words rest
    else match rest with
      | [] => [[c]]
      | next :: _ =>
        if isSpace next then [c] :: words rest
        else match words rest with
          | word :: others => (c :: word) :: others
          | [] => [[c]]

/-- A character that ends a line; a carriage return takes a following line feed with it. -/
def isLineBreak (c : Char) : Bool :=
  inRanges [(10, 13), (28, 30), (133, 133), (8232, 8233)] c

/-- The lines of a text, whatever characters end them; a last line needs no ending. -/
def lines : Text → List Text
  | [] => []
  | '\r' :: '\n' :: rest => [] :: lines rest
  | c :: rest =>
    if isLineBreak c then [] :: lines rest
    else match lines rest with
      | line :: others => (c :: line) :: others
      | [] => [[c]]

/-! ## Searching -/

/-- The text after a given beginning. -/
def dropLeading? : (leading : Text) → Text → Option Text
  | [], s => some s
  | _ :: _, [] => none
  | p :: ps, c :: rest => if p = c then dropLeading? ps rest else none

/-- The text up to and with the first occurrence of a mark, and the text after it. -/
def splitThrough? (mark : Text) : Text → Option (Text × Text)
  | [] => (dropLeading? mark []).map fun rest => (mark, rest)
  | c :: rest =>
    match dropLeading? mark (c :: rest) with
    | some after => some (mark, after)
    | none => (splitThrough? mark rest).map fun (before, after) => (c :: before, after)

/-- Does the text occur in the other one? -/
def occursIn (part : Text) : Text → Bool
  | [] => part.isEmpty
  | c :: rest => part.isPrefixOf (c :: rest) || occursIn part rest

/-- Replace every occurrence of one character. -/
def replaceChar (old : Char) (new : Text) (s : Text) : Text :=
  s.flatMap fun c => if c = old then new else [c]

end Text

end CHeader
