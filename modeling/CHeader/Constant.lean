import CHeader.Number.Numeral
import CHeader.Table
import CHeader.Text.Scan

/-!
# Constants

A constant is an object-like definition of a name with a value: a number, a quoted string, or an
expression that is kept as it is written. Include guards, which define a name as nothing or as
itself, are no constants. A later definition of a name replaces its value and keeps its place.
-/
namespace CHeader

open Text

inductive Constant where
  | integer (value : Int)
  | float (value : Binary64)
  | string (value : Text)
  | expression (source : Text)
  deriving DecidableEq, Repr, Inhabited

abbrev ConstantTable := Table Text Constant

namespace Constant

/-- The text between two quotation marks at the ends of a line. -/
def quoted? : Text → Option Text
  | '"' :: rest => (dropLast? '"' rest).filter ('\n' ∉ ·)
  | _ => none

/-- A value without its comments is a number, else a string, else an expression. -/
def parse (text : Text) : Except NumeralError Constant :=
  let text := trim (stripComments text)
  match Numeral.parse? text with
  | some numeral =>
    match numeral.fraction with
    | some fraction => .ok (.float (numeral.float fraction))
    | none => numeral.integer.map .integer
  | none =>
    match quoted? text with
    | some value => .ok (.string value)
    | none => .ok (.expression text)

/-- A backslash at the end of a line joins the next line to it. -/
def joinContinued : Text → Text
  | [] => []
  | '\\' :: '\n' :: rest => ' ' :: joinContinued rest
  | '\\' :: '\r' :: '\n' :: rest => ' ' :: joinContinued rest
  | c :: rest => c :: joinContinued rest

/-- The name and value of an object-like definition that makes up a trimmed line. -/
def definition? (line : Text) : Option (Text × Text) := do
  let s ← dropLeading? ['#'] line
  let s ← blank? (← dropLeading? "define".toList (trimStart s))
  let (name, s) ← word? s
  let value ← blank? s
  if value = [] then none else some (name, value)

/-- The definition in a line, with its comments removed, unless it is a guard. -/
def lineDefinition? (line : Text) : Option (Text × Text) := do
  let (name, value) ← definition? (trim line)
  let stripped := trim (stripComments value)
  if value = name ∨ stripped = [] ∨ stripped = name then none else some (name, stripped)

def definitions (raw : Text) : List (Text × Text) :=
  (lines (joinContinued raw)).filterMap lineDefinition?

def extract (raw : Text) : Except NumeralError ConstantTable :=
  (definitions raw).foldlM (fun table (name, value) => do
    return table.set name (← parse value)) []

end Constant

end CHeader
