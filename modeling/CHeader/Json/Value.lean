import CHeader.Number.Shortest
import CHeader.Table
import CHeader.Text.Quoted

/-!
# JSON documents

A document is written over several lines, two blanks deeper on each level; empty arrays and objects
stay on their line. Texts are escaped in one of two ways: only what has to be, or all that is not
printable ASCII, with a pair of units for each character beyond the first plane.
-/
namespace CHeader

open Text

inductive JsonValue where
  | null
  | bool (value : Bool)
  | integer (value : Int)
  | float (value : Binary64)
  | notANumber
  | string (value : Text)
  | array (items : List JsonValue)
  | object (members : List (Text × JsonValue))
  deriving Repr, Inhabited

inductive JsonEscapes where
  | required
  | ascii
  deriving DecidableEq, Repr

namespace JsonValue

def unicodeEscape (unit : Nat) : Text := '\\' :: 'u' :: hex 4 unit

/-- The escape of a character by its UTF-16 units. -/
def unitEscapes (c : Char) : Text :=
  if c.toNat < 0x10000 then unicodeEscape c.toNat
  else
    unicodeEscape (0xD800 + (c.toNat - 0x10000) / 0x400) ++
      unicodeEscape (0xDC00 + (c.toNat - 0x10000) % 0x400)

def escapeChar (escapes : JsonEscapes) (c : Char) : Text :=
  if c = '"' then ['\\', '"']
  else if c = '\\' then ['\\', '\\']
  else if c = '\n' then ['\\', 'n']
  else if c = '\r' then ['\\', 'r']
  else if c = '\t' then ['\\', 't']
  else if c = '\x08' then ['\\', 'b']
  else if c = '\x0c' then ['\\', 'f']
  else if c.toNat < 32 ∨ (escapes = .ascii ∧ 127 ≤ c.toNat) then unitEscapes c
  else [c]

def renderString (escapes : JsonEscapes) (s : Text) : Text :=
  '"' :: s.flatMap (escapeChar escapes) ++ ['"']

def integerText (value : Int) : Text :=
  if value < 0 then '-' :: Decimal.digitsOf value.natAbs else Decimal.digitsOf value.natAbs

def floatText : Binary64 → Text
  | .infinite _ => "null".toList
  | value => FloatLayout.interchange.render value

def indentation (depth : Nat) : Text := '\n' :: List.replicate (2 * depth) ' '

mutual

/-- The text of a value that stands `depth` levels deep. -/
def render (escapes : JsonEscapes) (depth : Nat) : JsonValue → Text
  | .null => "null".toList
  | .bool true => "true".toList
  | .bool false => "false".toList
  | .integer value => integerText value
  | .float value => floatText value
  | .notANumber => "null".toList
  | .string value => renderString escapes value
  | .array [] => "[]".toList
  | .array (item :: items) =>
    '[' :: indentation (depth + 1) ++ render escapes (depth + 1) item ++
      renderItems escapes (depth + 1) items ++ indentation depth ++ [']']
  | .object [] => ['{', '}']
  | .object ((key, value) :: members) =>
    '{' :: indentation (depth + 1) ++ renderString escapes key ++ [':', ' '] ++
      render escapes (depth + 1) value ++ renderMembers escapes (depth + 1) members ++
      indentation depth ++ ['}']

def renderItems (escapes : JsonEscapes) (depth : Nat) : List JsonValue → Text
  | [] => []
  | item :: items =>
    ',' :: indentation depth ++ render escapes depth item ++ renderItems escapes depth items

def renderMembers (escapes : JsonEscapes) (depth : Nat) : List (Text × JsonValue) → Text
  | [] => []
  | (key, value) :: members =>
    ',' :: indentation depth ++ renderString escapes key ++ [':', ' '] ++
      render escapes depth value ++ renderMembers escapes depth members

end

def strings (items : List Text) : JsonValue := .array (items.map .string)

end JsonValue

end CHeader
