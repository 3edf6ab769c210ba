import CHeader.Text.PrintableTable
import CHeader.Text.Basic

/-!
# Quoted texts

A quoted text stands between single quotes, or between double quotes if it holds single quotes and
no double ones. Backslashes, the enclosing quote and what cannot be printed are escaped; a code point
is written in the shortest of the forms `\xHH`, `\uHHHH` and `\UHHHHHHHH` that holds it.
-/
namespace CHeader.Text

def isPrintable (c : Char) : Bool :=
  if c.toNat < 128 then 32 ≤ c.toNat && c.toNat < 127 else inRanges printableRanges c

/-- The hexadecimal digits of a number, at least as many as the width. -/
def hex (width n : Nat) : Text :=
  let digits := Nat.toDigits 16 n
  List.replicate (width - digits.length) '0' ++ digits

def quoteChar (mark c : Char) : Text :=
  if c = mark ∨ c = '\\' then ['\\', c]
  else if c = '\n' then ['\\', 'n']
  else if c = '\r' then ['\\', 'r']
  else if c = '\t' then ['\\', 't']
  else if isPrintable c then [c]
  else if c.toNat < 0x100 then '\\' :: 'x' :: hex 2 c.toNat
  else if c.toNat < 0x10000 then '\\' :: 'u' :: hex 4 c.toNat
  else '\\' :: 'U' :: hex 8 c.toNat

def quote (s : Text) : Text :=
  let mark := if '\'' ∈ s ∧ '"' ∉ s then '"' else '\''
  mark :: s.flatMap (quoteChar mark) ++ [mark]

/-- Quoted texts in brackets. -/
def quoteList (items : List Text) : Text :=
  '[' :: joinWith [',', ' '] (items.map quote) ++ [']']

end CHeader.Text
