import CHeader.Host
import CHeader.Json.Value
import CHeader.Number.Numeral
import CHeader.Text.Comment

/-!
# Reading JSON documents

Reading names the first fault and its place. Besides the standard's values it knows infinities and
the value that is no number. Integers without exponent have a limit on their digits. The last member
of an object under a name wins. How deeply brackets may be nested is up to the system.
-/
namespace CHeader

open Text

inductive JsonFault where
  | byteOrderMark
  | expectingValue
  | expectingName
  | expectingColon
  | expectingComma
  | extraData
  | unterminatedString
  | controlCharacter
  | invalidEscape
  | invalidUnicodeEscape
  deriving DecidableEq, Repr

inductive JsonError where
  | malformed (fault : JsonFault) (position : Nat)
  | numeral (cause : NumeralError)
  deriving DecidableEq, Repr

namespace JsonFault

def message : JsonFault → Text
  | byteOrderMark => "Unexpected UTF-8 BOM (decode using utf-8-sig)".toList
  | expectingValue => "Expecting value".toList
  | expectingName => "Expecting property name enclosed in double quotes".toList
  | expectingColon => "Expecting ':' delimiter".toList
  | expectingComma => "Expecting ',' delimiter".toList
  | extraData => "Extra data".toList
  | unterminatedString => "Unterminated string starting at".toList
  | controlCharacter => "Invalid control character at".toList
  | invalidEscape => "Invalid \\escape".toList
  | invalidUnicodeEscape => "Invalid \\uXXXX escape".toList

/-- The message with the line, the column and the number of the character. -/
def located (fault : JsonFault) (source : Text) (position : Nat) : Text :=
  let before := source.take position
  let line := before.count '\n' + 1
  let column := (before.reverse.takeWhile (· ≠ '\n')).length + 1
  fault.message ++ ": line ".toList ++ Decimal.digitsOf line ++ " column ".toList ++
    Decimal.digitsOf column ++ " (char ".toList ++ Decimal.digitsOf position ++ [')']

end JsonFault

namespace JsonValue

/-- Where reading stopped: the fault, and how many characters were left there. -/
inductive Stop where
  | fault (kind : JsonFault) (left : Nat)
  | numeral (cause : NumeralError)
  deriving DecidableEq, Repr

abbrev Step (α : Type) := Except Stop (α × Text)

/-- Why reading a value ends before the value does: for the text, or for the system. -/
inductive Halt (ε : Type) where
  | stop (cause : Stop)
  | host (cause : ε)
  deriving DecidableEq, Repr

abbrev Reading (ε α : Type) := Except (Halt ε) (α × Text)

variable {ε : Type}

def Step.reading {α : Type} (step : Step α) : Reading ε α := step.mapError .stop

def isBlank (c : Char) : Bool := c == ' ' || c == '\t' || c == '\n' || c == '\r'

def skipBlank (s : Text) : Text := s.dropWhile isBlank

/-! ## Strings -/

def hexDigit? (c : Char) : Option Nat :=
  if c.isDigit then some (c.toNat - '0'.toNat)
  else if 'a' ≤ c ∧ c ≤ 'f' then some (c.toNat - 'a'.toNat + 10)
  else if 'A' ≤ c ∧ c ≤ 'F' then some (c.toNat - 'A'.toNat + 10)
  else none

/-- The unit that four hexadecimal digits denote. -/
def unit? : Text → Option (Nat × Text)
  | a :: b :: c :: d :: rest => do
    let a ← hexDigit? a
    let b ← hexDigit? b
    let c ← hexDigit? c
    let d ← hexDigit? d
    return (((a * 16 + b) * 16 + c) * 16 + d, rest)
  | _ => none

def simpleEscape? : Char → Option Char
  | '"' => some '"'
  | '\\' => some '\\'
  | '/' => some '/'
  | 'b' => some '\x08'
  | 'f' => some '\x0c'
  | 'n' => some '\n'
  | 'r' => some '\r'
  | 't' => some '\t'
  | _ => none

def isHighUnit (unit : Nat) : Bool := 0xD800 ≤ unit && unit < 0xDC00

def isLowUnit (unit : Nat) : Bool := 0xDC00 ≤ unit && unit < 0xE000

def joinUnits (high low : Nat) : Nat := 0x10000 + (high - 0xD800) * 0x400 + (low - 0xDC00)

/-- A character by its number; half of a pair becomes the replacement character. -/
def charOfUnit (unit : Nat) : Char :=
  if isHighUnit unit || isLowUnit unit then '\uFFFD' else Char.ofNat unit

/-- The character after a backslash and the letter u. A pair of units is one character; a unit that
could begin a pair stands alone if no second one follows. More than the digits has to be left. -/
def unicodeEscape? (digits : Text) : Step Char :=
  let fault (left : Nat) : Step Char := .error (.fault .invalidUnicodeEscape left)
  if digits.length < 5 then fault (digits.length + 1)
  else
    match unit? digits with
    | none => fault (digits.length + 1)
    | some (unit, rest) =>
      match isHighUnit unit && 7 ≤ rest.length, rest with
      | true, '\\' :: 'u' :: second =>
        match unit? second with
        | none => fault (second.length + 1)
        | some (low, later) =>
          if isLowUnit low then .ok (Char.ofNat (joinUnits unit low), later)
          else .ok (charOfUnit unit, rest)
      | _, _ => .ok (charOfUnit unit, rest)

/-- The rest of a string after its opening quotation mark; `opened` characters were left there. -/
def stringRest (opened : Nat) : (fuel : Nat) → Text → Step Text
  | 0, _ => .error (.fault .unterminatedString opened)
  | fuel + 1, s =>
    match s with
    | [] => .error (.fault .unterminatedString opened)
    | '"' :: rest => .ok ([], rest)
    | '\\' :: [] => .error (.fault .unterminatedString opened)
    | '\\' :: 'u' :: digits =>
      match unicodeEscape? digits with
      | .error stop => .error stop
      | .ok (c, rest) => (stringRest opened fuel rest).map fun (s, rest) => (c :: s, rest)
    | '\\' :: escape :: rest =>
      match simpleEscape? escape with
      | none => .error (.fault .invalidEscape (rest.length + 2))
      | some c => (stringRest opened fuel rest).map fun (s, rest) => (c :: s, rest)
    | c :: rest =>
      if c.toNat < 32 then .error (.fault .controlCharacter (rest.length + 1))
      else (stringRest opened fuel rest).map fun (s, rest) => (c :: s, rest)

/-- A string from after its opening quotation mark on. -/
def stringAfterQuote (s : Text) : Step Text := stringRest (s.length + 1) (s.length + 1) s

/-! ## Numbers and words -/

/-- A fraction counts only with a digit after the point. -/
def fraction (s : Text) : Option Text × Text :=
  match s with
  | '.' :: rest =>
    if rest.takeWhile Char.isDigit = [] then (none, s)
    else (some (rest.takeWhile Char.isDigit), rest.dropWhile Char.isDigit)
  | _ => (none, s)

/-- An exponent counts only with a digit. -/
def exponent (s : Text) : Option (Bool × Text) × Text :=
  match s with
  | c :: rest =>
    let (negative, digits) := Numeral.sign rest
    if (c = 'e' ∨ c = 'E') ∧ digits.takeWhile Char.isDigit ≠ [] then
      (some (negative, digits.takeWhile Char.isDigit), digits.dropWhile Char.isDigit)
    else (none, s)
  | [] => (none, s)

/-- The digits before the point: a zero, or digits that do not start with one. -/
def wholeDigits? : Text → Option (Text × Text)
  | [] => none
  | c :: rest =>
    if c = '0' then some ([c], rest)
    else if c.isDigit then
      some (c :: rest.takeWhile Char.isDigit, rest.dropWhile Char.isDigit)
    else none

def number (s : Text) : Step JsonValue :=
  let (negative, unsigned) : Bool × Text :=
    match s with
    | '-' :: rest => (true, rest)
    | _ => (false, s)
  match wholeDigits? unsigned with
  | none => .error (.fault .expectingValue s.length)
  | some (whole, rest) =>
    let (fraction, rest) := fraction rest
    let (exponent, rest) := exponent rest
    let numeral : Numeral := ⟨negative, whole, fraction, exponent⟩
    if fraction.isSome || exponent.isSome then
      .ok (.float (numeral.float (fraction.getD [])), rest)
    else
      match numeral.integer with
      | .ok value => .ok (.integer value, rest)
      | .error cause => .error (.numeral cause)

/-- The values that are spelled as words. -/
def namedValues : List (Text × JsonValue) := [
  ("null".toList, .null), ("true".toList, .bool true), ("false".toList, .bool false),
  ("NaN".toList, .notANumber), ("Infinity".toList, .float (.infinite false)),
  ("-Infinity".toList, .float (.infinite true))]

def namedValue? (s : Text) : Option (JsonValue × Text) :=
  namedValues.findSome? fun (word, value) => (dropLeading? word s).map fun rest => (value, rest)

/-! ## Values -/

mutual

/-- The value at the start of a text; `depth` brackets are open there. -/
def valueAt (host : Host ε) : (fuel depth : Nat) → Text → Reading ε JsonValue
  | 0, _, s => .error (.stop (.fault .expectingValue s.length))
  | fuel + 1, depth, s =>
    match s with
    | [] => .error (.stop (.fault .expectingValue 0))
    | '"' :: rest =>
      (stringAfterQuote rest).reading.map fun (value, rest) => (.string value, rest)
    | '[' :: rest =>
      match host.nest depth .square with
      | some cause => .error (.host cause)
      | none =>
        match skipBlank rest with
        | ']' :: after => .ok (.array [], after)
        | inner =>
          (itemsAt host fuel (depth + 1) inner).map fun (items, rest) => (.array items, rest)
    | '{' :: rest =>
      match host.nest depth .curly with
      | some cause => .error (.host cause)
      | none =>
        match skipBlank rest with
        | '}' :: after => .ok (.object [], after)
        | inner =>
          (membersAt host fuel (depth + 1) inner).map fun (members, rest) => (.object members, rest)
    | _ =>
      match namedValue? s with
      | some found => .ok found
      | none => (number s).reading

/-- The items of an array from one of them on. -/
def itemsAt (host : Host ε) : (fuel depth : Nat) → Text → Reading ε (List JsonValue)
  | 0, _, s => .error (.stop (.fault .expectingValue s.length))
  | fuel + 1, depth, s =>
    match valueAt host fuel depth s with
    | .error halt => .error halt
    | .ok (item, rest) =>
      match skipBlank rest with
      | ']' :: after => .ok ([item], after)
      | ',' :: later =>
        (itemsAt host fuel depth (skipBlank later)).map fun (items, rest) => (item :: items, rest)
      | other => .error (.stop (.fault .expectingComma other.length))

/-- The members of an object from one of them on. -/
def membersAt (host : Host ε) : (fuel depth : Nat) → Text → Reading ε (List (Text × JsonValue))
  | 0, _, s => .error (.stop (.fault .expectingName s.length))
  | fuel + 1, depth, s =>
    match s with
    | '"' :: afterQuote =>
      match stringAfterQuote afterQuote with
      | .error stop => .error (.stop stop)
      | .ok (name, rest) =>
        match skipBlank rest with
        | ':' :: afterColon =>
          match valueAt host fuel depth (skipBlank afterColon) with
          | .error halt => .error halt
          | .ok (value, rest) =>
            match skipBlank rest with
            | '}' :: after => .ok ([(name, value)], after)
            | ',' :: later =>
              (membersAt host fuel depth (skipBlank later)).map fun (members, rest) =>
                ((name, value) :: members, rest)
            | other => .error (.stop (.fault .expectingComma other.length))
        | other => .error (.stop (.fault .expectingColon other.length))
    | other => .error (.stop (.fault .expectingName other.length))

end

/-- Every value, item and member takes a character, so that the steps allowed are enough. -/
def parse (host : Host ε) (source : Text) : Except ε (Except JsonError JsonValue) :=
  let place := fun left => source.length - left
  let outcome : Reading ε JsonValue :=
    if source.head? = some '\uFEFF' then .error (.stop (.fault .byteOrderMark source.length))
    else valueAt host (2 * source.length + 2) 0 (skipBlank source)
  match outcome with
  | .error (.host cause) => .error cause
  | .error (.stop (.fault kind left)) => .ok (.error (.malformed kind (place left)))
  | .error (.stop (.numeral cause)) => .ok (.error (.numeral cause))
  | .ok (value, rest) =>
    match skipBlank rest with
    | [] => .ok (.ok value)
    | left => .ok (.error (.malformed .extraData (place left.length)))

/-- The last member under a name. -/
def member? (members : List (Text × JsonValue)) (name : Text) : Option JsonValue :=
  (members.reverse.find? fun (known, _) => known = name).map Prod.snd

end JsonValue

end CHeader
