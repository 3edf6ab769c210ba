import CHeader.Text.Basic

/-!
# Bytes and characters

Reading UTF-8 takes one character or one faulty sequence at a time. A faulty sequence is as long as
the bytes that could have begun a character, so that reading goes on at the next possible start.
-/
namespace CHeader.Text

abbrev Bytes := List UInt8

inductive Utf8Fault where
  | invalidStart
  | invalidContinuation
  | unexpectedEnd
  deriving DecidableEq, Repr

/-- A character, or the length of a faulty sequence and its fault. -/
inductive Utf8Step where
  | char (c : Char) (length : Nat)
  | fault (kind : Utf8Fault) (length : Nat)
  deriving DecidableEq, Repr

def isContinuation (b : UInt8) : Bool := 0x80 ≤ b && b < 0xC0

/-- The number of bytes of a character that starts with a byte. -/
def sequenceLength (first : UInt8) : Nat :=
  if first < 0x80 then 1
  else if first < 0xC2 then 0
  else if first < 0xE0 then 2
  else if first < 0xF0 then 3
  else if first < 0xF5 then 4
  else 0

/-- May the second byte follow the first? Overlong forms, surrogates and values beyond the last code
point are ruled out here. -/
def isSecond (first second : UInt8) : Bool :=
  isContinuation second &&
    (first != 0xE0 || 0xA0 ≤ second) && (first != 0xED || second < 0xA0) &&
    (first != 0xF0 || 0x90 ≤ second) && (first != 0xF4 || second < 0x90)

/-- How many of the bytes after the first one fit, up to `wanted`. -/
def fitting (first : UInt8) (wanted : Nat) (rest : Bytes) : Nat :=
  match wanted, rest with
  | wanted + 1, second :: later =>
    if isSecond first second then 1 + ((later.take wanted).takeWhile isContinuation).length else 0
  | _, _ => 0

/-- The bits that a byte adds to a code point. -/
def sequenceValue (length : Nat) (first : UInt8) (rest : Bytes) : Nat :=
  let lead := first.toNat % Nat.pow 2 (if length = 1 then 7 else 7 - length)
  (rest.take (length - 1)).foldl (fun value b => value * 64 + b.toNat % 64) lead

/-- The step at a first byte with the bytes after it. -/
def utf8Step (first : UInt8) (rest : Bytes) : Utf8Step :=
  let length := sequenceLength first
  if length = 0 then .fault .invalidStart 1
  else
    let fits := fitting first (length - 1) rest
    if fits + 1 = length then .char (Char.ofNat (sequenceValue length first rest)) length
    else if rest.length = fits then .fault .unexpectedEnd (fits + 1)
    else .fault .invalidContinuation (fits + 1)

/-- Read a text; each faulty sequence becomes one replacement character. -/
def decodeReplacing (bytes : Bytes) : Text :=
  match bytes with
  | [] => []
  | first :: rest =>
    match utf8Step first rest with
    | .char c length => c :: decodeReplacing (rest.drop (length - 1))
    | .fault _ length => '\uFFFD' :: decodeReplacing (rest.drop (length - 1))
termination_by bytes.length
decreasing_by all_goals simp only [List.length_drop, List.length_cons]; omega

/-- Where a faulty sequence stands, and its bytes. -/
structure Utf8Error where
  kind : Utf8Fault
  position : Nat
  bytes : Bytes
  deriving DecidableEq, Repr

/-- Read a text from a byte position on, up to the first faulty sequence. -/
def decodeFrom (position : Nat) (bytes : Bytes) : Except Utf8Error Text :=
  match bytes with
  | [] => .ok []
  | first :: rest =>
    match utf8Step first rest with
    | .char c length => (decodeFrom (position + length) (rest.drop (length - 1))).map (c :: ·)
    | .fault kind length => .error ⟨kind, position, (first :: rest).take length⟩
termination_by bytes.length
decreasing_by simp only [List.length_drop, List.length_cons]; omega

def decode? (bytes : Bytes) : Except Utf8Error Text := decodeFrom 0 bytes

def encode (s : Text) : Bytes := s.flatMap String.utf8EncodeChar

/-- Line breaks of every convention become line feeds. -/
def universalNewlines : Text → Text
  | [] => []
  | '\r' :: '\n' :: rest => '\n' :: universalNewlines rest
  | c :: rest => (if c = '\r' then '\n' else c) :: universalNewlines rest

/-- What the fault is, in words. -/
def Utf8Fault.reason : Utf8Fault → Text
  | .invalidStart => "invalid start byte".toList
  | .invalidContinuation => "invalid continuation byte".toList
  | .unexpectedEnd => "unexpected end of data".toList

end CHeader.Text
