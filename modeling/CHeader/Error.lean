import CHeader.Number.Numeral
import CHeader.Number.Shortest
import CHeader.Text.Quoted
import CHeader.Text.Utf8
import CHeader.File.Canonical

/-!
# Errors

What can go wrong with a header or with a set of headers, and how it is reported: a message, the file
that it is about, and a suggestion where there is one.
-/
namespace CHeader

open Text

inductive HeaderError where
  | notFound (path : Text)
  /-- The reason is empty if nothing more is known. -/
  | notReadable (path reason : Text)
  deriving DecidableEq, Repr

/-- Why headers cannot be resolved or ordered. -/
inductive ResolveError where
  | header (cause : HeaderError)
  | circular (header : Text)
  | path (cause : PathError)
  deriving DecidableEq, Repr

structure Report where
  message : Text
  path : Option Text
  suggestion : Option Text
  deriving DecidableEq, Repr

def HeaderError.message : HeaderError → Text
  | .notFound path => "Header file not found: ".toList ++ path
  | .notReadable path reason =>
    "Header file is not readable: ".toList ++ path ++
      (if reason = [] then [] else " (".toList ++ reason ++ [')'])

def HeaderError.report : HeaderError → Report
  | .notFound path => {
      message := (HeaderError.notFound path).message
      path := some path
      suggestion :=
        some "Check that the header file path is correct and the file exists".toList }
  | .notReadable path reason => {
      message := (HeaderError.notReadable path reason).message
      path := some path
      suggestion := some "Check the file permissions".toList }

def circularReport (header : Text) : Report := {
  message := "Circular dependency detected involving: ".toList ++ header
  path := some header
  suggestion := some "Break the include cycle or add forward declarations".toList }

def PathError.message : PathError → Text
  | .nullCharacter => "embedded null byte".toList

/-- The words for integers that are longer than the limit on their digits. -/
def digitLimitExceeded : Text :=
  "Exceeds the limit (".toList ++ Decimal.digitsOf Numeral.digitLimit ++
    " digits) for integer string conversion".toList

def digitLimitAdvice : Text :=
  "; use sys.set_int_max_str_digits() to increase the limit".toList

def NumeralError.message : NumeralError → Text
  | .tooManyDigits count =>
    digitLimitExceeded ++ ": value has ".toList ++ Decimal.digitsOf count ++ " digits".toList ++
      digitLimitAdvice
  | .exponentOutOfRange => "[<class 'decimal.InvalidOperation'>]".toList

/-- The words for a faulty sequence: its byte or its bytes, and where they stand. -/
def Text.Utf8Error.message (e : Utf8Error) : Text :=
  let place : Text :=
    match e.bytes with
    | [byte] =>
      "byte 0x".toList ++ hex 2 byte.toNat ++ " in position ".toList ++
        Decimal.digitsOf e.position
    | bytes =>
      "bytes in position ".toList ++ Decimal.digitsOf e.position ++ '-' ::
        Decimal.digitsOf (e.position + bytes.length - 1)
  "'utf-8' codec can't decode ".toList ++ place ++ ": ".toList ++ e.kind.reason

/-- The words in which a system refuses to open a file. -/
def permissionDenied (path : Text) : Text :=
  "[Errno 13] Permission denied: ".toList ++ quote path

/-- The words in which a system says why it cannot write under a path. -/
def FileTree.WriteFault.message (path : Text) : FileTree.WriteFault → Text
  | .missing => "[Errno 2] No such file or directory: ".toList ++ quote path
  | .notDirectory => "[Errno 20] Not a directory: ".toList ++ quote path
  | .directory => "[Errno 21] Is a directory: ".toList ++ quote path
  | .tooManyLinks => "[Errno 40] Too many levels of symbolic links: ".toList ++ quote path

end CHeader
