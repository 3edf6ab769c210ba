import CHeader.Error

/-!
# The log

What a resolution or an analysis did, in order. Opening a file is an event that the log does not
show.
-/
namespace CHeader

open Text

inductive LogLevel where
  | debug
  | warning
  deriving DecidableEq, Repr

inductive Event where
  | opened (path : Text)
  | cacheHit (path : Text)
  | missing (name includedFrom : Text)
  | notFollowed (path : Text) (cause : HeaderError)
  | leaf (path : Text) (cause : HeaderError)
  | ordered (headers : List Text)
  | nestedField (record : Text)
  | analyzed (path : Text) (functions records constants includes : Nat)
  | configured (projectRoot extractor : Text)
  deriving DecidableEq, Repr

namespace Event

def count (n : Nat) : Text := Nat.toDigits 10 n

def record? : Event → Option (LogLevel × Text)
  | .opened _ => none
  | .cacheHit path => some (.debug, "Dependency cache hit for ".toList ++ path)
  | .missing name includedFrom =>
    some (.debug, "Include ".toList ++ name ++ " from ".toList ++ includedFrom ++
      " not found, skipping".toList)
  | .notFollowed path cause =>
    some (.warning, "Not following includes of ".toList ++ path ++ ": ".toList ++ cause.message)
  | .leaf path cause =>
    some (.warning, "Treating ".toList ++ path ++ " as a leaf: ".toList ++ cause.message)
  | .ordered headers =>
    some (.debug, "Compilation order for ".toList ++ count headers.length ++ " headers: ".toList ++
      quoteList headers)
  | .nestedField record => some (.debug, "Skipping nested record field in ".toList ++ record)
  | .analyzed path functions records constants includes =>
    some (.debug, "Analyzed ".toList ++ path ++ ": ".toList ++ count functions ++
      " functions, ".toList ++ count records ++ " structures, ".toList ++ count constants ++
      " constants, ".toList ++ count includes ++ " includes".toList)
  | .configured projectRoot extractor =>
    some (.debug, "Project root ".toList ++ projectRoot ++ ", extractor ".toList ++ extractor)

end Event

end CHeader
