import CHeader.Command.Run
import CHeader.Proofs.Config
import CHeader.Proofs.Json.Halting

/-!
# Configurations that are not loaded

What is wrong with a configuration is said together with its path, unless the file is not read so far:
reading it may be refused, its bytes may be no text, and an integer in it may have too many digits. A
run has no words of its own for these, and ends there. It also ends where the system does not answer
for the path or has no room for the brackets of the document.
-/
namespace CHeader

open Text

variable {ε : Type} {host : Host ε} {tree : FileTree} {path text : Text}

namespace Config

variable {location : Location} {contents : Bytes} {cause : ConfigError} {interruption : ε}

/-- The system answers for the path, and the file that it leads to is read. -/
structure Opened (host : Host ε) (tree : FileTree) (path : Text) (location : Location)
    (contents : Bytes) : Prop where
  answered : host.lookUp path = none
  found : tree.find? path = some (location, .file contents)
  readable : tree.readable location = true

/-- Why the file at a path is not read: reading is refused, its bytes are no text, or an integer in it
has too many digits. -/
inductive Unread (host : Host ε) (tree : FileTree) (path : Text) : ConfigError → Prop
  | denied {location : Location} {contents : Bytes} (answered : host.lookUp path = none)
      (found : tree.find? path = some (location, .file contents))
      (refused : tree.readable location = false) : Unread host tree path (.denied path)
  | undecodable {location : Location} {contents : Bytes} {fault : Utf8Error}
      (opened : Opened host tree path location contents) (first : FirstFault contents fault) :
      Unread host tree path (.undecodable fault)
  | overlong {location : Location} {text : Text} {numeral : NumeralError}
      (opened : Opened host tree path location (encode text))
      (halted : JsonValue.Halted host (universalNewlines text) (.stop (.numeral numeral))) :
      Unread host tree path (.numeral numeral)

/-- What is made of a file whose text was read. -/
def ofText (host : Host ε) (path root source : Text) : Except ε (Except ConfigError Config) :=
  (parse host root source).map (·.mapError (Sum.elim (.config · path) .numeral))

end Config

namespace Program

variable {read : Arguments}

end Program

end CHeader
