import CHeader.Error

/-!
# Reading headers

A header is read as UTF-8 text with line feeds for line breaks; faulty bytes become replacement
characters.
-/
namespace CHeader

open Text

def readHeader (tree : FileTree) (path : Text) : Except HeaderError Text :=
  let path := Path.tidy path
  match tree.find? path with
  | some (location, .file contents) =>
    match tree.denials.get? location with
    | some .access | some .both => .error (.notReadable path [])
    | some .read => .error (.notReadable path (permissionDenied path))
    | none => .ok (universalNewlines (decodeReplacing contents))
  | _ => .error (.notFound path)

end CHeader
