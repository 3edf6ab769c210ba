import CHeader.Text.Basic

/-!
# Syntax trees

A node of a parsed header has a type, the field under which its parent holds it, and the part of the
source that it covers, in bytes of its UTF-8 form.
-/
namespace CHeader

open Text

structure Node where
  type : Text
  field : Option Text
  named : Bool
  start : Nat
  stop : Nat
  children : List Node
  deriving Repr, Inhabited

namespace Node

/-- The first child under a field. -/
def child? (node : Node) (field : String) : Option Node :=
  node.children.find? fun child => child.field = some field.toList

/-- All children under a field. -/
def childrenAt (node : Node) (field : String) : List Node :=
  node.children.filter fun child => child.field = some field.toList

def isOfType (node : Node) (type : String) : Bool := node.type = type.toList

mutual

/-- Every node with its parent, parents first. Function bodies are not entered. -/
def walk (parent : Option Node) : Node → List (Option Node × Node)
  | ⟨type, field, named, start, stop, children⟩ =>
    let node : Node := ⟨type, field, named, start, stop, children⟩
    (parent, node) :: walkAll node children

def walkAll (parent : Node) : List Node → List (Option Node × Node)
  | [] => []
  | child :: rest =>
    (if child.isOfType "compound_statement" then [] else walk (some parent) child) ++
      walkAll parent rest

end

mutual

/-- How many pointer declarators are nested around a declarator, and what they end in. -/
def pointee? : Node → Nat × Option Node
  | ⟨type, field, named, start, stop, children⟩ =>
    if type = "pointer_declarator".toList then
      ((innerPointee? children).1 + 1, (innerPointee? children).2)
    else (0, some ⟨type, field, named, start, stop, children⟩)

def innerPointee? : List Node → Nat × Option Node
  | [] => (0, none)
  | child :: rest =>
    if child.field = some "declarator".toList then pointee? child else innerPointee? rest

end

end Node

/-- The characters of a source that start within a range of its bytes. -/
def sliceBytes (start stop : Nat) : (source : Text) → Text
  | [] => []
  | c :: rest =>
    if stop = 0 then []
    else if start = 0 then c :: sliceBytes 0 (stop - c.utf8Size) rest
    else sliceBytes (start - c.utf8Size) (stop - c.utf8Size) rest

def Node.sourceText (source : Text) (node : Node) : Text := sliceBytes node.start node.stop source

end CHeader
