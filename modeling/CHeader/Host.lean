import CHeader.Text.Basic

/-!
# The system below

A program is also stopped by what it runs on: a question about a path may not be answered, and there
may be no room to read a document whose brackets are nested deeply. When this happens differs from one
system to the next, and so does what is raised.
-/
namespace CHeader

open Text

/-- A bracket of a document. -/
inductive Bracket where
  | square
  | curly
  deriving DecidableEq, Repr

namespace Bracket

def opening : Bracket → Char
  | square => '['
  | curly => '{'

def closing : Bracket → Char
  | square => ']'
  | curly => '}'

end Bracket

/-- What a system raises when it is asked for a path, and when a bracket is opened within a number of
others. -/
structure Host (ε : Type) where
  lookUp : Text → Option ε
  nest : Nat → Bracket → Option ε

namespace Host

/-- A system that answers every question and has room for every document. -/
def ample : Host Empty := ⟨fun _ => none, fun _ _ => none⟩

/-- What is done on a system that raises nothing is done. -/
def settle {α : Type} : Except Empty α → α
  | .ok outcome => outcome
  | .error cause => cause.elim

end Host

end CHeader
