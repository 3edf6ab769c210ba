import CHeader.Text.Comment
import CHeader.Text.Directive

/-!
# Flat text

Declarations are looked for in flat text: no comments, no directives, and words that are separated
by one space each.
-/
namespace CHeader.Text

def collapse (s : Text) : Text := joinWith [' '] (words s)

def flatten (s : Text) : Text := collapse (stripDirectives (stripComments s))

end CHeader.Text
