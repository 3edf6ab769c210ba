import CHeader.Console.Style

/-!
# Markup

Tags in brackets set the style of the text between them and are not shown. A tag begins with a small
letter, `#`, `/` or `@`; other brackets are text. Before a tag, two backslashes show one backslash,
and a backslash left over shows the tag as text. A closing tag closes the innermost open tag of its
name, or the innermost one at all if it has no name. Tags that stay open do no harm.

This is how the renderer at hand reads markup. Others may be stricter; nothing that is proved of the
program depends on which one it is given.
-/
namespace CHeader.Console

open Text

structure Tag where
  name : Text
  /-- What follows an equals sign. -/
  parameters : Option Text
  deriving DecidableEq, Repr

/-- Why a text is no markup: a closing tag with nothing to close. -/
inductive MarkupError where
  | unmatched (tag : Tag) (position : Nat)
  | nothingOpen (position : Nat)
  deriving DecidableEq, Repr

namespace Tag

def ofText (body : Text) : Tag :=
  match body.dropWhile (· ≠ '=') with
  | [] => ⟨body, none⟩
  | _ :: parameters => ⟨body.takeWhile (· ≠ '='), some parameters⟩

def toText (tag : Tag) : Text :=
  match tag.parameters with
  | none => '[' :: tag.name ++ [']']
  | some parameters => '[' :: tag.name ++ '=' :: parameters ++ [']']

end Tag

namespace MarkupError

def message : MarkupError → Text
  | unmatched tag position =>
    "closing tag '".toList ++ tag.toText ++ "' at position ".toList ++ (toString position).toList ++
      " doesn't match any open tag".toList
  | nothingOpen position =>
    "closing tag '[/]' at position ".toList ++ (toString position).toList ++
      " has nothing to close".toList

end MarkupError

namespace Markup

/-! ## Finding tags -/

def opensTag (c : Char) : Bool := ('a' ≤ c && c ≤ 'z') || c == '#' || c == '/' || c == '@'

/-- The text before the next closing bracket, if no bracket opens before it, and what follows. -/
def untilBracket? : Text → Option (Text × Text)
  | [] => none
  | c :: rest =>
    if c = ']' then some ([], rest)
    else if c = '[' then none
    else (untilBracket? rest).map fun (body, after) => (c :: body, after)

/-- The inside of a tag at the start, and what follows. -/
def tag? : Text → Option (Text × Text)
  | '[' :: c :: rest =>
    if opensTag c then (untilBracket? rest).map fun (body, after) => (c :: body, after) else none
  | _ => none

/-- A tag after any number of backslashes. -/
def escapedTag? : Text → Option (Nat × Text × Text)
  | [] => none
  | c :: rest =>
    if c = '\\' then (escapedTag? rest).map fun (count, found) => (count + 1, found)
    else (tag? (c :: rest)).map fun found => (0, found)

theorem untilBracket?_length {s body after : Text} (found : untilBracket? s = some (body, after)) :
    s.length = body.length + after.length + 1 := by
  induction s generalizing body with
  | nil => cases found
  | cons c rest ih =>
    rw [untilBracket?] at found
    split at found
    · cases found
      simp
    · split at found
      · cases found
      · obtain ⟨⟨inner, after'⟩, step, same⟩ := Option.map_eq_some_iff.mp found
        cases same
        have shorter := ih step
        simp only [List.length_cons]
        omega

theorem tag?_length {s body after : Text} (found : tag? s = some (body, after)) :
    s.length = body.length + after.length + 2 := by
  unfold tag? at found
  split at found
  · split at found
    · obtain ⟨⟨inner, after'⟩, step, same⟩ := Option.map_eq_some_iff.mp found
      cases same
      have shorter := untilBracket?_length step
      simp only [List.length_cons]
      omega
    · cases found
  · cases found

theorem escapedTag?_length {s body after : Text} {count : Nat}
    (found : escapedTag? s = some (count, body, after)) :
    s.length = count + body.length + after.length + 2 := by
  induction s generalizing count with
  | nil => cases found
  | cons c rest ih =>
    rw [escapedTag?] at found
    split at found
    · obtain ⟨⟨fewer, body', after'⟩, step, same⟩ := Option.map_eq_some_iff.mp found
      cases same
      have shorter := ih step
      simp only [List.length_cons]
      omega
    · obtain ⟨⟨body', after'⟩, step, same⟩ := Option.map_eq_some_iff.mp found
      cases same
      have shorter := tag?_length step
      omega

/-! ## Rendering -/

/-- A part of a marked-up text: text that is shown, or a tag at its position. -/
inductive Piece where
  | shown (text : Text)
  | tag (position : Nat) (tag : Tag)
  deriving DecidableEq, Repr

/-- The parts of a markup text that starts at a position. -/
def pieces (position : Nat) (s : Text) : List Piece :=
  match found : escapedTag? s with
  | some (count, body, after) =>
    have : after.length < s.length := by
      have whole := escapedTag?_length found
      omega
    let rest := pieces (position + count + body.length + 2) after
    let backslashes := Piece.shown (List.replicate (count / 2) '\\')
    if count % 2 = 1 then backslashes :: .shown ('[' :: body ++ [']']) :: rest
    else backslashes :: .tag (position + count) (Tag.ofText body) :: rest
  | none =>
    match s with
    | [] => []
    | c :: rest =>
      if c = '\\' ∧ rest.head? = some '[' then .shown ['['] :: pieces (position + 2) (rest.drop 1)
      else .shown [c] :: pieces (position + 1) rest
termination_by s.length

/-- The open tags after a closing tag, innermost first. -/
def close (position : Nat) (closing : Tag) (active : List Text) : Except MarkupError (List Text) :=
  match trim (closing.name.drop 1) with
  | [] =>
    match active with
    | [] => .error (.nothingOpen position)
    | _ :: outer => .ok outer
  | name =>
    if Style.normalForm name ∈ active then .ok (active.erase (Style.normalForm name))
    else .error (.unmatched closing position)

/-- The text that is shown, given the names of the open tags, innermost first. -/
def shownText (active : List Text) : List Piece → Except MarkupError Text
  | [] => .ok []
  | .shown text :: rest => (shownText active rest).map (text ++ ·)
  | .tag position tag :: rest =>
    if tag.name.head? = some '/' then
      match close position tag active with
      | .ok active => shownText active rest
      | .error cause => .error cause
    else shownText (Style.normalForm tag.name :: active) rest

/-- Characters that move the cursor and are never shown. -/
def isCursorControl (c : Char) : Bool := c.toNat ∈ [7, 8, 11, 12, 13]

/-- The text that a markup text shows. -/
def render (markup : Text) : Except MarkupError Text :=
  (shownText [] (pieces 0 markup)).map (·.filter (!isCursorControl ·))

/-! ## Escaping -/

/-- Put a backslash before each tag, and double those that stand there already. -/
def escapeTags (s : Text) : Text :=
  match found : escapedTag? s with
  | some (count, body, after) =>
    have : after.length < s.length := by
      have whole := escapedTag?_length found
      omega
    List.replicate (2 * count + 1) '\\' ++ '[' :: body ++ ']' :: escapeTags after
  | none =>
    match s with
    | [] => []
    | c :: rest => c :: escapeTags rest
termination_by s.length

/-- The markup for a text as it is. A single backslash at its end is doubled, lest it escape a tag
that follows. -/
def escape (s : Text) : Text :=
  match (escapeTags s).reverse with
  | '\\' :: '\\' :: _ => escapeTags s
  | '\\' :: _ => escapeTags s ++ ['\\']
  | _ => escapeTags s

end Markup

end CHeader.Console
