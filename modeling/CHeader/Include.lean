import CHeader.Text.Scan

/-!
# Include directives

An include directive names a file between delimiters. Opening and closing delimiter need not pair,
and the directive need not stand at the start of a line.
-/
namespace CHeader.Include

open Text

def isNameChar (c : Char) : Bool := c != '>' && c != '"'

def keyword : Text := ['i', 'n', 'c', 'l', 'u', 'd', 'e']

/-- The name in the directive at the start of a text, and what follows the directive. -/
def directive? (s : Text) : Option (Text × Text) := do
  let s ← dropLeading? ['#'] s
  let s ← dropLeading? keyword (trimStart s)
  match trimStart s with
  | c :: opened =>
    if (c = '<' ∨ c = '"') ∧ opened.takeWhile isNameChar ≠ [] then
      match opened.dropWhile isNameChar with
      | _ :: rest => some (opened.takeWhile isNameChar, rest)
      | [] => none
    else none
  | [] => none

theorem directive?_length {s name rest : Text} (found : directive? s = some (name, rest)) :
    rest.length < s.length := by
  simp only [directive?, Option.bind_eq_bind, Option.bind_eq_some_iff] at found
  obtain ⟨s₁, signs, s₂, keywords, found⟩ := found
  have h₁ := dropLeading?_length signs
  have h₂ := dropLeading?_length keywords
  have t₁ := trimStart_length s₁
  have t₂ := trimStart_length s₂
  split at found
  next c opened starts =>
    split at found
    next =>
      split at found
      next closing after closes =>
        cases found
        have inner := (List.dropWhile_suffix (l := opened) isNameChar).length_le
        rw [closes, List.length_cons] at inner
        rw [starts, List.length_cons] at t₂
        omega
      next => cases found
    next => cases found
  next => cases found

/-- The names of all directives, in order. -/
def names (s : Text) : List Text :=
  match s with
  | [] => []
  | c :: rest =>
    match found : directive? (c :: rest) with
    | some (name, after) =>
      have := directive?_length found
      name :: names after
    | none => names rest
termination_by s.length
decreasing_by
  · assumption
  · exact Nat.lt_succ_self _

/-- The names in the order in which they are first included. -/
def extract (raw : Text) : List Text := (names raw).eraseDups

end CHeader.Include
