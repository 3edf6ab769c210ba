import CHeader.Parameter

/-!
# Structures and unions

In flat text a record is either a type definition, named after its closing brace, or a tagged
definition that ends right after it. Bodies hold no braces.
-/
namespace CHeader

open Text

inductive RecordKind where
  | struct
  | union
  deriving DecidableEq, Repr, Inhabited

structure Record where
  kind : RecordKind
  name : Text
  fields : List Parameter
  deriving DecidableEq, Repr, Inhabited

namespace Record

/-! ## Fields -/

/-- The type without its array dimensions: the text from the first bracket on, if it runs to a
closing bracket at the end and stays on one line. -/
def dropDimensions (type : Text) : Text :=
  match type with
  | [] => []
  | c :: rest =>
    if c = '[' ∧ rest.getLast? = some ']' ∧ '\n' ∉ rest then [] else c :: dropDimensions rest

/-- The type that further declarators of a declaration start from. -/
def baseType (type : Text) : Text :=
  dropEndWhile (fun c => c == ' ' || c == '*') (dropDimensions type)

/-- The fields of one declaration: one for each declarator with a name. Without a name for the
first there is none; a list that starts with a parenthesis in its first declarator is not split. -/
def declarationFields (declaration : Text) : List Parameter :=
  match Parameter.split declaration with
  | [] => []
  | firstText :: others =>
    let first := Parameter.parse firstText
    if first.name.isNone then []
    else if '(' ∈ firstText then [first]
    else first :: (others.map fun other =>
      Parameter.parse (baseType first.type ++ ' ' :: other)).filter (·.name.isSome)

def fieldsOf (body : Text) : List Parameter :=
  (((splitOn ';' body).map trim).filter (· ≠ [])).flatMap declarationFields

/-! ## Definitions -/

/-- The kind of record, and the text after its word. -/
def kind? (s : Text) : Option (RecordKind × Text) :=
  match dropLeading? "struct".toList s with
  | some rest => some (.struct, rest)
  | none => (dropLeading? "union".toList s).map (.union, ·)

def isBodyText (c : Char) : Bool := c != '{' && c != '}'

/-- The text between braces that hold no other brace. -/
def body? (s : Text) : Option (Text × Text) := do
  let opened ← dropLeading? ['{'] s
  let closed ← dropLeading? ['}'] (opened.dropWhile isBodyText)
  return (opened.takeWhile isBodyText, closed)

/-- A record that is given a name by a type definition; its tag does not matter. -/
def typedef? (s : Text) : Option (Record × Text) := do
  let rest ← blank? (← dropLeading? "typedef".toList s)
  let (kind, rest) ← kind? rest
  let afterTag := (trimStart rest).dropWhile isWord
  let (body, rest) ← body? (trimStart afterTag)
  let (name, rest) ← word? (trimStart rest)
  let rest ← dropLeading? [';'] (trimStart rest)
  return (⟨kind, name, fieldsOf body⟩, rest)

/-- A record that goes by its tag. -/
def tagged? (s : Text) : Option (Record × Text) := do
  let (kind, rest) ← kind? s
  let (tag, rest) ← word? (← blank? rest)
  let (body, rest) ← body? (trimStart rest)
  let rest ← dropLeading? [';'] (trimStart rest)
  return (⟨kind, tag, fieldsOf body⟩, rest)

def definition? (s : Text) : Option (Record × Text) :=
  match typedef? s with
  | some found => some found
  | none => tagged? s

theorem kind?_length {s rest : Text} {kind : RecordKind} (found : kind? s = some (kind, rest)) :
    rest.length < s.length := by
  unfold kind? at found
  split at found
  next after leads =>
    cases found
    have sum := dropLeading?_length leads
    simp at sum
    omega
  next =>
    obtain ⟨after, leads, pair⟩ := Option.map_eq_some_iff.mp found
    cases pair
    have sum := dropLeading?_length leads
    simp at sum
    omega

theorem body?_length {s body rest : Text} (found : body? s = some (body, rest)) :
    rest.length < s.length := by
  simp only [body?, Option.bind_eq_bind, Option.bind_eq_some_iff] at found
  obtain ⟨opened, opens, closed, closes, pair⟩ := found
  cases pair
  have first := dropLeading?_length opens
  have second := dropLeading?_length closes
  have inner := (List.dropWhile_suffix (l := opened) isBodyText).length_le
  simp only [List.length_cons, List.length_nil] at first second
  omega

theorem typedef?_length {s rest : Text} {record : Record}
    (found : typedef? s = some (record, rest)) : rest.length < s.length := by
  simp only [typedef?, Option.bind_eq_bind, Option.bind_eq_some_iff] at found
  obtain ⟨s₁, typedefs, s₂, blanks, ⟨kind, s₃⟩, kinds, ⟨body, s₄⟩, bodies, ⟨name, s₅⟩, names,
    s₆, ends, pair⟩ := found
  cases pair
  have h₁ := dropLeading?_length typedefs
  have h₂ := blank?_length blanks
  have h₃ := kind?_length kinds
  have h₄ := body?_length bodies
  have h₅ := word?_length names
  have h₆ := dropLeading?_length ends
  dsimp only at h₂ h₃ h₄ h₅ h₆
  have t₁ := trimStart_length s₃
  have t₂ := (List.dropWhile_suffix (l := trimStart s₃) isWord).length_le
  have t₃ := trimStart_length ((trimStart s₃).dropWhile isWord)
  have t₄ := trimStart_length s₄
  have t₅ := trimStart_length s₅
  omega

theorem tagged?_length {s rest : Text} {record : Record}
    (found : tagged? s = some (record, rest)) : rest.length < s.length := by
  simp only [tagged?, Option.bind_eq_bind, Option.bind_eq_some_iff] at found
  obtain ⟨⟨kind, s₁⟩, kinds, s₂, blanks, ⟨tag, s₃⟩, tags, ⟨body, s₄⟩, bodies, s₅, ends, pair⟩ := found
  cases pair
  have h₁ := kind?_length kinds
  have h₂ := blank?_length blanks
  have h₃ := word?_length tags
  have h₄ := body?_length bodies
  have h₅ := dropLeading?_length ends
  dsimp only at h₁ h₂ h₃ h₄ h₅
  have t₁ := trimStart_length s₃
  have t₂ := trimStart_length s₄
  omega

theorem definition?_length {s rest : Text} {record : Record}
    (found : definition? s = some (record, rest)) : rest.length < s.length := by
  unfold definition? at found
  split at found
  next result typedefs =>
    cases found
    exact typedef?_length typedefs
  next => exact tagged?_length found

/-- A definition starts at the beginning of a word. -/
def definitionAt? (afterWord : Bool) (s : Text) : Option (Record × Text) :=
  if afterWord then none else definition? s

theorem definitionAt?_length {afterWord : Bool} {s rest : Text} {record : Record}
    (found : definitionAt? afterWord s = some (record, rest)) : rest.length < s.length := by
  unfold definitionAt? at found
  split at found
  · cases found
  · exact definition?_length found

/-- The records of a flat text from a position on; definitions do not overlap. -/
def extractFrom (afterWord : Bool) (s : Text) : List Record :=
  match s with
  | [] => []
  | c :: rest =>
    match found : definitionAt? afterWord (c :: rest) with
    | some (record, after) =>
      have := definitionAt?_length found
      record :: extractFrom false after
    | none => extractFrom (isWord c) rest
termination_by s.length
decreasing_by
  · assumption
  · exact Nat.lt_succ_self _

def extract (flat : Text) : List Record := extractFrom false flat

end Record

end CHeader
