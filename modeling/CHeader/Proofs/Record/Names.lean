import CHeader.Proofs.Record.Member
import Mathlib.Data.List.Flatten

/-!
# Names of fields

A declaration of members is read as fields, in order, under the names that its members are read under:
none of them if the first member has no name, and only the first one if that holds a parenthesis. So the
fields have names that were declared, as long as no width of a bit field is read as a name.
-/
namespace CHeader.Record

open Text Parameter

/-! ## How declarations are written -/

/-- A further member of a declaration, with the blank space on both sides of its comma. -/
structure FurtherMember where
  before : Gap
  behind : Gap
  stars : Stars
  solid : ∀ c ∈ stars.text.head?, c = '*'
  member : Member

def FurtherMember.text (further : FurtherMember) : Text := further.stars.text ++ further.member.text

/-- A type, what separates the first member from it, and the members. -/
structure Members where
  base : Base
  stars : Stars
  apart : stars.text ≠ []
  first : Member
  others : List FurtherMember

namespace Members

def firstText (members : Members) : Text :=
  members.base.text ++ members.stars.text ++ members.first.text

def text (members : Members) : Text :=
  members.firstText ++ members.others.flatMap fun further =>
    further.before.text ++ ',' :: (further.behind.text ++ further.text)

def all (members : Members) : List Member := members.first :: members.others.map (·.member)

def names (members : Members) : List Identifier := members.all.map Member.name

/-- The names that a declaration is reported under: none if the first member has none, and only the
first one if it holds a parenthesis. -/
def reported (members : Members) : List Text :=
  match members.first.reported with
  | none => []
  | some name =>
    if '(' ∈ members.firstText then [name]
    else name :: members.others.filterMap (·.member.reported)

end Members

/-- A declaration of members, or none, between blank space. -/
structure Entry where
  opening : Gap
  members : Option Members
  closing : Gap

def Entry.text (entry : Entry) : Text :=
  entry.opening.text ++ (entry.members.elim [] Members.text) ++ entry.closing.text

def writtenMembers (entries : List Entry) : Text := joinWith [';'] (entries.map Entry.text)

/-! ## Declarations of members -/

theorem trim_between (opening closing : Gap) {s : Text} (starts : Starts s) (ends : Ends s) :
    trim (opening.text ++ s ++ closing.text) = s := by
  rw [List.append_assoc, trim, trimStart_append_of_blank opening.blank, ← trim]
  exact trim_append starts ends closing.blank

namespace FurtherMember

theorem starts (further : FurtherMember) : Starts further.text := by
  by_cases bare : further.stars.text = []
  · rw [text, bare]
    exact further.member.starts
  · obtain ⟨c, rest, whole⟩ := List.exists_cons_of_ne_nil bare
    obtain rfl := further.solid c (by rw [whole]; rfl)
    rw [text, whole]
    exact starts_cons (by decide) _

theorem ends (further : FurtherMember) : Ends further.text := further.member.ends.append _

theorem uncuttable (further : FurtherMember) : Uncuttable further.text :=
  (uncuttable_typeChars further.stars.chars).append further.member.uncuttable

end FurtherMember

/-- The pieces between the commas, each with the blank space around it. -/
def pieces (opening : Gap) (text : Text) : List FurtherMember → List Text
  | [] => [opening.text ++ text]
  | further :: others =>
    (opening.text ++ text ++ further.before.text) :: pieces further.behind further.text others

theorem pieces_ne_nil (opening : Gap) (text : Text) (others : List FurtherMember) :
    pieces opening text others ≠ [] := by
  cases others <;> simp [pieces]

theorem joinWith_pieces (opening : Gap) (text : Text) (others : List FurtherMember) :
    joinWith [','] (pieces opening text others) = opening.text ++ text ++
      others.flatMap fun further =>
        further.before.text ++ ',' :: (further.behind.text ++ further.text) := by
  induction others generalizing opening text with
  | nil => simp [pieces, joinWith]
  | cons further others ih =>
    rw [pieces, joinWith_cons_of_ne_nil _ _ (pieces_ne_nil _ _ others), ih]
    simp

theorem uncuttable_pieces (opening : Gap) {text : Text} (uncuttable : Uncuttable text)
    (others : List FurtherMember) : ∀ piece ∈ pieces opening text others, Uncuttable piece := by
  induction others generalizing opening text with
  | nil => simpa [pieces] using (uncuttable_gap opening).append uncuttable
  | cons further others ih =>
    rw [pieces, List.forall_mem_cons]
    exact ⟨((uncuttable_gap opening).append uncuttable).append (uncuttable_gap further.before),
      ih further.behind further.uncuttable⟩

theorem trim_pieces (opening : Gap) {text : Text} (starts : Starts text) (ends : Ends text)
    (others : List FurtherMember) :
    (pieces opening text others).map trim = text :: others.map FurtherMember.text := by
  induction others generalizing opening text with
  | nil => simpa [pieces, Gap.empty] using trim_between opening .empty starts ends
  | cons further others ih =>
    rw [pieces, List.map_cons, trim_between opening further.before starts ends,
      ih further.behind further.starts further.ends, List.map_cons]

namespace Members

theorem ahead (members : Members) :
    Ahead members.base (members.base.text ++ members.stars.text) :=
  ⟨⟨_, rfl, members.stars.continuation⟩, members.stars.separates members.apart _⟩

theorem uncuttable_firstText (members : Members) : Uncuttable members.firstText := by
  have base : Uncuttable members.base.text :=
    uncuttable_typeChars fun c member => (mem_phrase member).imp_right Or.inl
  exact (base.append (uncuttable_typeChars members.stars.chars)).append members.first.uncuttable

theorem text_eq_joinWith (members : Members) :
    members.text = joinWith [','] (pieces .empty members.firstText members.others) := by
  rw [joinWith_pieces]
  rfl

theorem split_text (members : Members) :
    Parameter.split members.text = members.firstText :: members.others.map FurtherMember.text := by
  have uncuttable := uncuttable_pieces .empty members.uncuttable_firstText members.others
  have trimmed := trim_pieces .empty (members.ahead.starts members.first)
    (members.first.ends.append _) members.others
  rw [text_eq_joinWith, split_joinWith_comma (pieces_ne_nil _ _ _)
    (fun piece member => ⟨(uncuttable piece member).level, (uncuttable piece member).whole⟩)]
  · exact trimmed
  · intro piece member
    have filled : trim piece ∈ members.firstText :: members.others.map FurtherMember.text :=
      trimmed ▸ List.mem_map_of_mem member
    rcases List.mem_cons.mp filled with first | later
    · rw [first]
      exact (members.ahead.starts members.first).ne_nil
    · obtain ⟨further, -, same⟩ := List.mem_map.mp later
      rw [← same]
      exact further.starts.ne_nil

theorem starts (members : Members) : Starts members.text :=
  (members.ahead.starts members.first).append _

theorem ends (members : Members) : Ends members.text := by
  obtain none | ⟨front, last, some⟩ := List.eq_nil_or_concat members.others
  · rw [text, none, List.flatMap_nil, List.append_nil]
    exact members.first.ends.append _
  · rw [text, some, List.concat_eq_append, List.flatMap_append, List.flatMap_singleton]
    exact ((((last.ends.append last.behind.text).append [',']).append last.before.text).append
      _).append _

theorem not_mem_semicolon (members : Members) : ';' ∉ members.text := by
  rw [text_eq_joinWith]
  exact not_mem_joinWith (by decide) fun piece member =>
    (uncuttable_pieces _ members.uncuttable_firstText _ piece member).single

/-- Further members without a name are left out. -/
theorem names_others {base : Base} {type : Text} (longer : Extends base type)
    (others : List FurtherMember) :
    (((others.map FurtherMember.text).map fun other => parse (type ++ ' ' :: other)).filter
      (·.name.isSome)).map (·.name) = (others.filterMap (·.member.reported)).map some := by
  induction others with
  | nil => rfl
  | cons further others ih =>
    have read := (longer.ahead further.stars).parse_name further.member
    rw [List.append_assoc, List.cons_append] at read
    simp only [List.map_cons, List.filter_cons, List.filterMap_cons, FurtherMember.text] at ih ⊢
    rw [read]
    cases name : further.member.reported with
    | none => exact ih
    | some name =>
      simp only [Option.isSome_some, ↓reduceIte, List.map_cons, read, name]
      rw [ih]

theorem names_declarationFields (members : Members) :
    (declarationFields members.text).map (·.name) = members.reported.map some := by
  have first : (parse members.firstText).name = members.first.reported :=
    members.ahead.parse_name members.first
  rw [declarationFields, members.split_text, reported]
  cases read : members.first.reported with
  | none =>
    dsimp only
    rw [first, read]
    rfl
  | some name =>
    dsimp only
    rw [first, read, if_neg (by simp)]
    by_cases opening : '(' ∈ members.firstText
    · rw [if_pos opening, if_pos opening]
      simp [first, read]
    · -- the others are read behind the type that is left of the first field
      rw [if_neg opening, if_neg opening]
      have plain : '(' ∉ members.first.text := fun inside => opening (List.mem_append_right _ inside)
      have longer := members.ahead.baseType_parse plain (by simp [read])
      rw [List.map_cons, first, read, List.map_cons, ← names_others longer members.others]
      rfl

end Members

/-! ## Bodies of declarations -/

theorem trim_entry (entry : Entry) :
    trim entry.text = entry.members.elim [] Members.text := by
  obtain ⟨opening, members, closing⟩ := entry
  cases members with
  | none =>
    have blank : ∀ c ∈ opening.text ++ closing.text, isSpace c = true := fun c member =>
      (List.mem_append.mp member).elim (opening.blank c) (closing.blank c)
    have passed : trimStart (opening.text ++ closing.text) = [] := List.dropWhile_eq_nil_iff.mpr blank
    rw [Entry.text, Option.elim_none, List.append_nil, trim, passed]
    rfl
  | some members => exact trim_between opening closing members.starts members.ends

theorem not_mem_entry (entry : Entry) : ';' ∉ entry.text := by
  obtain ⟨opening, members, closing⟩ := entry
  have space : isSpace ';' = false := by decide
  cases members with
  | none => simp [Entry.text, opening.not_mem space, closing.not_mem space]
  | some members =>
    simp [Entry.text, opening.not_mem space, closing.not_mem space, members.not_mem_semicolon]

theorem fieldsOf_writtenMembers (entries : List Entry) :
    fieldsOf (writtenMembers entries) =
      (entries.filterMap (·.members)).flatMap fun members => declarationFields members.text := by
  by_cases empty : entries = []
  · subst empty
    rfl
  · rw [fieldsOf, writtenMembers, splitOn_joinWith (by simpa using empty)]
    · clear empty
      induction entries with
      | nil => rfl
      | cons entry entries ih =>
        rw [List.map_cons, List.map_cons, trim_entry, List.filterMap_cons]
        cases entry.members with
        | none => exact ih
        | some members =>
          have filled : members.text ≠ [] := members.starts.ne_nil
          simp only [Option.elim_some, List.filter_cons, ne_eq, filled, not_false_eq_true, decide_true,
            ↓reduceIte, List.flatMap_cons]
          exact congrArg _ ih
    · intro piece member
      obtain ⟨entry, -, rfl⟩ := List.mem_map.mp member
      exact not_mem_entry entry

/-! ## Declared names -/

instance : DecidablePred Member.Unread
  | .sized .. | .callback .. => isTrue trivial
  | .bits _ _ width .. => inferInstanceAs (Decidable ((parse (':' :: width)).name = none))

theorem Member.reported_of_unread {member : Member} (unread : member.Unread) :
    member.reported = none ∨ member.reported = some member.name.text := by
  cases member with
  | sized name extents => exact ite_eq_or_eq _ _ _
  | callback name arguments balanced oneLine single => exact Or.inr rfl
  | bits name spaces width ends uncuttable plain => exact Or.inl unread

theorem Members.reported_sublist (members : Members) :
    members.reported.Sublist (members.all.filterMap Member.reported) := by
  rw [reported, all, List.filterMap_cons]
  cases members.first.reported with
  | none => exact List.nil_sublist _
  | some name =>
    dsimp only
    rw [List.filterMap_map]
    split
    · exact (List.nil_sublist _).cons_cons name
    · exact List.Sublist.refl _

theorem filterMap_reported_sublist {all : List Member} (unread : ∀ member ∈ all, member.Unread) :
    (all.filterMap Member.reported).Sublist (all.map (·.name.text)) := by
  induction all with
  | nil => exact List.Sublist.refl _
  | cons member all ih =>
    obtain ⟨here, others⟩ := List.forall_mem_cons.mp unread
    rw [List.filterMap_cons, List.map_cons]
    rcases Member.reported_of_unread here with none | some
    · rw [none]
      exact (ih others).cons _
    · rw [some]
      exact (ih others).cons_cons _

/-- A width is read as a name if a blank separates it from its colon and it is no word of a type. -/
theorem name_width (spaces : Nat) (width : Word) :
    (parse (':' :: (List.replicate spaces ' ' ++ width.text))).name =
      if spaces = 0 ∨ width.text ∈ typeWords then none else some width.text := by
  have trimmed : trim (':' :: (List.replicate spaces ' ' ++ width.text)) =
      ':' :: (List.replicate spaces ' ' ++ width.text) :=
    trim_eq_self (starts_cons (by decide) _) ((width.ends.append _).append [':'])
  have plain := functionPointer?_word (':' :: List.replicate spaces ' ') width
  rw [List.cons_append] at plain
  rw [parse, trimmed]
  simp only [plain]
  cases spaces with
  | zero =>
    have undeclared : declaration? (':' :: width.text) = none := by
      apply declaration?_eq_none_of_solid
      rw [List.forall_mem_cons]
      refine ⟨by decide, fun c member => ?_⟩
      have word := width.chars c member
      exact ⟨isSpace_of_isWord word, ne_of_isWord word (by decide)⟩
    simp [undeclared]
  | succ spaces =>
    have oneLine : '\n' ∉ ':' :: List.replicate spaces ' ' := by simp
    have declared := declaration?_word oneLine
      (show (isSpace ' ' || ' ' = '*') = true by decide) width
    have whole : ':' :: (List.replicate (spaces + 1) ' ' ++ width.text) =
        ':' :: List.replicate spaces ' ' ++ [' '] ++ width.text := by
      simp [List.replicate_succ']
    have untagged : trim (':' :: List.replicate spaces ' ' ++ [' ']) ∉ tagWords := fun tag => by
      have signs : ∀ word ∈ tagWords, ':' ∉ word := by decide
      exact signs _ tag (mem_trim (by simp) (by decide))
    rw [whole]
    simp only [declared, untagged, or_false, Nat.succ_ne_zero, false_or]
    split <;> rfl

/-- The fields of declarations have the names that the members are read under, in order. As long as no
width is read as a name, these are names that were declared, each of them at its place, and a member
that is read without a name is left out. Reading a width depends on the blank in front of it. -/
theorem fieldsOf_names (entries : List Entry) :
    let declarations := entries.filterMap (·.members)
    let names := (fieldsOf (writtenMembers entries)).map (·.name)
    names = (declarations.flatMap Members.reported).map some ∧
    ((∀ members ∈ declarations, ∀ member ∈ members.all, member.Unread) →
      names.Sublist ((declarations.flatMap Members.names).map fun name => some name.text)) ∧
    ∀ (spaces : Nat) (width : Word),
      (parse (':' :: (List.replicate spaces ' ' ++ width.text))).name =
        if spaces = 0 ∨ width.text ∈ typeWords then none else some width.text := by
  intro declarations names
  have read : names = (declarations.flatMap Members.reported).map some := by
    dsimp only [names]
    rw [fieldsOf_writtenMembers, List.map_flatMap, List.map_flatMap]
    simp only [Members.names_declarationFields]
    rfl
  refine ⟨read, fun unread => ?_, name_width⟩
  have declared : (declarations.flatMap Members.reported).Sublist
      ((declarations.flatMap Members.names).map (·.text)) := by
    rw [List.map_flatMap]
    refine List.Sublist.flatMap_right declarations fun members member => ?_
    rw [Members.names, List.map_map]
    exact members.reported_sublist.trans (filterMap_reported_sublist (unread members member))
  have mapped := declared.map some
  rw [List.map_map] at mapped
  rw [read]
  exact mapped

/-- A pointer and an array, a bit field without blanks, and a function pointer. -/
def deviceEntries : List Entry := [
  ⟨.empty, some {
    base := ⟨[⟨"float".toList, by decide, by decide⟩], by decide, by decide⟩
    stars := ⟨[' ', '*'], by simp [IsTypeChar], by simp, by simp⟩
    apart := by decide
    first := .sized ⟨⟨"a".toList, by decide, by decide⟩, by rintro _ ⟨⟩; decide⟩ []
    others := [{
      before := .empty
      behind := .empty
      stars := ⟨[], by simp, by simp, by simp⟩
      solid := by simp
      member := .sized ⟨⟨"b".toList, by decide, by decide⟩, by rintro _ ⟨⟩; decide⟩
        [⟨0, ['2'], by decide, by decide, by decide, by decide⟩] }] }, .empty⟩,
  ⟨.empty, some {
    base := ⟨[⟨"uint32_t".toList, by decide, by decide⟩], by decide, by decide⟩
    stars := ⟨[' '], by simp [IsTypeChar], by simp, by simp⟩
    apart := by decide
    first := .bits ⟨⟨"flags".toList, by decide, by decide⟩, by rintro _ ⟨⟩; decide⟩ 0 ['3']
      ⟨'3', rfl, by decide⟩ ⟨by decide, by decide, by decide⟩ (by decide)
    others := [] }, .empty⟩,
  ⟨.empty, some {
    base := ⟨[⟨"size_t".toList, by decide, by decide⟩], by decide, by decide⟩
    stars := ⟨[' '], by simp [IsTypeChar], by simp, by simp⟩
    apart := by decide
    first := .callback ⟨⟨"f".toList, by decide, by decide⟩, by rintro _ ⟨⟩; decide⟩
      "int, char".toList ⟨by decide, by decide⟩ (by decide) (by decide)
    others := [] }, .empty⟩]

theorem fieldsOf_names_device :
    (∀ members ∈ deviceEntries.filterMap (·.members), ∀ member ∈ members.all, member.Unread) ∧
    (fieldsOf "float *a,b[2];uint32_t flags:3;size_t (*f)(int, char)".toList).map (·.name) =
      [some "a".toList, some "b".toList, some "f".toList] ∧
    [some "a".toList, some "b".toList, some "f".toList].Sublist
      (["a", "b", "flags", "f"].map fun name => some name.toList) := by
  have unread : ∀ members ∈ deviceEntries.filterMap (·.members), ∀ member ∈ members.all,
      member.Unread := by decide
  have names := fieldsOf_names deviceEntries
  exact ⟨unread, names.1, names.2.1 unread⟩

/-- Behind a blank the width of a bit field is read as its name. -/
theorem fieldsOf_names_width :
    fieldsOf "unsigned flags : 3".toList = [⟨"unsigned flags :".toList, some "3".toList⟩] ∧
      ∀ name : Identifier, name.text ≠ "3".toList := by
  refine ⟨by decide, fun name same => ?_⟩
  have letter := name.letter
  rw [same] at letter
  exact absurd (letter '3' rfl) (by decide)

end CHeader.Record
