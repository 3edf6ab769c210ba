import CHeader.Syntax.Declarations
import CHeader.Syntax.Token

/-!
# Nodes and their text

A node that covers a piece of a text reads that piece, whatever stands before and behind it. A walk
through a tree reports the prototypes and records of its nodes in order; most nodes declare nothing.
-/
namespace CHeader

open Text Syntax

/-! ## Covered text -/

theorem byteLength_append (s t : Text) : byteLength (s ++ t) = byteLength s + byteLength t := by
  induction s with
  | nil => simp [byteLength]
  | cons c s ih => simp [byteLength, ih, Nat.add_assoc]

theorem sliceBytes_piece (piece after : Text) :
    sliceBytes 0 (byteLength piece) (piece ++ after) = piece := by
  induction piece with
  | nil => cases after <;> simp [byteLength, sliceBytes]
  | cons c piece ih =>
    -- no character is empty in bytes, so the piece has not stopped yet
    have filled : c.utf8Size + byteLength piece ≠ 0 := by
      have := c.utf8Size_pos
      omega
    rw [List.cons_append, sliceBytes, byteLength, if_neg filled, if_pos rfl, Nat.add_sub_cancel_left,
      ih]

/-- A piece of a text is found by where it starts and stops in bytes. -/
theorem sliceBytes_append (before piece after : Text) :
    sliceBytes (byteLength before) (byteLength (before ++ piece)) (before ++ (piece ++ after)) =
      piece := by
  induction before with
  | nil => exact sliceBytes_piece piece after
  | cons c before ih =>
    have positive := c.utf8Size_pos
    rw [List.cons_append, List.cons_append, sliceBytes, byteLength, byteLength,
      if_neg (by omega), if_neg (by omega), Nat.add_sub_cancel_left, Nat.add_sub_cancel_left, ih]

namespace Node

variable {node : Node} {before piece : Text}

/-- The node stands for the piece of a text that comes after `before`. -/
structure Covers (node : Node) (before piece : Text) : Prop where
  start : node.start = byteLength before
  stop : node.stop = byteLength (before ++ piece)

theorem Covers.sourceText (covers : node.Covers before piece) (after : Text) :
    node.sourceText (before ++ (piece ++ after)) = piece := by
  rw [Node.sourceText, covers.start, covers.stop, sliceBytes_append]

theorem isOfType_iff {type : String} : node.isOfType type = true ↔ node.type = type.toList :=
  decide_eq_true_iff

theorem isOfType_eq_false_iff {type : String} :
    node.isOfType type = false ↔ node.type ≠ type.toList :=
  decide_eq_false_iff_not

/-- A node is of one type only. -/
theorem isOfType_eq_false {type other : String} (isType : node.isOfType type = true)
    (apart : type.toList ≠ other.toList) : node.isOfType other = false := by
  rw [isOfType_eq_false_iff, isOfType_iff.mp isType]
  exact apart

/-! ## Pointer declarators -/

/-- How many pointer declarators are nested around a declarator. -/
inductive Points : (stars : Nat) → (declarator target : Node) → Prop
  | target {target : Node} (other : target.isOfType "pointer_declarator" = false) :
      Points 0 target target
  | pointer {stars : Nat} {declarator inner target : Node}
      (isPointer : declarator.isOfType "pointer_declarator" = true)
      (held : declarator.child? "declarator" = some inner) (points : Points stars inner target) :
      Points (stars + 1) declarator target

theorem innerPointee?_eq {children : List Node} {inner : Node}
    (held : children.find? (fun child => child.field = some "declarator".toList) = some inner) :
    innerPointee? children = inner.pointee? := by
  induction children with
  | nil => cases held
  | cons child rest ih =>
    rw [innerPointee?]
    rw [List.find?_cons] at held
    split at held
    next here =>
      cases held
      rw [if_pos (of_decide_eq_true here)]
    next other => rw [if_neg (of_decide_eq_false other), ih held]

theorem Points.pointee? {stars : Nat} {declarator target : Node}
    (points : Points stars declarator target) : declarator.pointee? = (stars, some target) := by
  induction points with
  | @target target other =>
    obtain ⟨type, field, named, start, stop, children⟩ := target
    rw [Node.pointee?, if_neg (isOfType_eq_false_iff.mp other)]
  | @pointer stars declarator inner target isPointer held points ih =>
    obtain ⟨type, field, named, start, stop, children⟩ := declarator
    rw [Node.pointee?, if_pos (isOfType_iff.mp isPointer), innerPointee?_eq held, ih]

end Node

/-! ## What nodes report -/

namespace Syntax

/-- A node with its parent, as a walk visits it. -/
abbrev Visit := Option Node × Node

variable {source : Text}

def prototypesAt (source : Text) (visit : Visit) : List Prototype :=
  if visit.2.isOfType "declaration" then declarationPrototypes source visit.2 else []

def siteAt? (source : Text) (visit : Visit) : Option RecordSite :=
  if visit.2.isOfType "type_definition" then typedefSite? source visit.2
  else taggedSite? source visit.1 visit.2

def recordAt? (source : Text) (visit : Visit) : Option Record :=
  (siteAt? source visit).map (RecordSite.toRecord source)

theorem prototypes_eq (source : Text) (tree : Node) :
    prototypes source tree = (tree.walk none).flatMap (prototypesAt source) := rfl

theorem records_eq (source : Text) (tree : Node) :
    records source tree = (tree.walk none).filterMap (recordAt? source) :=
  List.map_filterMap

/-- A type definition reports the record that is its type, under the last name it declares. -/
theorem typedefSite?_eq_some {definition : Node} {site : RecordSite}
    (found : typedefSite? source definition = some site) :
    definition.child? "type" = some site.record ∧ recordKind? site.record = some site.kind ∧
      site.record.child? "body" = some site.body ∧
      ∃ name, ((definition.childrenAt "declarator").filter
        (·.isOfType "type_identifier")).getLast? = some name ∧
          site.name = trim (name.sourceText source) := by
  simp only [typedefSite?, Option.bind_eq_bind, Option.bind_eq_some_iff] at found
  obtain ⟨record, held, kind, kinds, body, bodies, name, names, whole⟩ := found
  cases whole
  exact ⟨held, kinds, bodies, name, names, rfl⟩

/-- A record reports itself under its tag, unless it is part of a larger declaration. -/
theorem taggedSite?_eq_some {parent : Option Node} {record : Node} {site : RecordSite}
    (found : taggedSite? source parent record = some site) :
    site.record = record ∧ recordKind? record = some site.kind ∧
      record.child? "body" = some site.body ∧
      (∃ enclosing, parent = some enclosing ∧ enclosing.type ∉ enclosingTypes) ∧
      ∃ name, record.child? "name" = some name ∧ site.name = trim (name.sourceText source) := by
  simp only [taggedSite?, Option.bind_eq_bind, Option.bind_eq_some_iff] at found
  obtain ⟨kind, kinds, enclosing, rfl, found⟩ := found
  split at found
  next => cases found
  next free =>
    simp only [Option.bind_eq_some_iff] at found
    obtain ⟨name, names, body, bodies, whole⟩ := found
    cases whole
    exact ⟨rfl, kinds, bodies, ⟨enclosing, rfl, free⟩, name, names, rfl⟩

/-- What a walk over some nodes finds. -/
structure Reports (source : Text) (visits : List Visit) (functions : List Prototype)
    (records : List Record) : Prop where
  functions : visits.flatMap (prototypesAt source) = functions
  records : visits.filterMap (recordAt? source) = records

namespace Reports

variable {visits later : List Visit} {functions laterFunctions : List Prototype}
  {records laterRecords : List Record}

theorem nil : Reports source [] [] [] := ⟨rfl, rfl⟩

theorem append (first : Reports source visits functions records)
    (second : Reports source later laterFunctions laterRecords) :
    Reports source (visits ++ later) (functions ++ laterFunctions) (records ++ laterRecords) where
  functions := by rw [List.flatMap_append, first.functions, second.functions]
  records := by rw [List.filterMap_append, first.records, second.records]

theorem visit (source : Text) (visit : Visit) :
    Reports source [visit] (prototypesAt source visit) (recordAt? source visit).toList where
  functions := List.append_nil _
  records := by
    rw [List.filterMap_cons]
    cases recordAt? source visit <;> rfl

end Reports

/-! ## Nodes that report nothing -/

theorem isOfType_of_recordKind? {node : Node} {kind : RecordKind}
    (ofKind : recordKind? node = some kind) {other : String}
    (apart : other.toList ∉ ["struct_specifier".toList, "union_specifier".toList]) :
    node.isOfType other = false := by
  simp only [List.mem_cons, List.not_mem_nil, or_false, not_or] at apart
  unfold recordKind? at ofKind
  split at ofKind
  next struct => exact Node.isOfType_eq_false struct (Ne.symm apart.1)
  next =>
    split at ofKind
    next union => exact Node.isOfType_eq_false union (Ne.symm apart.2)
    next => cases ofKind

theorem recordKind?_eq_none {node : Node} {type : String} (isType : node.isOfType type = true)
    (apart : type.toList ∉ ["struct_specifier".toList, "union_specifier".toList]) :
    recordKind? node = none := by
  rw [Option.eq_none_iff_forall_ne_some]
  intro kind ofKind
  rw [isOfType_of_recordKind? ofKind apart] at isType
  cases isType

/-- A node that declares nothing where it stands: it is neither a declaration nor a type definition,
and if it is a record with a body, it is part of a larger declaration. -/
def isSilent : Visit → Bool
  | (parent, node) =>
    !node.isOfType "declaration" && !node.isOfType "type_definition" &&
      ((recordKind? node).isNone || (node.child? "body").isNone ||
        parent.any (·.type ∈ enclosingTypes))

/-- Neither a child of a node nor anything below it declares something. -/
def isQuiet (parent child : Node) : Bool := (child.walk (some parent)).all isSilent

theorem taggedSite?_body {parent : Option Node} {node : Node} {site : RecordSite}
    (found : taggedSite? source parent node = some site) :
    recordKind? node ≠ none ∧ node.child? "body" ≠ none ∧
      ∀ enclosing ∈ parent, enclosing.type ∉ enclosingTypes := by
  obtain ⟨-, kinds, bodies, ⟨enclosing, rfl, free⟩, -⟩ := taggedSite?_eq_some found
  exact ⟨by simp [kinds], by simp [bodies], by simpa using free⟩

theorem Reports.of_isSilent (source : Text) {visit : Visit} (silent : isSilent visit = true) :
    Reports source [visit] [] [] := by
  obtain ⟨parent, node⟩ := visit
  simp only [isSilent, Bool.and_eq_true, Bool.not_eq_true', Bool.or_eq_true] at silent
  obtain ⟨⟨noDeclaration, noDefinition⟩, noRecord⟩ := silent
  have functions : prototypesAt source (parent, node) = [] := by
    rw [prototypesAt, if_neg (by simp [noDeclaration])]
  have records : recordAt? source (parent, node) = none := by
    rw [Option.eq_none_iff_forall_ne_some]
    intro record found
    rw [recordAt?, siteAt?, if_neg (by simp [noDefinition])] at found
    obtain ⟨site, tagged, -⟩ := Option.map_eq_some_iff.mp found
    obtain ⟨someKind, someBody, free⟩ := taggedSite?_body tagged
    rcases noRecord with (noKind | noBody) | enclosed
    · exact someKind (Option.isNone_iff_eq_none.mp noKind)
    · exact someBody (Option.isNone_iff_eq_none.mp noBody)
    · obtain ⟨enclosing, held, member⟩ := (Option.any_eq_true _ _).mp enclosed
      exact free enclosing held (of_decide_eq_true member)
  have reports := Reports.visit source (parent, node)
  rwa [functions, records] at reports

theorem Reports.of_all_isSilent {visits : List Visit} (silent : visits.all isSilent = true) :
    Reports source visits [] [] := by
  induction visits with
  | nil => exact .nil
  | cons visit later ih =>
    obtain ⟨here, others⟩ := Bool.and_eq_true_iff.mp silent
    exact (Reports.of_isSilent source here).append (ih others)

theorem walk_eq (parent : Option Node) (node : Node) :
    Node.walk parent node = (parent, node) :: Node.walkAll node node.children := by
  cases node
  rw [Node.walk]

/-- Children that declare nothing leave the node above them to report. -/
theorem Reports.of_isQuiet {node : Node} {children : List Node}
    (quiet : children.all (isQuiet node) = true) :
    Reports source (Node.walkAll node children) [] [] := by
  induction children with
  | nil => exact .nil
  | cons child rest ih =>
    obtain ⟨here, others⟩ := Bool.and_eq_true_iff.mp quiet
    -- function bodies are not entered at all
    rw [Node.walkAll]
    split
    · exact ih others
    · exact (Reports.of_all_isSilent here).append (ih others)

/-- A node reports what it declares if nothing below it declares anything. -/
theorem Reports.walk (source : Text) (parent : Option Node) {node : Node}
    (quiet : node.children.all (isQuiet node) = true) :
    Reports source (node.walk parent) (prototypesAt source (parent, node))
      (recordAt? source (parent, node)).toList := by
  have reports := (Reports.visit source (parent, node)).append (.of_isQuiet quiet)
  rw [List.append_nil, List.append_nil] at reports
  rw [walk_eq]
  exact reports

end Syntax

end CHeader
