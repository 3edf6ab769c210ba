import CHeader.Proofs.Syntax.Tree
import Mathlib.Data.List.Nodup

/-!
# Records by position

Nodes that look the same are told apart by their positions. A walk reports records in the order of
the positions of the nodes that report them, and no two of these mean the same record node: a type
definition means one of its children, which does not report itself there, and every other record node
means itself.
-/
namespace CHeader

open Text Syntax

/-- The way to a node: which child to take at each step down. In the order of positions a node comes
before what is below it, and a child before the later ones. -/
abbrev Position := List Nat

namespace Node

variable {tree node child : Node} {position : Position} {index : Nat}

/-- The node at a position of a tree. -/
def at? (tree : Node) : Position → Option Node
  | [] => some tree
  | index :: rest => tree.children[index]?.bind (·.at? rest)

theorem at?_append (tree : Node) (position rest : Position) :
    tree.at? (position ++ rest) = (tree.at? position).bind (·.at? rest) := by
  induction position generalizing tree with
  | nil => rfl
  | cons index position ih =>
    rw [List.cons_append, at?, at?, Option.bind_assoc]
    congr 1
    funext child
    exact ih child

theorem at?_child (located : tree.at? position = some node)
    (held : node.children[index]? = some child) :
    tree.at? (position ++ [index]) = some child := by
  simp [at?_append, located, at?, held]

/-- Which child a node has under a field. -/
def fieldIndex (node : Node) (field : String) : Nat :=
  node.children.findIdx fun child => child.field = some field.toList

theorem getElem?_fieldIndex {field : String} (held : node.child? field = some child) :
    node.children[node.fieldIndex field]? = some child := by
  rw [← held, child?, List.find?_eq_getElem?_findIdx, fieldIndex]

end Node

namespace Syntax

variable {source : Text}

/-! ## A walk with positions -/

mutual

/-- The visits of a walk, each with the position of the node. -/
def survey (parent : Option Node) : Node → List (Position × Visit)
  | ⟨type, field, named, start, stop, children⟩ =>
    ([], parent, ⟨type, field, named, start, stop, children⟩) ::
      surveyAll 0 ⟨type, field, named, start, stop, children⟩ children

/-- The same for the children of a node from an index on. -/
def surveyAll (index : Nat) (parent : Node) : List Node → List (Position × Visit)
  | [] => []
  | child :: rest =>
    (if child.isOfType "compound_statement" then []
      else (survey (some parent) child).map (Prod.map (index :: ·) id)) ++
        surveyAll (index + 1) parent rest

end

mutual

theorem map_survey : (node : Node) → (parent : Option Node) →
    (survey parent node).map Prod.snd = node.walk parent
  | ⟨type, field, named, start, stop, children⟩, parent => by
    rw [survey, Node.walk, List.map_cons, map_surveyAll children]

theorem map_surveyAll : (children : List Node) → (index : Nat) → (parent : Node) →
    (surveyAll index parent children).map Prod.snd = Node.walkAll parent children
  | [], _, _ => by rw [surveyAll, Node.walkAll, List.map_nil]
  | child :: rest, index, parent => by
    rw [surveyAll, Node.walkAll, List.map_append, map_surveyAll rest]
    congr 1
    split
    · rfl
    · rw [List.map_map, ← map_survey child]
      rfl

end

/-- A visit below a node with a given parent is where its position says, and so is its parent. -/
structure Located (tree : Node) (parent : Option Node) (position : Position) (visit : Visit) :
    Prop where
  node : tree.at? position = some visit.2
  parent : (position = [] ∧ visit.1 = parent) ∨
    ∃ above index enclosing, position = above ++ [index] ∧ visit.1 = some enclosing ∧
      tree.at? above = some enclosing

theorem Located.below {tree child : Node} {parent : Option Node} {index : Nat} {position : Position}
    {visit : Visit} (held : tree.children[index]? = some child)
    (located : Located child (some tree) position visit) :
    Located tree parent (index :: position) visit where
  node := by rw [Node.at?, held, Option.bind_some, located.node]
  parent := by
    right
    rcases located.parent with ⟨rfl, above⟩ | ⟨above, last, enclosing, rfl, same, place⟩
    · exact ⟨[], index, tree, rfl, above, rfl⟩
    · exact ⟨index :: above, last, enclosing, rfl, same, by rw [Node.at?, held]; exact place⟩

mutual

theorem located_survey : (node : Node) → (parent : Option Node) →
    ∀ entry ∈ survey parent node, Located node parent entry.1 entry.2
  | ⟨type, field, named, start, stop, children⟩, parent, entry, member => by
    rw [survey] at member
    rcases List.mem_cons.mp member with rfl | later
    · exact ⟨rfl, Or.inl ⟨rfl, rfl⟩⟩
    · obtain ⟨offset, child, position, held, same, located⟩ :=
        located_surveyAll children 0 _ entry later
      rw [Nat.zero_add] at same
      rw [same]
      exact located.below held

theorem located_surveyAll : (children : List Node) → (index : Nat) → (parent : Node) →
    ∀ entry ∈ surveyAll index parent children, ∃ offset child position,
      children[offset]? = some child ∧ entry.1 = (index + offset) :: position ∧
        Located child (some parent) position entry.2
  | [], _, _, _, member => by simp [surveyAll] at member
  | child :: rest, index, parent, entry, member => by
    rw [surveyAll] at member
    rcases List.mem_append.mp member with here | later
    · split at here
      · cases here
      · obtain ⟨inner, visited, rfl⟩ := List.mem_map.mp here
        exact ⟨0, child, inner.1, rfl, rfl, located_survey child _ inner visited⟩
    · obtain ⟨offset, child', position, held, same, located⟩ :=
        located_surveyAll rest (index + 1) parent entry later
      refine ⟨offset + 1, child', position, by rwa [List.getElem?_cons_succ], ?_, located⟩
      rw [same, Nat.add_right_comm, Nat.add_assoc]

end

mutual

/-- A walk visits nodes in the order of their positions, each once. -/
theorem sorted_survey : (node : Node) → (parent : Option Node) →
    ((survey parent node).map Prod.fst).Pairwise (· < ·)
  | ⟨type, field, named, start, stop, children⟩, parent => by
    rw [survey, List.map_cons, List.pairwise_cons]
    refine ⟨fun position member => ?_, sorted_surveyAll children 0 _⟩
    obtain ⟨entry, visited, rfl⟩ := List.mem_map.mp member
    obtain ⟨offset, child, position, -, same, -⟩ := located_surveyAll children 0 _ entry visited
    rw [same]
    exact List.nil_lt_cons _ _

theorem sorted_surveyAll : (children : List Node) → (index : Nat) → (parent : Node) →
    ((surveyAll index parent children).map Prod.fst).Pairwise (· < ·)
  | [], _, _ => by simp [surveyAll]
  | child :: rest, index, parent => by
    rw [surveyAll, List.map_append, List.pairwise_append]
    refine ⟨?_, sorted_surveyAll rest (index + 1) parent, fun position before later behind => ?_⟩
    · split
      · exact List.Pairwise.nil
      · rw [List.map_map, List.pairwise_map]
        exact (List.pairwise_map.mp (sorted_survey child (some parent))).imp
          List.cons_lt_cons_self.mpr
    · -- what is below the later children starts with a greater index
      obtain ⟨entry, visited, rfl⟩ := List.mem_map.mp behind
      obtain ⟨offset, other, position', -, same, -⟩ :=
        located_surveyAll rest (index + 1) parent entry visited
      split at before
      · cases before
      · rw [List.map_map] at before
        obtain ⟨inner, -, rfl⟩ := List.mem_map.mp before
        rw [same]
        exact List.cons_lt_cons_iff.mpr (Or.inl (by omega))

end

/-! ## Reports -/

/-- A record as it is reported, with the positions of the node that reports it and of its own node. -/
structure Report where
  reporter : Position
  place : Position
  record : Record

/-- A record node with a body, as it stands in a tree. -/
structure RecordNode (tree : Node) (place : Position) (site : RecordSite) : Prop where
  located : tree.at? place = some site.record
  kind : recordKind? site.record = some site.kind
  body : site.record.child? "body" = some site.body

/-- The reports that a tree allows: a type definition reports the record that is its type, under the
last name that it declares, and a record that is no part of a larger declaration reports itself, under
its tag. -/
inductive Reported (source : Text) (tree : Node) : Report → Prop
  | definition {reporter : Position} {definition name : Node} {site : RecordSite}
      (located : tree.at? reporter = some definition)
      (isDefinition : definition.isOfType "type_definition" = true)
      (typed : definition.child? "type" = some site.record)
      (recordNode : RecordNode tree (reporter ++ [definition.fieldIndex "type"]) site)
      (declared : ((definition.childrenAt "declarator").filter
        (·.isOfType "type_identifier")).getLast? = some name)
      (named : site.name = trim (name.sourceText source)) :
      Reported source tree
        ⟨reporter, reporter ++ [definition.fieldIndex "type"], site.toRecord source⟩
  | tag {above : Position} {index : Nat} {enclosing name : Node} {site : RecordSite}
      (enclosed : tree.at? above = some enclosing) (free : enclosing.type ∉ enclosingTypes)
      (recordNode : RecordNode tree (above ++ [index]) site)
      (tagged : site.record.child? "name" = some name)
      (named : site.name = trim (name.sourceText source)) :
      Reported source tree ⟨above ++ [index], above ++ [index], site.toRecord source⟩

theorem mem_enclosingTypes {node : Node} (isDefinition : node.isOfType "type_definition" = true) :
    node.type ∈ enclosingTypes := by
  rw [Node.isOfType_iff.mp isDefinition]
  decide

/-- A record whose parent is part of a larger declaration is reported by that parent, if at all, and
the parent is a type definition. -/
theorem Reported.of_enclosed {tree enclosing : Node} {report : Report} {above : Position} {index : Nat}
    (reported : Reported source tree report) (place : report.place = above ++ [index])
    (enclosed : tree.at? above = some enclosing) (part : enclosing.type ∈ enclosingTypes) :
    enclosing.isOfType "type_definition" = true ∧ report.reporter = above := by
  cases reported with
  | @definition reporter definition name site located isDefinition typed recordNode declared named =>
    obtain ⟨rfl, -⟩ := List.append_inj' place rfl
    rw [located] at enclosed
    cases enclosed
    exact ⟨isDefinition, rfl⟩
  | @tag above' index' enclosing' name site enclosed' free recordNode tagged named =>
    -- a record that reports itself has no such parent
    obtain ⟨rfl, -⟩ := List.append_inj' place rfl
    rw [enclosed'] at enclosed
    cases enclosed
    exact absurd part free

/-- A record node is reported by one node only. -/
theorem Reported.reporter_eq {tree : Node} {report other : Report}
    (reported : Reported source tree report) (reported' : Reported source tree other)
    (same : report.place = other.place) : report.reporter = other.reporter := by
  cases reported with
  | @definition reporter definition name site located isDefinition typed recordNode declared named =>
    have enclosed := reported'.of_enclosed same.symm located (mem_enclosingTypes isDefinition)
    exact enclosed.2.symm
  | @tag above index enclosing name site enclosed free recordNode tagged named =>
    cases reported' with
    | definition located isDefinition typed recordNode' declared named' =>
      have part := (Reported.tag enclosed free recordNode tagged named).of_enclosed same located
        (mem_enclosingTypes isDefinition)
      exact part.2
    | tag => exact same

def reportAt? (source : Text) (entry : Position × Visit) : Option Report :=
  (siteAt? source entry.2).map fun site => {
    reporter := entry.1
    place :=
      if entry.2.2.isOfType "type_definition" then entry.1 ++ [entry.2.2.fieldIndex "type"]
      else entry.1
    record := site.toRecord source }

theorem reporter_of_reportAt? {entry : Position × Visit} {report : Report}
    (found : reportAt? source entry = some report) : report.reporter = entry.1 := by
  obtain ⟨site, -, rfl⟩ := Option.map_eq_some_iff.mp found
  rfl

theorem map_record_reportAt? (source : Text) (entry : Position × Visit) :
    (reportAt? source entry).map Report.record = recordAt? source entry.2 := by
  rw [reportAt?, recordAt?, Option.map_map]
  rfl

theorem reported_of_reportAt? {tree : Node} {entry : Position × Visit} {report : Report}
    (located : Located tree none entry.1 entry.2) (found : reportAt? source entry = some report) :
    Reported source tree report := by
  obtain ⟨position, parent, node⟩ := entry
  obtain ⟨site, sites, rfl⟩ := Option.map_eq_some_iff.mp found
  rw [siteAt?] at sites
  split at sites
  next isDefinition =>
    obtain ⟨typed, kind, body, name, declared, named⟩ := typedefSite?_eq_some sites
    have place : tree.at? (position ++ [node.fieldIndex "type"]) = some site.record :=
      Node.at?_child located.node (Node.getElem?_fieldIndex typed)
    simp only [isDefinition, if_true]
    exact .definition located.node isDefinition typed ⟨place, kind, body⟩ declared named
  next other =>
    obtain ⟨same, kind, body, ⟨enclosing, isParent, free⟩, name, tagged, named⟩ :=
      taggedSite?_eq_some sites
    simp only [other]
    rcases located.parent with ⟨-, root⟩ | ⟨above, index, enclosing', rfl, isParent', enclosed⟩
    · rw [root] at isParent
      cases isParent
    · rw [isParent'] at isParent
      cases isParent
      rw [← same] at kind body tagged
      exact .tag enclosed free ⟨by rw [same]; exact located.node, kind, body⟩ tagged named

/-- The records of a tree are reported in the order of the nodes that report them, each of them is a
record node with a body, and no record node is reported twice. A record that is part of a larger
declaration is not reported under its tag: a type definition may report it, and nothing else does. -/
theorem records_reported (source : Text) (tree : Node) :
    ∃ reports : List Report,
      reports.map Report.record = records source tree ∧
      (∀ report ∈ reports, Reported source tree report) ∧
      (reports.map Report.reporter).Pairwise (· < ·) ∧
      (reports.map Report.place).Nodup ∧
      ∀ report ∈ reports, ∀ above index enclosing, report.place = above ++ [index] →
        tree.at? above = some enclosing → enclosing.type ∈ enclosingTypes →
        enclosing.isOfType "type_definition" = true ∧ report.reporter = above := by
  have reported : ∀ report ∈ (survey none tree).filterMap (reportAt? source),
      Reported source tree report := by
    intro report member
    obtain ⟨entry, visited, found⟩ := List.mem_filterMap.mp member
    exact reported_of_reportAt? (located_survey tree none entry visited) found
  have sorted : ((survey none tree).filterMap (reportAt? source)).Pairwise
      fun report other => report.reporter < other.reporter := by
    rw [List.pairwise_filterMap]
    refine (List.pairwise_map.mp (sorted_survey tree none)).imp ?_
    intro entry later before report found other found'
    rwa [reporter_of_reportAt? found, reporter_of_reportAt? found']
  refine ⟨(survey none tree).filterMap (reportAt? source), ?_, reported, List.pairwise_map.mpr sorted,
    List.pairwise_map.mpr (sorted.imp_of_mem ?_), ?_⟩
  · rw [records_eq, ← map_survey tree none, List.map_filterMap, List.filterMap_map]
    congr 1
    funext entry
    exact map_record_reportAt? source entry
  · -- two reports of one record node would have one reporter
    intro report other member member' before same
    have one := (reported report member).reporter_eq (reported other member') same
    rw [one] at before
    exact List.lt_irrefl _ before
  · intro report member above index enclosing place enclosed part
    exact (reported report member).of_enclosed place enclosed part

end Syntax

end CHeader
