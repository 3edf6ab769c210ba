import CHeader.Proofs.Syntax.Tree
import CHeader.Syntax.Part
import Mathlib.Data.List.Basic
import Mathlib.Logic.Relation

/-!
# Function bodies

What function bodies hold has no influence on the prototypes and records of a tree. A walk enters no
body; what a node reports is read from its fields and from its text, and these lead into a body only
where a body takes the place of the fields of a record or of the type of a field. So nothing changes
when all bodies are emptied, and trees that differ in their bodies alone are the same once that is
done.
-/
namespace CHeader

open Text Syntax

namespace Node

variable {node : Node}

def isBody (node : Node) : Bool := node.isOfType "compound_statement"

mutual

/-- A node and all nodes below it, those in function bodies too. -/
def nodes : Node → List Node
  | ⟨type, field, named, start, stop, children⟩ =>
    ⟨type, field, named, start, stop, children⟩ :: nodesOf children

def nodesOf : List Node → List Node
  | [] => []
  | child :: rest => nodes child ++ nodesOf rest

end

/-- No function body stands for the fields of a record, or for the type of a field. -/
def isReadable (node : Node) : Bool :=
  ((recordKind? node).isNone || (node.child? "body").all (!isBody ·)) &&
    (!node.isOfType "field_declaration" || (node.child? "type").all (!isBody ·))

/-! ## Other bodies -/

/-- The second node has other children in one function body, which is the node or below it. -/
inductive Rebodied : Node → Node → Prop
  | body {node : Node} (isBody : node.isBody = true) (children : List Node) :
      Rebodied node { node with children := children }
  | inside {node child other : Node} {before after : List Node}
      (held : node.children = before ++ child :: after) (rebodied : Rebodied child other) :
      Rebodied node { node with children := before ++ other :: after }

/-- The second tree has other children in one function body below the root. -/
def RebodiedBelow (tree tree' : Node) : Prop :=
  ∃ before child other after, tree.children = before ++ child :: after ∧ Rebodied child other ∧
    tree' = { tree with children := before ++ other :: after }

/-! ## Emptied bodies -/

mutual

/-- A node with nothing left in the function bodies at or below it. -/
def emptied : Node → Node
  | ⟨type, field, named, start, stop, children⟩ =>
    ⟨type, field, named, start, stop,
      if type = "compound_statement".toList then [] else emptiedAll children⟩

def emptiedAll : List Node → List Node
  | [] => []
  | child :: rest => emptied child :: emptiedAll rest

end

/-- The same for the bodies below a node only. -/
def emptiedBelow (node : Node) : Node := { node with children := node.children.map emptied }

theorem emptiedAll_eq (children : List Node) : emptiedAll children = children.map emptied := by
  induction children with
  | nil => rw [emptiedAll, List.map_nil]
  | cons child rest ih => rw [emptiedAll, ih, List.map_cons]

/-- A node keeps all of its own data, and loses its children if it is a body. -/
theorem emptied_eq (node : Node) :
    node.emptied = { node with children := if node.isBody then [] else node.children.map emptied } := by
  obtain ⟨type, field, named, start, stop, children⟩ := node
  simp only [emptied, emptiedAll_eq, isBody, isOfType, decide_eq_true_eq]

@[simp] theorem emptied_type (node : Node) : node.emptied.type = node.type := by
  rw [emptied_eq]

@[simp] theorem emptied_field (node : Node) : node.emptied.field = node.field := by
  rw [emptied_eq]

@[simp] theorem emptied_named (node : Node) : node.emptied.named = node.named := by
  rw [emptied_eq]

@[simp] theorem emptied_start (node : Node) : node.emptied.start = node.start := by
  rw [emptied_eq]

@[simp] theorem emptied_stop (node : Node) : node.emptied.stop = node.stop := by
  rw [emptied_eq]

@[simp] theorem emptied_isOfType (node : Node) (type : String) :
    node.emptied.isOfType type = node.isOfType type := by
  rw [isOfType, emptied_type, isOfType]

@[simp] theorem emptied_isBody (node : Node) : node.emptied.isBody = node.isBody :=
  emptied_isOfType node _

@[simp] theorem emptied_sourceText (source : Text) (node : Node) :
    node.emptied.sourceText source = node.sourceText source := by
  rw [sourceText, emptied_start, emptied_stop, sourceText]

theorem emptied_of_not_body (enters : node.isBody = false) : node.emptied = node.emptiedBelow := by
  rw [emptied_eq, if_neg (by simp [enters]), emptiedBelow]

/-- A node of another type is no body. -/
theorem isBody_eq_false {type : String} (isType : node.isOfType type = true)
    (apart : type.toList ≠ "compound_statement".toList) : node.isBody = false :=
  isOfType_eq_false isType apart

theorem child?_emptiedBelow (node : Node) (field : String) :
    node.emptiedBelow.child? field = (node.child? field).map emptied := by
  simp only [child?, emptiedBelow, List.find?_map, Function.comp_def, emptied_field]

theorem childrenAt_emptiedBelow (node : Node) (field : String) :
    node.emptiedBelow.childrenAt field = (node.childrenAt field).map emptied := by
  simp only [childrenAt, emptiedBelow, List.filter_map, Function.comp_def, emptied_field]

theorem child?_emptied (enters : node.isBody = false) (field : String) :
    node.emptied.child? field = (node.child? field).map emptied := by
  rw [emptied_of_not_body enters, child?_emptiedBelow]

/-- A body that gets other children is the same when it is emptied. -/
theorem Rebodied.emptied {node other : Node} (rebodied : Rebodied node other) :
    other.emptied = node.emptied := by
  induction rebodied with
  | @body node isBody children =>
    have still : { node with children := children : Node }.isBody = true := isBody
    rw [emptied_eq, emptied_eq, if_pos still, if_pos isBody]
  | @inside node child other before after held rebodied ih =>
    rw [emptied_eq, emptied_eq, held]
    simp only [List.map_append, List.map_cons, ih]
    rfl

theorem RebodiedBelow.emptied {tree tree' : Node} (rebodied : RebodiedBelow tree tree') :
    tree'.emptiedBelow = tree.emptiedBelow := by
  obtain ⟨before, child, other, after, held, inside, rfl⟩ := rebodied
  simp only [emptiedBelow, held, List.map_append, List.map_cons, inside.emptied]

theorem emptiedBelow_of_rebodied {tree tree' : Node}
    (rebodied : Relation.ReflTransGen RebodiedBelow tree tree') :
    tree'.emptiedBelow = tree.emptiedBelow := by
  induction rebodied with
  | refl => rfl
  | tail _ step ih => rw [step.emptied, ih]

mutual

theorem pointee?_emptied : (node : Node) →
    node.emptied.pointee? = node.pointee?.map id (Option.map emptied)
  | ⟨type, field, named, start, stop, children⟩ => by
    rw [emptied, pointee?, pointee?]
    split
    next pointer =>
      -- a pointer declarator is no body, so its children are still there
      have other : type ≠ "compound_statement".toList := by
        rw [pointer]
        decide
      rw [if_neg other, emptiedAll_eq, innerPointee?_emptied children]
      rfl
    next => rw [Prod.map_apply, Option.map_some, emptied]; rfl

theorem innerPointee?_emptied : (children : List Node) →
    innerPointee? (children.map emptied) = (innerPointee? children).map id (Option.map emptied)
  | [] => rfl
  | child :: rest => by
    rw [List.map_cons, innerPointee?, innerPointee?, emptied_field]
    split
    · exact pointee?_emptied child
    · exact innerPointee?_emptied rest

end

/-! ## Readable trees -/

/-- In no node of the tree does a body stand where something is read. -/
def Readable (tree : Node) : Prop := ∀ node ∈ tree.nodes, node.isReadable = true

theorem nodes_eq (node : Node) : node.nodes = node :: nodesOf node.children := by
  cases node
  rw [nodes]

theorem mem_nodesOf {children : List Node} :
    node ∈ nodesOf children ↔ ∃ child ∈ children, node ∈ child.nodes := by
  induction children with
  | nil => simp [nodesOf]
  | cons child rest ih => simp [nodesOf, ih]

theorem child?_mem {field : String} {child : Node} (held : node.child? field = some child) :
    child ∈ node.children :=
  List.mem_of_find?_eq_some held

theorem Readable.self {tree : Node} (readable : Readable tree) : tree.isReadable = true :=
  readable tree (by simp [nodes_eq])

theorem Readable.child {tree child : Node} (readable : Readable tree)
    (held : child ∈ tree.children) : Readable child := by
  intro node member
  apply readable
  rw [nodes_eq, List.mem_cons, mem_nodesOf]
  exact Or.inr ⟨child, held, member⟩

mutual

/-- A walk through a readable tree visits readable nodes. -/
theorem Readable.visit : {tree : Node} → Readable tree → (parent : Option Node) →
    ∀ visit ∈ tree.walk parent, Readable visit.2
  | ⟨type, field, named, start, stop, children⟩, readable, parent, visit, member => by
    rw [walk] at member
    rcases List.mem_cons.mp member with rfl | later
    · exact readable
    · exact Readable.visitAll (fun child held => readable.child held) _ visit later

theorem Readable.visitAll : {children : List Node} → (∀ child ∈ children, Readable child) →
    (parent : Node) → ∀ visit ∈ walkAll parent children, Readable visit.2
  | [], _, _, _, member => by simp [walkAll] at member
  | child :: rest, readable, parent, visit, member => by
    obtain ⟨here, others⟩ := List.forall_mem_cons.mp readable
    rw [walkAll] at member
    rcases List.mem_append.mp member with first | later
    · split at first
      · cases first
      · exact here.visit _ visit first
    · exact Readable.visitAll others parent visit later

end

mutual

theorem mem_nodes_emptied : (tree : Node) → ∀ node ∈ tree.emptied.nodes,
    ∃ whole ∈ tree.nodes, node = whole.emptied
  | ⟨type, field, named, start, stop, children⟩, node, member => by
    rw [nodes_eq] at member
    rcases List.mem_cons.mp member with rfl | inside
    · exact ⟨_, by simp [nodes_eq], rfl⟩
    · rw [emptied] at inside
      split at inside
      next => cases inside
      next =>
        rw [emptiedAll_eq] at inside
        obtain ⟨whole, held, same⟩ := mem_nodesOf_emptied children node inside
        exact ⟨whole, by simp [nodes, held], same⟩

theorem mem_nodesOf_emptied : (children : List Node) → ∀ node ∈ nodesOf (children.map emptied),
    ∃ whole ∈ nodesOf children, node = whole.emptied
  | [], node, member => by simp [nodesOf] at member
  | child :: rest, node, member => by
    rw [List.map_cons, nodesOf] at member
    rcases List.mem_append.mp member with here | later
    · obtain ⟨whole, held, same⟩ := mem_nodes_emptied child node here
      exact ⟨whole, by simp [nodesOf, held], same⟩
    · obtain ⟨whole, held, same⟩ := mem_nodesOf_emptied rest node later
      exact ⟨whole, by simp [nodesOf, held], same⟩

end

theorem isReadable_emptiedBelow (node : Node) :
    node.emptiedBelow.isReadable = node.isReadable := by
  have kind : recordKind? node.emptiedBelow = recordKind? node := rfl
  have isType (type : String) : node.emptiedBelow.isOfType type = node.isOfType type := rfl
  simp only [isReadable, kind, isType, child?_emptiedBelow, Option.all_map, emptied_isBody]

theorem isReadable_emptied (readable : node.isReadable = true) :
    node.emptied.isReadable = true := by
  cases body : node.isBody with
  | true => simp [emptied_eq, body, isReadable, child?]
  | false => rwa [emptied_of_not_body body, isReadable_emptiedBelow]

theorem Readable.emptiedBelow {tree : Node} (readable : Readable tree) :
    Readable tree.emptiedBelow := by
  intro node member
  rw [nodes_eq] at member
  rcases List.mem_cons.mp member with rfl | inside
  · rw [isReadable_emptiedBelow]
    exact readable.self
  · obtain ⟨whole, held, rfl⟩ := mem_nodesOf_emptied tree.children node inside
    exact isReadable_emptied (readable whole (by simp [nodes_eq, held]))

end Node

/-! ## What emptied nodes report -/

namespace Syntax

open Node

variable {source : Text}

def emptiedVisit (visit : Visit) : Visit := visit.map (Option.map emptiedBelow) emptiedBelow

mutual

/-- A walk through a tree with emptied bodies makes the same visits, to nodes with emptied bodies. -/
theorem walk_emptiedBelow : (node : Node) → (parent : Option Node) →
    walk (parent.map emptiedBelow) node.emptiedBelow = (walk parent node).map emptiedVisit
  | ⟨type, field, named, start, stop, children⟩, parent => by
    rw [walk_eq, walk, List.map_cons]
    congr 1
    exact walkAll_emptied children _

theorem walkAll_emptied : (children : List Node) → (parent : Node) →
    walkAll parent.emptiedBelow (children.map emptied) =
      (walkAll parent children).map emptiedVisit
  | [], _ => by simp [walkAll]
  | child :: rest, parent => by
    rw [List.map_cons, walkAll, walkAll, List.map_append, walkAll_emptied rest, emptied_isOfType]
    split
    next => rfl
    next enters =>
      have below : child.emptied = child.emptiedBelow := emptied_of_not_body (Bool.not_eq_true _ ▸ enters)
      rw [below, ← walk_emptiedBelow child (some parent), Option.map_some]

end

theorem recordKind?_emptied (node : Node) : recordKind? node.emptied = recordKind? node := by
  simp only [recordKind?, emptied_isOfType]

theorem isBody_of_recordKind? {node : Node} {kind : RecordKind}
    (ofKind : recordKind? node = some kind) : node.isBody = false :=
  isOfType_of_recordKind? ofKind (by decide)

theorem declaratorPrototype?_emptied (source returns : Text) (declarator : Node) :
    declaratorPrototype? source returns declarator.emptied =
      declaratorPrototype? source returns declarator := by
  simp only [declaratorPrototype?, pointee?_emptied]
  obtain ⟨stars, target⟩ := declarator.pointee?
  cases target with
  | none => rfl
  | some function =>
    simp only [Prod.map_apply, Option.map_some, id_eq, Option.bind_eq_bind, Option.bind_some,
      emptied_isOfType]
    cases isFunction : function.isOfType "function_declarator" with
    | false => rfl
    | true =>
      have enters := isBody_eq_false isFunction (by decide)
      simp only [child?_emptied enters]
      cases function.child? "declarator" with
      | none => rfl
      | some name =>
        cases function.child? "parameters" with
        | none => rfl
        | some parameters =>
          simp only [Option.map_some, Option.bind_some, emptied_isOfType, emptied_sourceText]

theorem declarationPrototypes_emptiedBelow (source : Text) (node : Node) :
    declarationPrototypes source node.emptiedBelow = declarationPrototypes source node := by
  simp only [declarationPrototypes, child?_emptiedBelow, childrenAt_emptiedBelow]
  cases node.child? "type" with
  | none => rfl
  | some type =>
    have returns : returnType source node.emptiedBelow type.emptied = returnType source node type := by
      simp only [returnType, emptied_stop]
      rfl
    simp only [Option.map_some, returns, List.filterMap_map, Function.comp_def,
      declaratorPrototype?_emptied]

theorem prototypes_emptiedBelow (source : Text) (tree : Node) :
    prototypes source tree.emptiedBelow = prototypes source tree := by
  have walks := walk_emptiedBelow tree none
  rw [Option.map_none] at walks
  rw [prototypes_eq, prototypes_eq, walks, List.flatMap_map]
  congr 1
  funext visit
  simp only [prototypesAt, emptiedVisit, Prod.map_snd, declarationPrototypes_emptiedBelow]
  rfl

/-! ## Records -/

def RecordSite.emptied (site : RecordSite) : RecordSite :=
  { site with record := site.record.emptied, body := site.body.emptied }

theorem typedefSite?_emptiedBelow (source : Text) (definition : Node) :
    typedefSite? source definition.emptiedBelow =
      (typedefSite? source definition).map RecordSite.emptied := by
  simp only [typedefSite?, child?_emptiedBelow, childrenAt_emptiedBelow, Option.bind_eq_bind]
  cases definition.child? "type" with
  | none => rfl
  | some record =>
    simp only [Option.map_some, Option.bind_some, recordKind?_emptied]
    cases kind : recordKind? record with
    | none => rfl
    | some kind' =>
      have enters := isBody_of_recordKind? kind
      simp only [child?_emptied enters, Option.bind_some]
      cases record.child? "body" with
      | none => rfl
      | some body =>
        simp only [Option.map_some, Option.bind_some, List.filter_map, Function.comp_def,
          emptied_isOfType, List.getLast?_map]
        cases ((definition.childrenAt "declarator").filter
            fun child => child.isOfType "type_identifier").getLast? with
        | none => rfl
        | some name =>
          simp only [Option.map_some, Option.bind_some, emptied_sourceText]
          rfl

theorem taggedSite?_emptiedBelow (source : Text) (parent : Option Node) (record : Node) :
    taggedSite? source (parent.map emptiedBelow) record.emptiedBelow =
      (taggedSite? source parent record).map RecordSite.emptied := by
  have kinds : recordKind? record.emptiedBelow = recordKind? record := rfl
  simp only [taggedSite?, child?_emptiedBelow, kinds, Option.bind_eq_bind]
  cases kind : recordKind? record with
  | none => rfl
  | some kind' =>
    cases parent with
    | none => rfl
    | some parent =>
      simp only [Option.map_some, Option.bind_some]
      have types : parent.emptiedBelow.type = parent.type := rfl
      rw [types]
      split
      next => rfl
      next =>
        cases record.child? "name" with
        | none => rfl
        | some name =>
          cases record.child? "body" with
          | none => rfl
          | some body =>
            simp only [Option.map_some, Option.bind_some, emptied_sourceText]
            rw [← emptied_of_not_body (isBody_of_recordKind? kind)]
            rfl

theorem siteAt?_emptiedVisit (source : Text) (visit : Visit) :
    siteAt? source (emptiedVisit visit) = (siteAt? source visit).map RecordSite.emptied := by
  have types : (emptiedVisit visit).2.isOfType "type_definition" =
      visit.2.isOfType "type_definition" := rfl
  rw [siteAt?, siteAt?, types]
  split
  · exact typedefSite?_emptiedBelow source visit.2
  · exact taggedSite?_emptiedBelow source visit.1 visit.2

/-- The record that a node reports is the node or one of its children. -/
theorem mem_of_siteAt? {visit : Visit} {site : RecordSite} (found : siteAt? source visit = some site) :
    (site.record = visit.2 ∨ site.record ∈ visit.2.children) ∧
      recordKind? site.record = some site.kind ∧ site.record.child? "body" = some site.body := by
  rw [siteAt?] at found
  split at found
  · obtain ⟨held, kinds, bodies, -⟩ := typedefSite?_eq_some found
    exact ⟨Or.inr (child?_mem held), kinds, bodies⟩
  · obtain ⟨same, kinds, bodies, -⟩ := taggedSite?_eq_some found
    rw [same]
    exact ⟨Or.inl rfl, kinds, bodies⟩

theorem fieldNodes_emptied {site : RecordSite} (enters : site.body.isBody = false) :
    site.emptied.fieldNodes = site.fieldNodes.map Node.emptied := by
  have children : site.body.emptied.children = site.body.children.map Node.emptied := by
    rw [emptied_of_not_body enters]
    rfl
  simp only [RecordSite.fieldNodes, RecordSite.emptied, children, List.filter_map,
    Function.comp_def, emptied_named, emptied_isOfType]

/-- A field of a readable tree has its record type in place just if it has it with emptied bodies. -/
theorem isNested_emptied {field : Node} (isField : field.isOfType "field_declaration" = true)
    (readable : field.isReadable = true) : isNested field.emptied = isNested field := by
  have enters := isBody_eq_false isField (by decide)
  simp only [isNested, child?_emptied enters]
  cases held : field.child? "type" with
  | none => rfl
  | some type =>
    have plain : type.isBody = false := by
      simpa [isReadable, isField, held] using (Bool.and_eq_true_iff.mp readable).2
    simp only [Option.map_some, Option.bind_some, child?_emptied plain, Option.isSome_map]

/-- The body and the fields of a record that a node of a readable tree reports. -/
theorem readable_of_siteAt? {visit : Visit} {site : RecordSite} (readable : Readable visit.2)
    (found : siteAt? source visit = some site) :
    site.body.isBody = false ∧ ∀ field ∈ site.fieldNodes, field.isReadable = true := by
  obtain ⟨place, kinds, bodies⟩ := mem_of_siteAt? found
  have record : Readable site.record := by
    rcases place with same | held
    · rwa [same]
    · exact readable.child held
  have enters : site.body.isBody = false := by
    simpa [isReadable, kinds, bodies] using (Bool.and_eq_true_iff.mp record.self).1
  refine ⟨enters, fun field member => ?_⟩
  have inside := (List.mem_filter.mp member).1
  exact ((record.child (child?_mem bodies)).child inside).self

theorem isOfType_of_mem_fieldNodes {site : RecordSite} {field : Node}
    (member : field ∈ site.fieldNodes) : field.isOfType "field_declaration" = true :=
  (Bool.and_eq_true_iff.mp (List.mem_filter.mp member).2).2

theorem toRecord_emptied {site : RecordSite} (enters : site.body.isBody = false)
    (readable : ∀ field ∈ site.fieldNodes, field.isReadable = true) :
    site.emptied.toRecord source = site.toRecord source := by
  have nested : ∀ field ∈ site.fieldNodes, (!isNested field.emptied) = !isNested field :=
    fun field member => by
      rw [isNested_emptied (isOfType_of_mem_fieldNodes member) (readable field member)]
  simp only [RecordSite.toRecord, fieldNodes_emptied enters, List.filter_map, List.flatMap_map,
    Function.comp_def, emptied_sourceText, List.filter_congr nested]
  rfl

/-- A tree that is readable with emptied bodies has the same records with and without them. -/
theorem records_emptiedBelow (source : Text) {tree : Node} (readable : Readable tree.emptiedBelow) :
    records source tree.emptiedBelow = records source tree := by
  have walks := walk_emptiedBelow tree none
  rw [Option.map_none] at walks
  rw [records_eq, records_eq, walks, List.filterMap_map]
  refine List.filterMap_congr fun visit member => ?_
  have visited : Readable visit.2.emptiedBelow := by
    apply readable.visit none (emptiedVisit visit)
    rw [walks]
    exact List.mem_map_of_mem member
  rw [Function.comp_apply, recordAt?, recordAt?, siteAt?_emptiedVisit, Option.map_map]
  cases found : siteAt? source visit with
  | none => rfl
  | some site =>
    have emptiedFound : siteAt? source (emptiedVisit visit) = some site.emptied := by
      rw [siteAt?_emptiedVisit, found, Option.map_some]
    obtain ⟨enters, fields⟩ := readable_of_siteAt? visited emptiedFound
    have whole : site.body.isBody = false := by
      rwa [RecordSite.emptied, emptied_isBody] at enters
    rw [Option.map_some, Function.comp_apply, toRecord_emptied whole, Option.map_some]
    intro field member
    have isField := isBody_eq_false (isOfType_of_mem_fieldNodes member) (by decide)
    rw [← isReadable_emptiedBelow, ← emptied_of_not_body isField]
    apply fields
    rw [fieldNodes_emptied whole]
    exact List.mem_map_of_mem member

/-- Any number of times other children in function bodies, whatever these are: the tree keeps its
prototypes and its records. -/
theorem declarations_rebodied (source : Text) {tree tree' : Node} (readable : Readable tree)
    (rebodied : Relation.ReflTransGen RebodiedBelow tree tree') :
    prototypes source tree' = prototypes source tree ∧
      records source tree' = records source tree := by
  have same := emptiedBelow_of_rebodied rebodied
  have emptied : Readable tree'.emptiedBelow := by
    rw [same]
    exact readable.emptiedBelow
  constructor
  · calc prototypes source tree'
      _ = prototypes source tree'.emptiedBelow := (prototypes_emptiedBelow source tree').symm
      _ = prototypes source tree.emptiedBelow := by rw [same]
      _ = prototypes source tree := prototypes_emptiedBelow source tree
  · calc records source tree'
      _ = records source tree'.emptiedBelow := (records_emptiedBelow source emptied).symm
      _ = records source tree.emptiedBelow := by rw [same]
      _ = records source tree := records_emptiedBelow source readable.emptiedBelow

namespace Sample

def text : Text :=
  "int f(int a) \x7b return a; \x7d\nstruct p \x7b int x; \x7d;\nint g(void);\n".toList

def pointNode : Node :=
  node "struct_specifier" none 27 46 [
    node "type_identifier" (some "name") 34 35 [],
    node "field_declaration_list" (some "body") 36 46 [
      node "field_declaration" none 38 44 [
        node "primitive_type" (some "type") 38 41 [],
        node "field_identifier" (some "declarator") 42 43 []]]]

def declarationNode : Node :=
  node "declaration" none 48 60 [
    node "primitive_type" (some "type") 48 51 [],
    node "function_declarator" (some "declarator") 52 59 [
      node "identifier" (some "declarator") 52 53 [],
      node "parameter_list" (some "parameters") 53 59 []]]

/-- A record whose fields are given by a function body: what reads it would read that body. -/
def unreadableNode : Node :=
  node "struct_specifier" none 27 46 [
    node "type_identifier" (some "name") 34 35 [],
    node "compound_statement" (some "body") 36 46 []]

/-- A function whose body holds the given nodes, a record and a declaration. -/
def tree (body : List Node) : Node :=
  node "translation_unit" none 0 61 [
    node "function_definition" none 0 26 [
      node "primitive_type" (some "type") 0 3 [],
      node "function_declarator" (some "declarator") 4 12 [
        node "identifier" (some "declarator") 4 5 [],
        node "parameter_list" (some "parameters") 5 12 []],
      node "compound_statement" (some "body") 13 26 body],
    pointNode, declarationNode]

theorem rebodied (body : List Node) : RebodiedBelow (tree []) (tree body) :=
  ⟨[], _, _, _, rfl,
    @Rebodied.inside _ _ _ [_, _] [] rfl (.body rfl body), rfl⟩

end Sample

/-- A record, a declaration and a node that could not be read, all in the body of a function. -/
theorem declarations_rebodied_sample :
    let tree := Sample.tree []
    let tree' := Sample.tree [Sample.pointNode, Sample.declarationNode, Sample.unreadableNode]
    Readable tree ∧ Relation.ReflTransGen RebodiedBelow tree tree' ∧
      prototypes Sample.text tree' = [⟨"g".toList, "int".toList, []⟩] ∧
      records Sample.text tree' = [⟨.struct, "p".toList, [⟨"int".toList, some "x".toList⟩]⟩] := by
  intro tree tree'
  have readable : Readable (Sample.tree []) := by
    unfold Readable
    decide +kernel
  have rebodied : Relation.ReflTransGen RebodiedBelow tree tree' := .single (Sample.rebodied _)
  have functions : prototypes Sample.text (Sample.tree []) = [⟨"g".toList, "int".toList, []⟩] := by
    decide +kernel
  have structures : records Sample.text (Sample.tree []) =
      [⟨.struct, "p".toList, [⟨"int".toList, some "x".toList⟩]⟩] := by
    decide +kernel
  obtain ⟨same, others⟩ := declarations_rebodied Sample.text readable rebodied
  exact ⟨readable, rebodied, same.trans functions, others.trans structures⟩

end Syntax

end CHeader
