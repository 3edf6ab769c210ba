import CHeader.Proofs.Item.Written
import CHeader.Proofs.Syntax.Tree

/-!
# Syntax trees of written headers

The tree of a written header has a node for each item. The nodes of an item cover its pieces: the
return word, the name and the parameters of a prototype, the name and the fields of a record. What
else there is in the tree, marks and the nodes within parameters and fields, must not declare
anything; nothing more is known about it.
-/
namespace CHeader

open Text Syntax Node

namespace Item

/-! ## Trees -/

/-- The tree of a prototype. A pointer declarator for each star is nested around the declarator of
the function. -/
structure Function.Tree (form : Function) (before : Text) where
  declaration : Node
  type : Node
  declarator : Node
  function : Node
  name : Node
  parameters : Node
  isDeclaration : declaration.isOfType "declaration" = true
  covers : declaration.Covers before (form.text ++ [';'])
  typed : declaration.child? "type" = some type
  returns : type.Covers before form.returns.text
  declared : declaration.childrenAt "declarator" = [declarator]
  points : Points form.stars declarator function
  isFunction : function.isOfType "function_declarator" = true
  named : function.child? "declarator" = some name
  isName : name.isOfType "identifier" = true
  nameCovers : name.Covers
    (before ++ (form.returns.text ++ (List.replicate form.stars '*' ++ [' ']))) form.name.text
  listed : function.child? "parameters" = some parameters
  listCovers : parameters.Covers
    (before ++ (form.returns.text ++ (List.replicate form.stars '*' ++ ' ' :: form.name.text)))
    ('(' :: (form.parameters ++ [')']))
  quiet : declaration.children.all (isQuiet declaration) = true

/-- The nodes between the braces of a record. A field covers its semicolon too. -/
inductive FieldNodes : (before : Text) → List Field → List Node → Prop
  | nil {before : Text} : FieldNodes before [] []
  | aside {before : Text} {fields : List Field} {node : Node} {nodes : List Node}
      (other : (node.named && node.isOfType "field_declaration") = false)
      (rest : FieldNodes before fields nodes) : FieldNodes before fields (node :: nodes)
  | field {before : Text} {field : Field} {fields : List Field} {node : Node} {nodes : List Node}
      (isField : (node.named && node.isOfType "field_declaration") = true)
      (covers : node.Covers (before ++ field.gap.text) (field.text ++ [';']))
      (unnested : isNested node = false)
      (rest : FieldNodes (before ++ (field.gap.text ++ (field.text ++ [';']))) fields nodes) :
      FieldNodes before (field :: fields) (node :: nodes)

/-- The tree of a record whose body comes after `before`. -/
structure RecordTree (kind : RecordKind) (body : Body) (before : Text) where
  record : Node
  list : Node
  ofKind : recordKind? record = some kind
  held : record.child? "body" = some list
  fields : FieldNodes before body.fields list.children

def typedefLead (kind : RecordKind) (tag : Option Word) : Text :=
  "typedef ".toList ++ (Record.kindText kind ++ (Record.tagText tag ++ [' ', '{']))

def taggedLead (kind : RecordKind) (tag : Word) : Text :=
  Record.kindText kind ++ ' ' :: (tag.text ++ [' ', '{'])

structure TypedefTree (kind : RecordKind) (tag : Option Word) (body : Body) (name : Word)
    (before : Text) extends RecordTree kind body (before ++ typedefLead kind tag) where
  definition : Node
  newName : Node
  isDefinition : definition.isOfType "type_definition" = true
  typed : definition.child? "type" = some record
  declared : definition.childrenAt "declarator" = [newName]
  isName : newName.isOfType "type_identifier" = true
  nameCovers : newName.Covers (before ++ (typedefLead kind tag ++ (body.text ++ ['}', ' '])))
    name.text
  quiet : definition.children.all (isQuiet definition) = true

structure TaggedTree (kind : RecordKind) (tag : Word) (body : Body) (before : Text) extends
    RecordTree kind body (before ++ taggedLead kind tag) where
  name : Node
  named : record.child? "name" = some name
  nameCovers : name.Covers (before ++ (Record.kindText kind ++ [' '])) tag.text
  quiet : record.children.all (isQuiet record) = true

/-- The node of an item that comes after `before`. -/
inductive ItemNode (before : Text) : Item → Node → Prop
  | function {form : Function} (tree : form.Tree before) :
      ItemNode before (.function form) tree.declaration
  | typedef {kind : RecordKind} {tag : Option Word} {body : Body} {name : Word}
      (tree : TypedefTree kind tag body name before) :
      ItemNode before (.typedef kind tag body name) tree.definition
  | tagged {kind : RecordKind} {tag : Word} {body : Body} (tree : TaggedTree kind tag body before) :
      ItemNode before (.tagged kind tag body) tree.record

inductive ItemNodes (root : Node) : (before : Text) → List (Gap × Item) → List Node → Prop
  | nil {before : Text} : ItemNodes root before [] []
  | aside {before : Text} {items : List (Gap × Item)} {node : Node} {nodes : List Node}
      (quiet : isQuiet root node = true) (rest : ItemNodes root before items nodes) :
      ItemNodes root before items (node :: nodes)
  | item {before : Text} {gap : Gap} {item : Item} {items : List (Gap × Item)} {node : Node}
      {nodes : List Node} (tree : ItemNode (before ++ gap.text) item node)
      (rest : ItemNodes root (before ++ (gap.text ++ item.text)) items nodes) :
      ItemNodes root before ((gap, item) :: items) (node :: nodes)

/-- The tree of a written header. -/
structure HeaderTree (items : List (Gap × Item)) (root : Node) : Prop where
  isRoot : root.isOfType "translation_unit" = true
  nodes : ItemNodes root [] items root.children

/-! ## Prototypes -/

theorem plainText_eq_collapse {s : Text} (uncommented : ¬HasComment s) :
    plainText s = collapse s := by
  rw [plainText, stripComments_eq_self uncommented]

theorem words_plainText (word : Word) : words (plainText word.text) = [word.text] := by
  have solid : ∀ c ∈ word.text, isSpace c = false := fun c member =>
    isSpace_of_isWord (word.chars c member)
  have uncommented : ¬HasComment word.text := not_hasComment (word.not_mem (by decide))
  rw [plainText_eq_collapse uncommented, collapse_of_starts_ends word.starts word.ends, squeeze_word,
    words_eq_singleton word.filled solid]

/-- Parameters are read without the blank space at their ends. -/
theorem parseList_trim (s : Text) : Parameter.parseList (trim s) = Parameter.parseList s := by
  rw [Parameter.parseList, Parameter.parseList, trim_trim]

theorem inner_parenthesized (s : Text) : Syntax.inner ('(' :: (s ++ [')'])) = s := by
  rw [Syntax.inner, List.drop_one, List.tail_cons, List.dropLast_concat]

namespace Function.Tree

variable {form : Function} {before : Text} (tree : form.Tree before) (after : Text)

theorem returnType :
    returnType (before ++ (form.text ++ ';' :: after)) tree.declaration tree.type =
      form.returns.text := by
  obtain ⟨later, whole⟩ : ∃ later, form.text ++ [';'] = form.returns.text ++ later :=
    ⟨_, by rw [Function.text, Prototype.headText, List.append_assoc, List.append_assoc]⟩
  -- the return word is part of the declaration
  have stop : min tree.declaration.stop tree.type.stop = tree.type.stop := by
    rw [tree.covers.stop, tree.returns.stop, whole, byteLength_append, byteLength_append,
      byteLength_append]
    omega
  have source : form.text ++ ';' :: after = form.returns.text ++ (later ++ after) := by
    rw [← List.append_assoc, ← whole]
    simp
  have kept : [form.returns.text].filter (· ∉ storageWords) = [form.returns.text] :=
    List.filter_eq_self.mpr (by simpa using form.unreserved.2)
  rw [Syntax.returnType, stop, tree.covers.start, tree.returns.stop, source, sliceBytes_append,
    words_plainText, kept]
  rfl

theorem nameText :
    trim (tree.name.sourceText (before ++ (form.text ++ ';' :: after))) = form.name.text := by
  have source : before ++ (form.text ++ ';' :: after) =
      (before ++ (form.returns.text ++ (List.replicate form.stars '*' ++ [' ']))) ++
        (form.name.text ++ ('(' :: (form.parameters ++ ')' :: ';' :: after))) := by
    simp [Function.text_eq]
  rw [source, tree.nameCovers.sourceText, trim_eq_self form.name.starts form.name.ends]

theorem parameters_eq :
    Parameter.parseList (plainText (Syntax.inner (trim
        (tree.parameters.sourceText (before ++ (form.text ++ ';' :: after)))))) =
      Parameter.parseList form.squeeze.parameters := by
  have source : before ++ (form.text ++ ';' :: after) =
      (before ++ (form.returns.text ++ (List.replicate form.stars '*' ++ ' ' :: form.name.text))) ++
        (('(' :: (form.parameters ++ [')'])) ++ ';' :: after) := by
    simp [Function.text_eq]
  have trimmed : trim ('(' :: (form.parameters ++ [')'])) = '(' :: (form.parameters ++ [')']) :=
    trim_eq_self (starts_cons (by decide) _) (ends_concat (by decide) ('(' :: form.parameters))
  rw [source, tree.listCovers.sourceText, trimmed, inner_parenthesized,
    plainText_eq_collapse form.plain.2.not_hasComment, collapse_eq, parseList_trim]
  rfl

theorem declaratorPrototype? :
    declaratorPrototype? (before ++ (form.text ++ ';' :: after)) form.returns.text tree.declarator =
      some form.squeeze.prototype := by
  simp only [Syntax.declaratorPrototype?, tree.points.pointee?, tree.isFunction, tree.named,
    tree.listed, tree.isName, tree.nameText, tree.parameters_eq, Option.bind_eq_bind,
    Option.bind_some, Bool.not_true, Bool.false_eq_true, ↓reduceIte, Option.pure_def]
  rfl

theorem reports (parent : Option Node) :
    Reports (before ++ (form.text ++ ';' :: after)) (Node.walk parent tree.declaration)
      [form.squeeze.prototype] [] := by
  have functions : prototypesAt (before ++ (form.text ++ ';' :: after)) (parent, tree.declaration) =
      [form.squeeze.prototype] := by
    rw [prototypesAt, if_pos tree.isDeclaration, declarationPrototypes, tree.typed]
    simp only [tree.declared, tree.returnType, List.filterMap_cons, tree.declaratorPrototype?,
      List.filterMap_nil]
  have noRecord : recordKind? tree.declaration = none :=
    recordKind?_eq_none tree.isDeclaration (by decide)
  have noSite : siteAt? (before ++ (form.text ++ ';' :: after)) (parent, tree.declaration) =
      none := by
    have noDefinition := isOfType_eq_false tree.isDeclaration
      (show "declaration".toList ≠ "type_definition".toList by decide)
    rw [siteAt?, if_neg (by simp [noDefinition]), taggedSite?, noRecord]
    rfl
  have walked := Reports.walk (before ++ (form.text ++ ';' :: after)) parent tree.quiet
  rw [functions, recordAt?, noSite] at walked
  exact walked

end Function.Tree

/-! ## Records -/

/-- The fields of one node are read with its semicolon. -/
theorem fieldsOf_field (field : Field) :
    Record.fieldsOf (plainText (trim (field.text ++ [';']))) =
      Record.declarationFields field.squeeze.text := by
  have starts : Starts (field.text ++ [';']) := field.form.starts.append _
  have ends : Ends (field.text ++ [';']) := ends_concat (by decide) _
  have uncommented : ¬HasComment (field.text ++ [';']) := by
    apply not_hasComment
    simp [field.form.not_mem (show '/' ∈ [';', '{', '}', '#', '/'] by simp)]
  have read := fieldsOf_fieldsText [⟨⟨[], by simp⟩, Text.squeeze field.text, field.form.squeeze⟩]
    ⟨[], by simp⟩
  simp only [fieldsText, List.flatMap_cons, List.flatMap_nil, List.nil_append, List.append_nil] at read
  rw [trim_eq_self starts ends, plainText_eq_collapse uncommented, collapse_of_starts_ends starts ends,
    squeeze_append_of_ends field.form.ends, squeeze_cons (by decide)]
  exact read

theorem FieldNodes.fields_eq {before : Text} {fields : List Field} {nodes : List Node}
    (parsed : FieldNodes before fields nodes) (after : Text) :
    ((nodes.filter fun node => node.named && node.isOfType "field_declaration").filter
        (!isNested ·)).flatMap (fun node => Record.fieldsOf (plainText (trim
          (node.sourceText (before ++ (fieldsText fields ++ after)))))) =
      fields.flatMap fun field => Record.declarationFields field.squeeze.text := by
  induction parsed with
  | nil => rfl
  | @aside before fields node nodes other rest ih =>
    rw [List.filter_cons, if_neg (by simp [other]), ih]
  | @field before field fields node nodes isField covers unnested rest ih =>
    -- the source is read as this field and what follows, then as the fields behind this one
    have source : before ++ (fieldsText (field :: fields) ++ after) =
        (before ++ field.gap.text) ++ ((field.text ++ [';']) ++ (fieldsText fields ++ after)) := by
      simp [fieldsText]
    have later : before ++ (fieldsText (field :: fields) ++ after) =
        (before ++ (field.gap.text ++ (field.text ++ [';']))) ++ (fieldsText fields ++ after) := by
      simp [fieldsText]
    rw [List.filter_cons, if_pos isField, List.filter_cons, if_pos (by simp [unnested]),
      List.flatMap_cons, later, ih, ← later, source, covers.sourceText, fieldsOf_field]
    rfl

theorem RecordTree.toRecord {kind : RecordKind} {body : Body} {before : Text}
    (tree : RecordTree kind body before) (name after : Text) :
    RecordSite.toRecord (before ++ (body.text ++ after)) ⟨kind, name, tree.record, tree.list⟩ =
      ⟨kind, name, body.squeeze.parameters⟩ := by
  have source : before ++ (body.text ++ after) =
      before ++ (fieldsText body.fields ++ (body.closing.text ++ after)) := by
    rw [Body.text, List.append_assoc]
  have fields := tree.fields.fields_eq (body.closing.text ++ after)
  rw [source, RecordSite.toRecord]
  refine congrArg (Record.mk kind name) (fields.trans ?_)
  rw [Body.parameters, Body.squeeze, List.flatMap_map]

theorem typedefText_append (kind : RecordKind) (tag : Option Word) (body : Text) (name : Word)
    (after : Text) : Record.typedefText kind tag body name ++ after =
      typedefLead kind tag ++ (body ++ '}' :: ' ' :: (name.text ++ ';' :: after)) := by
  unfold Record.typedefText typedefLead
  simp only [List.append_assoc, List.cons_append, List.nil_append]

theorem taggedText_append (kind : RecordKind) (tag : Word) (body after : Text) :
    Record.taggedText kind tag body ++ after =
      taggedLead kind tag ++ (body ++ '}' :: ';' :: after) := by
  unfold Record.taggedText taggedLead
  simp only [List.append_assoc, List.cons_append, List.nil_append]

section

variable {kind : RecordKind} {body : Body} {before : Text} (after : Text)

theorem TypedefTree.reports {tag : Option Word} {name : Word}
    (tree : TypedefTree kind tag body name before) (parent : Option Node) :
    Reports (before ++ (Record.typedefText kind tag body.text name ++ after))
      (Node.walk parent tree.definition) [] [⟨kind, name.text, body.squeeze.parameters⟩] := by
  have functions (source : Text) : prototypesAt source (parent, tree.definition) = [] := by
    have noDeclaration := isOfType_eq_false tree.isDefinition
      (show "type_definition".toList ≠ "declaration".toList by decide)
    rw [prototypesAt, if_neg (by simp [noDeclaration])]
  have opened : before ++ (Record.typedefText kind tag body.text name ++ after) =
      (before ++ typedefLead kind tag) ++
        (body.text ++ '}' :: ' ' :: (name.text ++ ';' :: after)) := by
    rw [typedefText_append, List.append_assoc]
  have closed : before ++ (Record.typedefText kind tag body.text name ++ after) =
      (before ++ (typedefLead kind tag ++ (body.text ++ ['}', ' ']))) ++
        (name.text ++ ';' :: after) := by
    rw [typedefText_append]
    simp only [List.append_assoc, List.cons_append, List.nil_append]
  have record : recordAt? (before ++ (Record.typedefText kind tag body.text name ++ after))
      (parent, tree.definition) = some ⟨kind, name.text, body.squeeze.parameters⟩ := by
    have names : [tree.newName].filter (·.isOfType "type_identifier") = [tree.newName] := by
      rw [List.filter_cons, if_pos tree.isName, List.filter_nil]
    rw [recordAt?, siteAt?, if_pos tree.isDefinition]
    simp only [typedefSite?, tree.typed, tree.ofKind, tree.held, tree.declared, names,
      List.getLast?_singleton, Option.bind_eq_bind, Option.bind_some, Option.pure_def,
      Option.map_some]
    rw [closed, tree.nameCovers.sourceText, ← closed, opened, tree.toRecord,
      trim_eq_self name.starts name.ends]
  have walked := Reports.walk (before ++ (Record.typedefText kind tag body.text name ++ after))
    parent tree.quiet
  rw [functions, record] at walked
  exact walked

theorem TaggedTree.reports {tag : Word} (tree : TaggedTree kind tag body before) {root : Node}
    (isRoot : root.isOfType "translation_unit" = true) :
    Reports (before ++ (Record.taggedText kind tag body.text ++ after))
      (Node.walk (some root) tree.record) [] [⟨kind, tag.text, body.squeeze.parameters⟩] := by
  have functions (source : Text) : prototypesAt source (some root, tree.record) = [] := by
    have noDeclaration := isOfType_of_recordKind? tree.ofKind
      (show "declaration".toList ∉ ["struct_specifier".toList, "union_specifier".toList] by decide)
    rw [prototypesAt, if_neg (by simp [noDeclaration])]
  have opened : before ++ (Record.taggedText kind tag body.text ++ after) =
      (before ++ taggedLead kind tag) ++ (body.text ++ '}' :: ';' :: after) := by
    rw [taggedText_append, List.append_assoc]
  have named : before ++ (Record.taggedText kind tag body.text ++ after) =
      (before ++ (Record.kindText kind ++ [' '])) ++
        (tag.text ++ ' ' :: '{' :: (body.text ++ '}' :: ';' :: after)) := by
    rw [taggedText_append, taggedLead]
    simp only [List.append_assoc, List.cons_append, List.nil_append]
  have record : recordAt? (before ++ (Record.taggedText kind tag body.text ++ after))
      (some root, tree.record) = some ⟨kind, tag.text, body.squeeze.parameters⟩ := by
    have noDefinition := isOfType_of_recordKind? tree.ofKind
      (show "type_definition".toList ∉ ["struct_specifier".toList, "union_specifier".toList] by
        decide)
    -- nothing larger than the header itself encloses the record
    have free : root.type ∉ enclosingTypes := by
      rw [isOfType_iff.mp isRoot]
      decide
    rw [recordAt?, siteAt?, if_neg (by simp [noDefinition])]
    simp only [taggedSite?, tree.ofKind, tree.held, tree.named, if_neg free, Option.bind_eq_bind,
      Option.bind_some, Option.pure_def, Option.map_some]
    rw [named, tree.nameCovers.sourceText, ← named, opened, tree.toRecord,
      trim_eq_self tag.starts tag.ends]
  have walked := Reports.walk (before ++ (Record.taggedText kind tag body.text ++ after))
    (some root) tree.quiet
  rw [functions, record] at walked
  exact walked

end

/-! ## Headers -/

theorem ItemNode.reports {before : Text} {item : Item} {node root : Node}
    (tree : ItemNode before item node) (isRoot : root.isOfType "translation_unit" = true)
    (after : Text) : Reports (before ++ (item.text ++ after)) (Node.walk (some root) node)
      item.squeeze.prototype?.toList item.squeeze.record?.toList := by
  cases tree with
  | @function form tree =>
    have source : (Item.function form).text ++ after = form.text ++ ';' :: after := by
      simp [text]
    rw [source]
    exact tree.reports after (some root)
  | typedef tree => exact tree.reports after (some root)
  | tagged tree => exact tree.reports after isRoot

theorem ItemNode.not_compound {before : Text} {item : Item} {node : Node}
    (tree : ItemNode before item node) : node.isOfType "compound_statement" = false := by
  cases tree with
  | function tree => exact isOfType_eq_false tree.isDeclaration (by decide)
  | typedef tree => exact isOfType_eq_false tree.isDefinition (by decide)
  | tagged tree => exact isOfType_of_recordKind? tree.ofKind (by decide)

theorem ItemNodes.reports {root : Node} {before : Text} {items : List (Gap × Item)}
    {nodes : List Node} (parsed : ItemNodes root before items nodes)
    (isRoot : root.isOfType "translation_unit" = true) (after : Text) :
    Reports (before ++ (joined items ++ after)) (Node.walkAll root nodes)
      (items.filterMap (·.2.squeeze.prototype?)) (items.filterMap (·.2.squeeze.record?)) := by
  induction parsed with
  | nil => exact .nil
  | @aside before items node nodes quiet rest ih =>
    rw [Node.walkAll]
    split
    · exact ih
    · exact (Reports.of_all_isSilent quiet).append ih
  | @item before gap item items node nodes tree rest ih =>
    -- the same source, parted before this item and behind it
    have source : before ++ (joined ((gap, item) :: items) ++ after) =
        (before ++ gap.text) ++ (item.text ++ (joined items ++ after)) := by simp [joined]
    have later : before ++ (joined ((gap, item) :: items) ++ after) =
        (before ++ (gap.text ++ item.text)) ++ (joined items ++ after) := by simp [joined]
    have here := tree.reports isRoot (joined items ++ after)
    rw [← source] at here
    rw [← later] at ih
    rw [Node.walkAll, if_neg (by simp [tree.not_compound])]
    have both := here.append ih
    cases item <;> exact both

/-- The tree of a written header reports each of its items, in order. -/
theorem HeaderTree.declared {items : List (Gap × Item)} {tree : Node} (parsed : HeaderTree items tree)
    (ending : Gap) :
    prototypes (written items ending) tree = items.filterMap (·.2.squeeze.prototype?) ∧
      records (written items ending) tree = items.filterMap (·.2.squeeze.record?) := by
  have silent : isSilent (none, tree) = true := by
    have noDeclaration := isOfType_eq_false parsed.isRoot
      (show "translation_unit".toList ≠ "declaration".toList by decide)
    have noDefinition := isOfType_eq_false parsed.isRoot
      (show "translation_unit".toList ≠ "type_definition".toList by decide)
    have noRecord := recordKind?_eq_none parsed.isRoot (by decide)
    simp [isSilent, noDeclaration, noDefinition, noRecord]
  have reports := (Reports.of_isSilent (written items ending) silent).append
    (parsed.nodes.reports parsed.isRoot ending.text)
  rw [prototypes_eq, records_eq, walk_eq]
  exact ⟨reports.functions, reports.records⟩

end Item

end CHeader
