import CHeader.Prototype
import CHeader.Record
import CHeader.Syntax.Tree
import CHeader.Text.Flat

/-!
# Declarations in a syntax tree

Functions are the function declarators of declarations, through any number of pointers. Records are
reported once: a type definition reports the record it names, and a tagged record reports itself
unless it is part of a larger declaration. Parameters and fields are read from their text.
-/
namespace CHeader.Syntax

open Text

/-- Words of a declaration that are no part of the return type. -/
def storageWords : List Text := [
  "extern".toList, "static".toList, "inline".toList, "__inline".toList, "__inline__".toList,
  "register".toList]

def plainText (s : Text) : Text := collapse (stripComments s)

/-! ## Functions -/

/-- The words from the start of a declaration to the end of its type. -/
def returnType (source : Text) (declaration type : Node) : Text :=
  let before := sliceBytes declaration.start (min declaration.stop type.stop) source
  joinWith [' '] ((words (plainText before)).filter (· ∉ storageWords))

/-- The text without its first and last character. -/
def inner (s : Text) : Text := (s.drop 1).dropLast

/-- The prototype that a declarator makes together with the type of its declaration. -/
def declaratorPrototype? (source returns : Text) (declarator : Node) : Option Prototype := do
  let (stars, target) := declarator.pointee?
  let function ← target
  if !function.isOfType "function_declarator" then none
  let name ← function.child? "declarator"
  let parameters ← function.child? "parameters"
  if !name.isOfType "identifier" then none
  return {
    name := trim (name.sourceText source)
    returns := returns ++ List.replicate stars '*'
    parameters := Parameter.parseList (plainText (inner (trim (parameters.sourceText source)))) }

def declarationPrototypes (source : Text) (declaration : Node) : List Prototype :=
  match declaration.child? "type" with
  | none => []
  | some type =>
    (declaration.childrenAt "declarator").filterMap
      (declaratorPrototype? source (returnType source declaration type))

def prototypes (source : Text) (tree : Node) : List Prototype :=
  (tree.walk none).flatMap fun (_, node) =>
    if node.isOfType "declaration" then declarationPrototypes source node else []

/-! ## Records -/

def recordKind? (node : Node) : Option RecordKind :=
  if node.isOfType "struct_specifier" then some .struct
  else if node.isOfType "union_specifier" then some .union
  else none

/-- A tagged record under one of these is part of a larger declaration. -/
def enclosingTypes : List Text := [
  "type_definition".toList, "field_declaration".toList, "declaration".toList,
  "parameter_declaration".toList]

/-- A record as a node reports it: the node of the record itself, its body, and its name. -/
structure RecordSite where
  kind : RecordKind
  name : Text
  record : Node
  body : Node

def typedefSite? (source : Text) (definition : Node) : Option RecordSite := do
  let record ← definition.child? "type"
  let kind ← recordKind? record
  let body ← record.child? "body"
  let names := (definition.childrenAt "declarator").filter (·.isOfType "type_identifier")
  let name ← names.getLast?
  return ⟨kind, trim (name.sourceText source), record, body⟩

def taggedSite? (source : Text) (parent : Option Node) (record : Node) : Option RecordSite := do
  let kind ← recordKind? record
  let parent ← parent
  if parent.type ∈ enclosingTypes then none
  let name ← record.child? "name"
  let body ← record.child? "body"
  return ⟨kind, trim (name.sourceText source), record, body⟩

def recordSites (source : Text) (tree : Node) : List RecordSite :=
  (tree.walk none).filterMap fun (parent, node) =>
    if node.isOfType "type_definition" then typedefSite? source node
    else taggedSite? source parent node

/-- Is the field's type a record that is defined in place? -/
def isNested (field : Node) : Bool :=
  ((field.child? "type").bind (·.child? "body")).isSome

def RecordSite.fieldNodes (site : RecordSite) : List Node :=
  site.body.children.filter fun child => child.named && child.isOfType "field_declaration"

def RecordSite.toRecord (source : Text) (site : RecordSite) : Record where
  kind := site.kind
  name := site.name
  fields := (site.fieldNodes.filter (!isNested ·)).flatMap fun field =>
    Record.fieldsOf (plainText (trim (field.sourceText source)))

def records (source : Text) (tree : Node) : List Record :=
  (recordSites source tree).map (RecordSite.toRecord source)

/-- The records whose fields of nested record type are left out, once for each such field. -/
def nestedFields (source : Text) (tree : Node) : List Text :=
  (recordSites source tree).flatMap fun site =>
    (site.fieldNodes.filter isNested).map fun _ => site.name

end CHeader.Syntax
