import CHeader.Analysis
import CHeader.Proofs.Constant
import CHeader.Proofs.Include
import CHeader.Proofs.Item.Pattern
import CHeader.Proofs.Item.Tree
import CHeader.Syntax.Part

/-!
# Patterns and trees agree

For a written header the analysis by patterns over the flat text and the analysis by the syntax tree
are the same. Both list the prototypes and the records in the order in which they are written, with
one space for each run of blank space in their parameters and fields. Such a header has no directive,
so neither analysis finds a constant or an include.
-/
namespace CHeader

open Text Syntax Node

namespace Item

/-! ## Agreement -/

/-- What a written header declares. -/
def declared (items : List (Gap × Item)) : Analysis where
  functions := items.filterMap (·.2.squeeze.prototype?)
  records := items.filterMap (·.2.squeeze.record?)
  constants := []
  includes := []

theorem ofText_written (items : List (Gap × Item)) (ending : Gap) :
    Analysis.ofText (written items ending) = .ok (declared items) := by
  obtain ⟨flat, same, flattened⟩ := flatten_written items ending
  have noHash := (plain_written items ending).1
  have functions : flat.filterMap (·.2.prototype?) = items.filterMap (·.2.squeeze.prototype?) := by
    have mapped := congrArg (List.filterMap prototype?) same
    rwa [List.filterMap_map, List.filterMap_map] at mapped
  have records : flat.filterMap (·.2.record?) = items.filterMap (·.2.squeeze.record?) := by
    have mapped := congrArg (List.filterMap record?) same
    rwa [List.filterMap_map, List.filterMap_map] at mapped
  rw [Analysis.ofText, Constant.extract_eq_nil noHash, flattened, Prototype.extract_joined,
    Record.extract_joined, Include.extract_eq_nil noHash, functions, records]
  rfl

theorem ofTree_written {items : List (Gap × Item)} {tree : Node} (parsed : HeaderTree items tree)
    (ending : Gap) : Analysis.ofTree (written items ending) tree = .ok (declared items) := by
  obtain ⟨functions, records⟩ := parsed.declared ending
  have noHash := (plain_written items ending).1
  rw [Analysis.ofTree, Constant.extract_eq_nil noHash, Include.extract_eq_nil noHash, functions,
    records]
  rfl

/-- Both analyses of a written header succeed, and they declare the same. -/
theorem ofTree_eq_ofText {items : List (Gap × Item)} {tree : Node} (parsed : HeaderTree items tree)
    (ending : Gap) :
    Analysis.ofTree (written items ending) tree = Analysis.ofText (written items ending) ∧
      Analysis.ofText (written items ending) = .ok (declared items) := by
  rw [ofTree_written parsed, ofText_written]
  exact ⟨rfl, rfl⟩

/-! ## A header with its tree -/

namespace Sample

def find : Function where
  returns := ⟨"u32".toList, by decide, by decide⟩
  stars := 1
  name := ⟨"find".toList, by decide, by decide⟩
  parameters := "struct list* from,  int key".toList
  unreserved := by decide
  proper := by decide
  single := by decide
  plain := ⟨by decide, unopened_of_not_mem (by decide)⟩

def space : Gap := ⟨[' '], by decide⟩

def newline : Gap := ⟨['\n'], by decide⟩

def entry : Body where
  fields := [
    ⟨space, "char name[8]".toList, .plain ⟨'c', by decide, by decide⟩ ⟨']', by decide, by decide⟩
      (by decide)⟩,
    ⟨space, "u16 (*rank)(int, int)".toList,
      @IsField.callback ⟨"u16".toList, by decide, by decide⟩ ⟨"rank".toList, by decide, by decide⟩
        [' '] "int, int".toList (by decide) (by decide)⟩]
  closing := space

def value : Body where
  fields := [⟨⟨[], by decide⟩, "int *cell, count".toList,
    .plain ⟨'i', by decide, by decide⟩ ⟨'t', by decide, by decide⟩ (by decide)⟩]
  closing := ⟨[], by decide⟩

def items : List (Gap × Item) := [
  (⟨[], by decide⟩, .function find),
  (newline, .typedef .struct none entry ⟨"Entry".toList, by decide, by decide⟩),
  (newline, .tagged .union ⟨"value".toList, by decide, by decide⟩ value)]

def findNode : Node :=
  node "declaration" none 0 39 [
    node "type_identifier" (some "type") 0 3 [],
    node "pointer_declarator" (some "declarator") 3 38 [
      node "function_declarator" (some "declarator") 5 38 [
        node "identifier" (some "declarator") 5 9 [],
        node "parameter_list" (some "parameters") 9 38 [
          node "parameter_declaration" none 10 27 [
            node "struct_specifier" (some "type") 10 21 [
              node "type_identifier" (some "name") 17 21 []],
            node "pointer_declarator" (some "declarator") 21 27 [
              node "identifier" (some "declarator") 23 27 []]],
          node "parameter_declaration" none 30 37 [
            node "primitive_type" (some "type") 30 33 [],
            node "identifier" (some "declarator") 34 37 []]]]]]

def entryNode : Node :=
  node "type_definition" none 40 102 [
    node "struct_specifier" (some "type") 48 95 [
      node "field_declaration_list" (some "body") 55 95 [
        node "field_declaration" none 57 70 [
          node "primitive_type" (some "type") 57 61 [],
          node "array_declarator" (some "declarator") 62 69 [
            node "field_identifier" (some "declarator") 62 66 []]],
        node "field_declaration" none 71 93 [
          node "type_identifier" (some "type") 71 74 [],
          node "function_declarator" (some "declarator") 75 92 [
            node "parenthesized_declarator" (some "declarator") 75 82 [],
            node "parameter_list" (some "parameters") 82 92 []]]]],
    node "type_identifier" (some "declarator") 96 101 []]

def valueNode : Node :=
  node "union_specifier" none 103 134 [
    node "type_identifier" (some "name") 109 114 [],
    node "field_declaration_list" (some "body") 115 134 [
      node "field_declaration" none 116 133 [
        node "primitive_type" (some "type") 116 119 [],
        node "pointer_declarator" (some "declarator") 120 125 [
          node "field_identifier" (some "declarator") 121 125 []],
        node "field_identifier" (some "declarator") 127 132 []]]]

/-- The semicolon after the tagged record is a node of its own. -/
def tree : Node :=
  node "translation_unit" none 0 136 [findNode, entryNode, valueNode,
    ⟨[';'], none, false, 134, 135, []⟩]

def findTree : find.Tree [] where
  declaration := findNode
  type := _
  declarator := _
  function := _
  name := _
  parameters := _
  isDeclaration := by decide
  covers := ⟨by decide, by decide⟩
  typed := rfl
  returns := ⟨by decide, by decide⟩
  declared := rfl
  points := .pointer (by decide) rfl (.target (by decide))
  isFunction := by decide
  named := rfl
  isName := by decide
  nameCovers := ⟨by decide, by decide⟩
  listed := rfl
  listCovers := ⟨by decide, by decide⟩
  quiet := by decide

def entryTree : TypedefTree .struct none entry ⟨"Entry".toList, by decide, by decide⟩
    (find.text ++ [';', '\n']) where
  record := _
  list := _
  ofKind := by decide
  held := rfl
  fields := .field (by decide) ⟨by decide, by decide⟩ (by decide)
    (.field (by decide) ⟨by decide, by decide⟩ (by decide) .nil)
  definition := entryNode
  newName := _
  isDefinition := by decide
  typed := rfl
  declared := rfl
  isName := by decide
  nameCovers := ⟨by decide, by decide⟩
  quiet := by decide

def valueTree : TaggedTree .union ⟨"value".toList, by decide, by decide⟩ value
    (written (items.take 2) newline) where
  record := valueNode
  list := _
  ofKind := by decide
  held := rfl
  fields := .field (by decide) ⟨by decide +kernel, by decide +kernel⟩ (by decide) .nil
  name := _
  named := rfl
  nameCovers := ⟨by decide +kernel, by decide +kernel⟩
  quiet := by decide

theorem parsed : HeaderTree items tree where
  isRoot := by decide
  nodes := .item (.function findTree) (.item (.typedef entryTree) (.item (.tagged valueTree)
    (.aside (by decide) .nil)))

theorem ofTree_eq_ofText_sample :
    written items newline = ("u32* find(struct list* from,  int key);\n" ++
      "typedef struct \x7b char name[8]; u16 (*rank)(int, int); \x7d Entry;\n" ++
      "union value \x7bint *cell, count;\x7d;\n").toList ∧
    HeaderTree items tree ∧
    Analysis.ofTree (written items newline) tree = Analysis.ofText (written items newline) ∧
    Analysis.ofText (written items newline) = .ok {
      functions := [⟨"find".toList, "u32*".toList,
        [⟨"struct list*".toList, some "from".toList⟩, ⟨"int".toList, some "key".toList⟩]⟩]
      records := [
        ⟨.struct, "Entry".toList, [⟨"char[8]".toList, some "name".toList⟩,
          ⟨"u16 (*rank)(int, int)".toList, some "rank".toList⟩]⟩,
        ⟨.union, "value".toList, [⟨"int *".toList, some "cell".toList⟩,
          ⟨"int".toList, some "count".toList⟩]⟩]
      constants := []
      includes := [] } :=
  ⟨by decide +kernel, parsed, ofTree_eq_ofText parsed newline⟩

end Sample

end Item

end CHeader
