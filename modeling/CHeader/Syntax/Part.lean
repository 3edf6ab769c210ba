import CHeader.Syntax.Token
import CHeader.Syntax.Tree

/-!
# Declarations from tokens

Tokens are grouped by their brackets and by conditional directives. A group knows what its content is
as a list of fields and as a list of declarations, so that a group can be read without being opened
again. A declaration is read from the parts before its semicolon: specifiers, of which one is the
type, and declarators between commas.

This reading approximates the grammar of C, for which the program has a parser of its own. It is here
so that the program can be run; what is proved of syntax trees is proved of every tree and does not
rest on it.
-/
namespace CHeader.Syntax

open Text

inductive Bracket where
  | round
  | square
  | curly
  /-- A branch of a conditional, with the directive that opens it. -/
  | branch (directive : Text)
  deriving DecidableEq, Repr

inductive Part where
  | token (token : Token)
  | group (bracket : Bracket) (start stop : Nat) (fields items : List Node)
  deriving Repr

namespace Part

def start : Part → Nat
  | token t => t.start
  | group _ start _ _ _ => start

def stop : Part → Nat
  | token t => t.stop
  | group _ _ stop _ _ => stop

def isMark (c : Char) : Part → Bool
  | token t => t.lexeme = .mark ∧ t.text = [c]
  | _ => false

def isBracket (bracket : Bracket) : Part → Bool
  | group found _ _ _ _ => found = bracket
  | _ => false

def isLiteral : Part → Bool
  | token t => t.lexeme = .literal
  | _ => false

def word? : Part → Option Text
  | token t => if t.lexeme = .word then some t.text else none
  | _ => none

def isWordOf (words : List String) (part : Part) : Bool :=
  match part.word? with
  | some word => words.any fun known => known.toList = word
  | none => false

end Part

def node (type : String) (field : Option String) (start stop : Nat) (children : List Node) : Node :=
  ⟨type.toList, field.map String.toList, true, start, stop, children⟩

/-! ## Words with a meaning of their own -/

def storageClasses : List String := [
  "extern", "static", "auto", "register", "inline", "__inline", "__inline__", "__forceinline",
  "thread_local", "__thread", "_Thread_local"]

def qualifiers : List String := [
  "const", "constexpr", "volatile", "restrict", "__restrict__", "__restrict", "__extension__",
  "_Atomic", "_Noreturn", "noreturn", "_Nonnull"]

/-- Words that take arguments and may stand between specifiers. -/
def attributeWords : List String := [
  "__attribute__", "__attribute", "__declspec", "alignas", "_Alignas"]

def callingConventions : List String := [
  "__cdecl", "__clrcall", "__stdcall", "__fastcall", "__thiscall", "__vectorcall"]

def recordWords : List String := ["struct", "union", "enum"]

def sizeWords : List String := ["signed", "unsigned", "long", "short"]

def primitiveTypes : List String := [
  "bool", "char", "int", "float", "double", "void", "size_t", "ssize_t", "ptrdiff_t", "intptr_t",
  "uintptr_t", "charptr_t", "nullptr_t", "max_align_t", "int8_t", "int16_t", "int32_t", "int64_t",
  "uint8_t", "uint16_t", "uint32_t", "uint64_t", "char8_t", "char16_t", "char32_t", "char64_t"]

/-! ## Specifiers -/

/-- The parts after storage classes, qualifiers and attributes. -/
def dropModifiers : List Part → List Part
  | part :: .group .round start stop fields items :: rest =>
    if part.isWordOf attributeWords then dropModifiers rest
    else if part.isWordOf (storageClasses ++ qualifiers) then
      .group .round start stop fields items :: rest
    else part :: .group .round start stop fields items :: rest
  | part :: rest =>
    if part.isWordOf (storageClasses ++ qualifiers) || part.isBracket .square then
      dropModifiers rest
    else part :: rest
  | [] => []

/-- The parts after attributes with their arguments. -/
def dropAttributes : List Part → List Part
  | part :: .group .round start stop fields items :: rest =>
    if part.isWordOf attributeWords then dropAttributes rest
    else part :: .group .round start stop fields items :: rest
  | parts => parts

def specifierType (word : Text) : String :=
  if word = "struct".toList then "struct_specifier"
  else if word = "union".toList then "union_specifier"
  else "enum_specifier"

/-- The underlying type of an enumeration. -/
def dropUnderlying (parts : List Part) : List Part :=
  match parts with
  | part :: rest =>
    if part.isMark ':' then rest.dropWhile fun part => part.word?.isSome else parts
  | [] => []

/-- The body of a record or enumeration, with the parts after it. -/
def specifierBody? : List Part → Option (Node × List Part)
  | .group .curly start stop fields _ :: rest =>
    some (node "field_declaration_list" (some "body") start stop fields, rest)
  | _ => none

/-- A record or enumeration from its first word on, with the parts after it. -/
def recordSpecifier? (field : Option String) : List Part → Option (Node × List Part)
  | first :: rest =>
    match first.word? with
    | none => none
    | some word =>
      if first.isWordOf recordWords then
        let afterAttributes := dropAttributes rest
        let (names, afterName) : List Part × List Part :=
          match afterAttributes with
          | part :: later => if part.word?.isSome then ([part], later) else ([], afterAttributes)
          | [] => ([], [])
        let name := names.map fun part => node "type_identifier" (some "name") part.start part.stop []
        match specifierBody? (dropUnderlying afterName) with
        | some (body, later) =>
          some (node (specifierType word) field first.start body.stop (name ++ [body]),
            dropAttributes later)
        | none =>
          some (node (specifierType word) field first.start
            (((names.getLast?).map Part.stop).getD first.stop) name, afterName)
      else none
  | [] => none

/-- Does a word that may be a type have to be one, given what follows it? -/
def isFollowedByDeclarator : List Part → Bool
  | part :: _ =>
    part.isMark '*' ||
      (part.word?.isSome && !part.isWordOf (attributeWords ++ ["asm", "__asm__", "__asm"]))
  | [] => false

/-- A type made of size words, with at most one other word among them. -/
def sizedType? (field : Option String) (parts : List Part) : Option (Node × List Part) :=
  let isSize := fun (part : Part) => part.isWordOf sizeWords
  match parts with
  | [] => none
  | first :: _ =>
    let sizes := parts.takeWhile isSize
    let afterSizes := parts.dropWhile isSize
    let (middle, later) : List Part × List Part :=
      match afterSizes with
      | part :: later =>
        if part.isWordOf primitiveTypes ||
            (!sizes.isEmpty && part.word?.isSome && isFollowedByDeclarator later) then
          ([part], later)
        else ([], afterSizes)
      | [] => ([], [])
    let trailing := later.takeWhile isSize
    if sizes.isEmpty && (middle.isEmpty || trailing.isEmpty) then none
    else
      let last := ((sizes ++ middle ++ trailing).getLast?).getD first
      some (node "sized_type_specifier" field first.start last.stop [], later.dropWhile isSize)

/-- A type given by one word, or by a macro with an argument before a declarator. -/
def namedType? (field : Option String) : List Part → Option (Node × List Part)
  | first :: .group .round start stop fields items :: rest =>
    if first.word?.isNone then none
    else if isFollowedByDeclarator rest then
      some (node "macro_type_specifier" field first.start stop [], rest)
    else
      some (node "type_identifier" field first.start first.stop [],
        .group .round start stop fields items :: rest)
  | first :: rest =>
    if first.word?.isNone then none
    else
      let type := if first.isWordOf primitiveTypes then "primitive_type" else "type_identifier"
      some (node type field first.start first.stop [], rest)
  | [] => none

/-- The type among the specifiers at the start, with the parts after the specifiers. -/
def specifiers? (field : Option String) (parts : List Part) : Option (Node × List Part) :=
  let parts := dropModifiers parts
  let found := (recordSpecifier? field parts).or
    ((sizedType? field parts).or (namedType? field parts))
  found.map fun (type, rest) => (type, dropModifiers rest)

/-! ## Declarators -/

/-- Wrap a declarator in the function and array declarators that follow it. -/
def wrapDeclarator (declarator : Node) : List Part → Node
  | .group .round start stop _ _ :: rest =>
    wrapDeclarator (node "function_declarator" (some "declarator") declarator.start stop
      [declarator, node "parameter_list" (some "parameters") start stop []]) rest
  | .group .square _ stop _ _ :: rest =>
    wrapDeclarator (node "array_declarator" (some "declarator") declarator.start stop
      [declarator]) rest
  | part :: .group .round start stop fields items :: rest =>
    if part.word?.isSome then wrapDeclarator declarator rest
    else wrapDeclarator declarator (.group .round start stop fields items :: rest)
  | _ :: rest => wrapDeclarator declarator rest
  | [] => declarator

/-- A declarator without a value; `leaf` is the type of the node of its name. -/
def plainDeclarator? (leaf : String) : List Part → Option Node
  | [] => none
  | part :: rest =>
    if part.isMark '*' then
      (plainDeclarator? leaf rest).map fun inner =>
        node "pointer_declarator" (some "declarator") part.start inner.stop [inner]
    else if part.isWordOf (qualifiers ++ callingConventions) then plainDeclarator? leaf rest
    else
      match part with
      | .token t =>
        if t.lexeme = .word then
          let type :=
            if leaf = "type_identifier" && part.isWordOf primitiveTypes then "primitive_type"
            else leaf
          some (wrapDeclarator (node type (some "declarator") t.start t.stop []) rest)
        else none
      | .group .round start stop _ _ =>
        some (wrapDeclarator
          (node "parenthesized_declarator" (some "declarator") start stop []) rest)
      | .group .. => none

def declarator? (leaf : String) (parts : List Part) : Option Node :=
  let parts := dropAttributes parts
  match plainDeclarator? leaf (parts.takeWhile (!·.isMark '=')) with
  | some declarator =>
    if parts.any (·.isMark '=') then
      some (node "init_declarator" (some "declarator") declarator.start declarator.stop
        [declarator])
    else some declarator
  | none => none

/-- The parts between commas. -/
def splitAtCommas : List Part → List (List Part)
  | [] => [[]]
  | part :: rest =>
    if part.isMark ',' then [] :: splitAtCommas rest
    else match splitAtCommas rest with
      | first :: others => (part :: first) :: others
      | [] => [[part]]

def declarators (leaf : String) (parts : List Part) : List Node :=
  (splitAtCommas parts).filterMap (declarator? leaf)

/-! ## Declarations -/

/-- Is a group in braces that follows these parts the body of a record or enumeration? -/
def expectsBody (parts : List Part) : Bool :=
  let fromLast := (parts.reverse.takeWhile (!·.isWordOf recordWords)).reverse
  fromLast.length < parts.length &&
    match dropUnderlying (dropAttributes fromLast) with
    | [] => true
    | part :: rest => part.word?.isSome && (dropUnderlying rest).isEmpty

/-- Does a group in braces end a declaration that starts with these parts? -/
def endsDeclaration (parts : List Part) : Bool :=
  !expectsBody parts && !parts.any (·.isMark '=')

def isAside : Part → Bool
  | .token t => t.lexeme = .directive
  | .group (.branch _) .. => true
  | .group .. => false

/-- A declaration whose semicolon is missing, with an empty one in its place. -/
def supplySemicolon (parts : List Part) : List (List Part) :=
  match parts.getLast? with
  | some last => [parts ++ [.token ⟨.mark, [';'], last.stop, last.stop⟩]]
  | none => []

/-- The parts of each declaration. Directives and conditionals stand by themselves. With `whole`
the last declaration may lack its semicolon. -/
def gather (whole : Bool) (current : List Part) : List Part → List (List Part)
  | [] => if whole then supplySemicolon current else []
  | part :: rest =>
    if isAside part then [part] :: gather whole current rest
    else if part.isMark ';' || (part.isBracket .curly && endsDeclaration current) then
      (current ++ [part]) :: gather whole [] rest
    else gather whole (current ++ [part]) rest

/-- The word of a directive. -/
def directiveWord (t : Token) : Text := (trimStart (t.text.drop 1)).takeWhile isWordPart

def directiveNode (t : Token) : Node :=
  let word := directiveWord t
  let type :=
    if word = "include".toList then "preproc_include"
    else if word = "define".toList then "preproc_def"
    else "preproc_call"
  node type none t.start t.stop []

def branchType (directive : Text) : String :=
  if directive = "if".toList then "preproc_if"
  else if directive = "ifdef".toList ∨ directive = "ifndef".toList then "preproc_ifdef"
  else if directive = "else".toList then "preproc_else"
  else "preproc_elif"

/-- The nodes of a declaration that is no type definition. A type by itself, without any modifier
before it, is no declaration. -/
def plainDeclaration (parts : List Part) (start stop : Nat) : List Node :=
  let ended := parts.getLast?
  let before := parts.dropLast
  match specifiers? (some "type") before with
  | none => []
  | some (type, rest) =>
    match ended with
    | some (.group .curly bodyStart bodyStop _ _) =>
      [node "function_definition" none start stop
        ([type] ++ declarators "identifier" rest ++
          [node "compound_statement" (some "body") bodyStart bodyStop []])]
    | _ =>
      if rest.isEmpty && type.start = start then [{ type with field := none }]
      else [node "declaration" none start stop (type :: declarators "identifier" rest)]

/-- A type definition from the part after its keyword on. If the new name is missing, it is empty. -/
def typeDefinition (parts : List Part) (start stop : Nat) : List Node :=
  match specifiers? (some "type") parts.dropLast with
  | none => []
  | some (type, rest) =>
    let names :=
      if rest.isEmpty then [node "type_identifier" (some "declarator") type.stop type.stop []]
      else declarators "type_identifier" rest
    [node "type_definition" none start stop (type :: names)]

/-- The nodes of gathered parts at the top of a header. -/
def itemNodes (parts : List Part) : List Node :=
  match parts with
  | [] => []
  | first :: rest =>
    let stop := ((parts.getLast?).map Part.stop).getD first.stop
    match first, rest with
    | .token t, [] =>
      if t.lexeme = .directive then [directiveNode t] else []
    | .group (.branch directive) start stop _ items, _ =>
      [node (branchType directive) none start stop items]
    | _, second :: later =>
      if first.isWordOf ["extern"] && second.isLiteral then
        match later with
        | [.group .curly bodyStart bodyStop _ items] =>
          [node "linkage_specification" none first.start stop
            [node "declaration_list" (some "body") bodyStart bodyStop items]]
        | [] => []
        | inner :: _ =>
          [node "linkage_specification" none first.start stop
            (plainDeclaration later inner.start stop)]
      else if first.isWordOf ["typedef"] then typeDefinition rest first.start stop
      else if first.isWordOf ["__extension__"] && second.isWordOf ["typedef"] then
        typeDefinition later first.start stop
      else plainDeclaration parts first.start stop
    | _, [] => []

/-- The nodes of gathered parts in the body of a record. -/
def fieldNodes (parts : List Part) : List Node :=
  match parts with
  | [] => []
  | first :: rest =>
    let stop := ((parts.getLast?).map Part.stop).getD first.stop
    match first, rest with
    | .token t, [] =>
      if t.lexeme = .directive then [directiveNode t] else []
    | .group (.branch directive) start stop fields _, _ =>
      [node (branchType directive) none start stop fields]
    | _, _ =>
      match specifiers? (some "type") parts.dropLast with
      | none => []
      | some (type, later) =>
        [node "field_declaration" none first.start stop
          (type :: declarators "field_identifier" later)]

def Part.ofContent (bracket : Bracket) (start stop : Nat) (content : List Part) : Part :=
  .group bracket start stop ((gather true [] content).flatMap fieldNodes)
    ((gather true [] content).flatMap itemNodes)

/-! ## Grouping -/

/-- A group that is not closed yet, with its content so far. -/
structure OpenGroup where
  bracket : Bracket
  start : Nat
  content : List Part

/-- The groups that are open, innermost first, and the parts at the top. -/
structure Grouping where
  groups : List OpenGroup
  top : List Part

namespace Grouping

def add (part : Part) (g : Grouping) : Grouping :=
  match g.groups with
  | [] => { g with top := g.top ++ [part] }
  | inner :: outer => { g with groups := { inner with content := inner.content ++ [part] } :: outer }

def openGroup (bracket : Bracket) (start : Nat) (g : Grouping) : Grouping :=
  { g with groups := ⟨bracket, start, []⟩ :: g.groups }

/-- Close the innermost group. -/
def close (stop : Nat) (g : Grouping) : Grouping :=
  match g.groups with
  | [] => g
  | inner :: outer =>
    add (.ofContent inner.bracket inner.start stop inner.content) { g with groups := outer }

def isConditional : Bracket → Bool
  | .branch directive => directive = "if".toList ∨ directive = "ifdef".toList ∨
      directive = "ifndef".toList
  | _ => false

/-- Close groups up to and with the innermost conditional; `count` is how many are open. -/
def closeConditional (stop : Nat) : (count : Nat) → Grouping → Grouping
  | 0, g => g
  | count + 1, g =>
    match g.groups with
    | [] => g
    | inner :: _ =>
      if isConditional inner.bracket then close stop g else closeConditional stop count (close stop g)

def closeAll (stop : Nat) : (count : Nat) → Grouping → Grouping
  | 0, g => g
  | count + 1, g => closeAll stop count (close stop g)

def step (g : Grouping) (t : Token) : Grouping :=
  if t.lexeme = .directive then
    let word := directiveWord t
    if word ∈ ["if".toList, "ifdef".toList, "ifndef".toList, "else".toList, "elif".toList,
        "elifdef".toList, "elifndef".toList] then
      g.openGroup (.branch word) t.start
    else if word = "endif".toList then g.closeConditional t.stop g.groups.length
    else g.add (.token t)
  else if t.lexeme = .mark then
    if t.text = ['('] then g.openGroup .round t.start
    else if t.text = ['['] then g.openGroup .square t.start
    else if t.text = ['{'] then g.openGroup .curly t.start
    else if t.text = [')'] ∨ t.text = [']'] ∨ t.text = ['}'] then g.close t.stop
    else g.add (.token t)
  else g.add (.token t)

end Grouping

/-- The syntax tree of a header. What does not have the form of a declaration is left out, and so is
a last declaration with a group that is not closed. -/
def parse (source : Text) : Node :=
  let stop := byteLength source
  let grouped := (tokensFrom 0 source).foldl Grouping.step ⟨[], []⟩
  let parts := (grouped.closeAll stop grouped.groups.length).top
  node "translation_unit" none 0 stop
    ((gather grouped.groups.isEmpty [] parts).flatMap itemNodes)

end CHeader.Syntax
