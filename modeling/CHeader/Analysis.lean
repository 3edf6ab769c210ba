import CHeader.Constant
import CHeader.Include
import CHeader.Json.Value
import CHeader.Log
import CHeader.Syntax.Declarations

/-!
# Analysis of one header

The functions, records, constants and includes of a header. Functions and records are found in the
flat text or in the syntax tree; constants and includes always in the text as it is.
-/
namespace CHeader

open Text

structure Analysis where
  functions : List Prototype
  records : List Record
  constants : ConstantTable
  includes : List Text
  deriving Repr, Inhabited

namespace Analysis

/-- The analysis of a text by its flat form. -/
def ofText (text : Text) : Except NumeralError Analysis := do
  let constants ← Constant.extract text
  return {
    functions := Prototype.extract (flatten text)
    records := Record.extract (flatten text)
    constants := constants
    includes := Include.extract text }

/-- The analysis of a text by its syntax tree. -/
def ofTree (text : Text) (tree : Node) : Except NumeralError Analysis := do
  let constants ← Constant.extract text
  return {
    functions := Syntax.prototypes text tree
    records := Syntax.records text tree
    constants := constants
    includes := Include.extract text }

def function? (analysis : Analysis) (name : Text) : Option Prototype :=
  analysis.functions.find? (·.name = name)

def record? (analysis : Analysis) (name : Text) : Option Record :=
  analysis.records.find? (·.name = name)

/-! ## As a document -/

def parameterDocument (parameter : Parameter) : JsonValue := .object [
  ("name".toList, .string (parameter.name.getD [])),
  ("type".toList, .string parameter.type)]

def functionDocument (function : Prototype) : JsonValue := .object [
  ("name".toList, .string function.name),
  ("return_type".toList, .string function.returns),
  ("parameters".toList, .array (function.parameters.map parameterDocument)),
  ("documentation".toList, .array [])]

def recordDocument (record : Record) : JsonValue := .object [
  ("name".toList, .string record.name),
  ("fields".toList, .array (record.fields.map parameterDocument)),
  ("is_union".toList, .bool (record.kind = .union))]

def constantDocument : Constant → JsonValue
  | .integer value => .integer value
  | .float value => .float value
  | .string value => .string value
  | .expression source => .object [("text".toList, .string source)]

def document (analysis : Analysis) : JsonValue := .object [
  ("functions".toList, .array (analysis.functions.map functionDocument)),
  ("structures".toList, .array (analysis.records.map recordDocument)),
  ("constants".toList, .object (analysis.constants.map fun (name, value) =>
    (name, constantDocument value))),
  ("dependencies".toList, .strings analysis.includes)]

def toJson (analysis : Analysis) : Text := analysis.document.render .required 0

end Analysis

end CHeader
