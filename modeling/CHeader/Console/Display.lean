import CHeader.Analysis
import CHeader.Console.Renderer
import CHeader.Graph.Sort

/-!
# What is shown on a screen

The results of the program on a screen of a given width. What is shown goes through a renderer as
markup; texts that come from a header are escaped first, but the title of a list and the names in a
table are not. If a part cannot be shown, the parts before it have been.
-/
namespace CHeader.Console

open Text

variable {ε : Type}

/-- Why something cannot be shown. -/
inductive DisplayError (ε : Type := MarkupError) where
  /-- The renderer fails at the markup. -/
  | markup (cause : ε)
  /-- An integer with more digits than are written out. -/
  | integerTooLong
  deriving DecidableEq, Repr

namespace DisplayError

def message : DisplayError MarkupError → Text
  | markup cause => cause.message
  | integerTooLong => digitLimitExceeded ++ digitLimitAdvice

end DisplayError

/-- What has been shown, and why no more if something failed. -/
structure Printout (ε : Type := MarkupError) where
  text : Text
  failure : Option (DisplayError ε) := none
  deriving DecidableEq, Repr

namespace Printout

/-- Show one part after the other, up to the first that cannot be shown. -/
def ofParts : List (Except (DisplayError ε) Text) → Printout ε
  | [] => ⟨[], none⟩
  | .error cause :: _ => ⟨[], some cause⟩
  | .ok text :: rest =>
    let after := ofParts rest
    { after with text := text ++ after.text }

end Printout

/-! ## Texts of an analysis -/

/-- A parameter as it is declared; the type of a function pointer has the name in it. -/
def parameterText (parameter : Parameter) : Text :=
  if occursIn ['(', '*'] parameter.type then parameter.type
  else trim (parameter.type ++ ' ' :: parameter.name.getD [])

def parametersText (parameters : List Parameter) : Text :=
  match joinWith [',', ' '] (parameters.map parameterText) with
  | [] => "void".toList
  | text => text

def fieldsText (fields : List Parameter) : Text :=
  joinWith [';', ' '] (fields.map fun field => field.type ++ ' ' :: field.name.getD [])

def kindText : RecordKind → Text
  | .struct => "struct".toList
  | .union => "union".toList

/-- An integer in decimal, unless it is too long to be written out. -/
def integerText (value : Int) : Except (DisplayError ε) Text :=
  let digits := Decimal.digitsOf value.natAbs
  if Numeral.digitLimit < digits.length then .error .integerTooLong
  else .ok (if value < 0 then '-' :: digits else digits)

def constantText : Constant → Except (DisplayError ε) Text
  | .integer value => integerText value
  | .float value => .ok (FloatLayout.display.render value)
  | .string value => .ok value
  | .expression source => .ok source

def constantKind : Constant → Text
  | .integer _ => "int".toList
  | .float _ => "float".toList
  | .string _ => "str".toList
  | .expression _ => "expression".toList

def counted (noun : String) (count : Nat) : Text :=
  noun.toList ++ " (".toList ++ Decimal.digitsOf count ++ [')']

/-- A number with spaces before it up to three characters. -/
def ordinal (number : Nat) : Text :=
  let digits := Decimal.digitsOf number
  spaces (3 - digits.length) ++ digits

/-! ## What a renderer is given -/

namespace Renderer

variable (r : Renderer ε)

def shown (layout : Layout) (markup : Text) : Except (DisplayError ε) Text :=
  (r.print layout [markup]).mapError .markup

def drawn (screen : Nat) (title : Text) (headings : List String) (rows : List (List Text)) :
    Except (DisplayError ε) Text :=
  (r.table screen ⟨title, headings.map String.toList, rows⟩).mapError .markup

def functionRow (function : Prototype) : List Text :=
  [function.name, r.escape function.returns, r.escape (parametersText function.parameters)]

def recordRow (record : Record) : List Text :=
  [record.name, kindText record.kind, r.escape (fieldsText record.fields)]

def constantRow (name : Text) (value : Constant) : Except (DisplayError ε) (List Text) := do
  let text ← constantText value
  return [name, r.escape text, constantKind value]

def constantsTable (screen : Nat) (constants : ConstantTable) : Except (DisplayError ε) Text := do
  let rows ← constants.mapM fun (name, value) => r.constantRow name value
  r.drawn screen (counted "Constants" constants.length) ["Name", "Value", "Kind"] rows

/-- The name of the header and three tables, then the included names if there are any. -/
def showAnalysis (screen : Nat) (header : Text) (analysis : Analysis) : Printout ε :=
  .ofParts <| [
    r.shown (.wrapped screen) (bold (r.escape header)),
    r.drawn screen (counted "Functions" analysis.functions.length) ["Name", "Returns", "Parameters"]
      (analysis.functions.map r.functionRow),
    r.drawn screen (counted "Structures" analysis.records.length) ["Name", "Kind", "Fields"]
      (analysis.records.map r.recordRow),
    r.constantsTable screen analysis.constants] ++
  if analysis.includes = [] then []
  else [r.shown (.wrapped screen)
    (r.escape ("Includes: ".toList ++ joinWith [',', ' '] analysis.includes))]

/-- A title, which is markup, and the numbered paths. -/
def showPaths (screen : Nat) (title : Text) (paths : List Text) : Printout ε :=
  .ofParts <| r.shown (.wrapped screen) (bold title) ::
    (paths.zipIdx 1).map fun (path, number) =>
      r.shown .unwrapped (ordinal number ++ ['.', ' '] ++ r.escape path)

/-- Each node with the nodes it depends on below it. -/
def showGraph (graph : Graph) : Printout ε :=
  .ofParts <| graph.flatMap fun (node, dependencies) =>
    r.shown .unwrapped (bold (r.escape node)) ::
      (if dependencies = [] then ["(none)".toList] else dependencies).map fun dependency =>
        r.shown .unwrapped ("    -> ".toList ++ r.escape dependency)

end Renderer

/-! ## With the renderer at hand -/

def showTexts (screen : Nat) (markups : List Text) : Except DisplayError Text :=
  (Renderer.standard.print (.wrapped screen) markups).mapError .markup

def showAnalysis : Nat → Text → Analysis → Printout := Renderer.standard.showAnalysis

def showPaths : Nat → Text → List Text → Printout := Renderer.standard.showPaths

def showGraph : Graph → Printout := Renderer.standard.showGraph

end CHeader.Console
