import CHeader.Analysis
import CHeader.Header
import CHeader.Syntax.Part

/-!
# Extractors

Declarations are extracted by patterns over the flat text or from the syntax tree.
-/
namespace CHeader

open Text

inductive Extractor where
  | pattern
  | tree
  deriving DecidableEq, Repr, Inhabited

/-- Why a header cannot be analyzed. -/
inductive AnalysisError where
  | header (cause : HeaderError)
  | numeral (cause : NumeralError)
  deriving DecidableEq, Repr

namespace Extractor

def name : Extractor → Text
  | .pattern => "regex".toList
  | .tree => "tree-sitter".toList

def all : List Extractor := [.pattern, .tree]

def ofName? (name : Text) : Option Extractor := all.find? fun extractor => extractor.name = name

def unknownMessage (name : Text) : Text :=
  "Unknown extractor: ".toList ++ name ++ " (expected one of ".toList ++
    joinWith [',', ' '] (all.map Extractor.name) ++ [')']

def analyzeText (extractor : Extractor) (text : Text) : Except NumeralError Analysis :=
  match extractor with
  | .pattern => Analysis.ofText text
  | .tree => Analysis.ofTree text (Syntax.parse text)

/-- What the log says about the extraction. -/
def events (extractor : Extractor) (text : Text) : List Event :=
  match extractor with
  | .pattern => []
  | .tree => (Syntax.nestedFields text (Syntax.parse text)).map .nestedField

/-- Analyze the header at a path, and say so in the log. -/
def analyze (extractor : Extractor) (tree : FileTree) (path : Text) :
    Except AnalysisError Analysis × List Event :=
  match readHeader tree path with
  | .error cause => (.error (.header cause), [])
  | .ok text =>
    match extractor.analyzeText text with
    | .error cause => (.error (.numeral cause), extractor.events text)
    | .ok analysis =>
      (.ok analysis, extractor.events text ++
        [.analyzed path analysis.functions.length analysis.records.length
          analysis.constants.length analysis.includes.length])

end Extractor

end CHeader
