import CHeader.Extractor
import CHeader.Proofs.Constant
import CHeader.Proofs.FirstError
import CHeader.Proofs.Number.Refused
import CHeader.Proofs.Parameter.Split

/-!
# When extraction fails

Extraction by patterns gives an analysis of every text in which no constant has a numeral for its value
that is refused; else the error is that of the first such constant. Functions and records are found
in every text: a declaration that is not blank has a first declarator.
-/
namespace CHeader

open Text

/-! ## Constants -/

namespace Constant

theorem not_hasComment_definition {text name value : Text}
    (member : (name, value) ∈ definitions text) : ¬HasComment value := by
  obtain ⟨-, -, source, -, rfl, -⟩ := mem_definitions_iff.mp member
  exact fun has => not_hasComment_stripComments source (has.of_infix (infix_trim _))

theorem trim_definition {text name value : Text} (member : (name, value) ∈ definitions text) :
    trim value = value := by
  obtain ⟨-, -, source, -, rfl, -⟩ := mem_definitions_iff.mp member
  exact trim_trim _

/-- No comments are left in the value of a definition. -/
theorem value_of_definition {text name value : Text} (member : (name, value) ∈ definitions text) :
    trim (stripComments value) = value := by
  rw [stripComments_eq_self (not_hasComment_definition member), trim_definition member]

theorem parse_eq_error_iff {text : Text} {cause : NumeralError} :
    parse text = .error cause ↔ Numeral.Refused (trim (stripComments text)) cause := by
  rw [← Numeral.integerError_iff_refused]
  unfold parse
  generalize trim (stripComments text) = value
  dsimp only
  constructor
  · intro failed
    split at failed
    next numeral found =>
      split at failed
      next => cases failed
      next pointless =>
        refine ⟨numeral, found, pointless, ?_⟩
        cases worked : numeral.integer with
        | error refusal =>
          rw [worked] at failed
          cases failed
          rfl
        | ok number =>
          rw [worked] at failed
          cases failed
    next => split at failed <;> cases failed
  · rintro ⟨numeral, found, pointless, failed⟩
    simp only [found, pointless, failed, Except.map]

/-- The value of a definition holds no comments that parsing would remove. -/
theorem parse_definition_eq_error_iff {text : Text} {definition : Text × Text}
    (member : definition ∈ definitions text) {cause : NumeralError} :
    parse definition.2 = .error cause ↔ Numeral.Refused definition.2 cause := by
  rw [parse_eq_error_iff, value_of_definition member]

theorem parse_definition_eq_ok_iff {text : Text} {definition : Text × Text}
    (member : definition ∈ definitions text) :
    (∃ constant, parse definition.2 = .ok constant) ↔
      ∀ cause, ¬Numeral.Refused definition.2 cause := by
  simp only [← parse_definition_eq_error_iff member]
  cases parse definition.2 <;> simp

theorem extract_eq_error_iff {text : Text} {cause : NumeralError} :
    extract text = .error cause ↔
      FirstError (fun definition => parse definition.2) (definitions text) cause := by
  have steps (table : ConstantTable) (definition : Text × Text) :
      (do return table.set definition.1 (← parse definition.2)) =
        (parse definition.2).map fun constant => table.set definition.1 constant := by
    cases parse definition.2 <;> rfl
  exact foldlM_eq_error_iff steps []

end Constant

/-! ## Analyses -/

namespace Extractor

theorem analyzeText_eq_error {text : Text} {cause : NumeralError} :
    Extractor.pattern.analyzeText text = .error cause ↔ Constant.extract text = .error cause := by
  rw [analyzeText, Analysis.ofText]
  cases Constant.extract text with
  | error refusal => simp [bind, Except.bind]
  | ok constants => simp [bind, Except.bind, pure, Except.pure]

theorem analyzeText_eq_error_iff (text : Text) :
    (∀ cause, Extractor.pattern.analyzeText text = .error cause ↔
      ∃ before name value after,
        Constant.definitions text = before ++ (name, value) :: after ∧
        (∀ earlier ∈ before, ∀ refusal, ¬Numeral.Refused earlier.2 refusal) ∧
        Numeral.Refused value cause) ∧
    ∀ body, ∀ declaration ∈ ((splitOn ';' body).map trim).filter (· ≠ []),
      Parameter.split declaration ≠ [] := by
  constructor
  · intro cause
    rw [analyzeText_eq_error, Constant.extract_eq_error_iff]
    constructor
    · rintro ⟨before, ⟨name, value⟩, after, whole, read, failed⟩
      have inside : (name, value) ∈ Constant.definitions text := by simp [whole]
      refine ⟨before, name, value, after, whole, ?_,
        (Constant.parse_definition_eq_error_iff inside).mp failed⟩
      intro earlier member
      have defined : earlier ∈ Constant.definitions text := by simp [whole, member]
      exact (Constant.parse_definition_eq_ok_iff defined).mp (read earlier member)
    · rintro ⟨before, name, value, after, whole, read, refused⟩
      have inside : (name, value) ∈ Constant.definitions text := by simp [whole]
      refine ⟨before, (name, value), after, whole, ?_,
        (Constant.parse_definition_eq_error_iff inside).mpr refused⟩
      intro earlier member
      have defined : earlier ∈ Constant.definitions text := by simp [whole, member]
      exact (Constant.parse_definition_eq_ok_iff defined).mpr (read earlier member)
  · intro body declaration member
    obtain ⟨listed, filled⟩ := List.mem_filter.mp member
    obtain ⟨piece, -, rfl⟩ := List.mem_map.mp listed
    apply Parameter.split_ne_nil
    rw [trim_trim]
    simpa using filled

/-- The exponent has too many digits for exact arithmetic. -/
theorem analyzeText_huge :
    Extractor.pattern.analyzeText "#define X 1e9999999999999999999\n".toList =
      .error .exponentOutOfRange := by
  have defined : Constant.definitions "#define X 1e9999999999999999999\n".toList =
      [("X".toList, "1e9999999999999999999".toList)] := by decide +kernel
  have far : Numeral.Refused "1e9999999999999999999".toList .exponentOutOfRange := by
    change Numeral.Refused ([] ++ (['1'] ++ 'e' :: ([] ++ "9999999999999999999".toList))) _
    refine .scaled (Or.inl rfl) (by decide) (by decide) (Or.inl rfl) (Or.inl rfl) (by decide)
      (by decide) (Or.inl ?_)
    decide
  rw [analyzeText_eq_error, Constant.extract_eq_error_iff, defined, firstError_cons]
  left
  rw [Constant.parse_definition_eq_error_iff (by rw [defined]; simp)]
  exact far

end Extractor

end CHeader
