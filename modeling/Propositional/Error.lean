import Propositional.Input
import Propositional.Letter
import Propositional.SyntaxError
import Propositional.Text.DecimalDigit

/-!
# Errors

Why an analysis has no result.  Each constructor is one cause; `Error.message` words it.

* `Error`         — the causes;
* `Error.message` — their texts;
* `Error.isInput` — the causes that lie in an input other than the formula.
-/

namespace Propositional

/-- Why an analysis has no result. -/
inductive Error where
  | formula (reason : SyntaxError)
  -- A position addresses no node of the formula.
  | position (text : String)
  -- A text does not assert anything about an interpretation.
  | assertion (input : Input)
  -- An interpretation fixes something that is not a literal.
  | literal (body : String)
  -- A formula is not a conjunction of clauses: the offending fragment and its conjunct.
  | clause (fragment conjunct : String)
  -- Evaluation met a variable without a value.
  | unassigned (letter : Letter)
  -- A record of truth values has no entry for a letter.
  | noEntry (letter : Letter)
  -- A node of an annotated tree has no child at a step.
  | noChild
  -- A subformula has no name and is no literal.
  | unnamed (text : String)
  | unknownKind (name : Option String)
  | unknownVariant (name : Option String)
  | unknownType (name : String)
  | unknownConnective (text : Option String)
  -- No picture has this format; the formats that there are.
  | unknownFormat (name : String) (known : List String)
  -- A number has more digits than are read: how many it has.
  | longNumber (digits : Nat)
deriving DecidableEq

namespace Error

/-- The text of an error. -/
def message : Error → String
  | .formula reason => reason.message
  | .position text => s!"Invalid position: \x22{text}\x22"
  | .assertion input => "Expected 'I⊨…' or 'I⊭…', got '" ++ input.shown ++ "'"
  | .literal body => s!"'{body}' is not a literal"
  | .clause fragment conjunct => s!"'{fragment}' in clause '{conjunct}' is not a literal"
  | .unassigned a => "Variable '" ++ a.name ++ "' has no value in the assignment"
  | .noEntry a => Text.quoted a.name
  | .noChild => "tuple index out of range"
  | .unnamed written => s!"Subformula {written} has no name"
  | .unknownKind name => Text.quotedOrNone name ++ " is not a valid AlgorithmKind"
  | .unknownVariant name => Text.quotedOrNone name ++ " is not a valid DeterminismVariant"
  | .unknownType name => s!"Unknown determinism type: {name}"
  | .unknownConnective text => Text.quotedOrNone text
  | .unknownFormat name known =>
    "unknown format: " ++ Text.quoted name ++ " (must be one of " ++
      Text.listed (known.map Text.quoted) ++ ")"
  | .longNumber digits =>
    s!"Exceeds the limit ({Text.digitLimit} digits) for integer string conversion: value has " ++
      s!"{digits} digits; use sys.set_int_max_str_digits() to increase the limit"

/-- The error lies in an input that accompanies the formula, or in the shape of the formula. -/
def isInput : Error → Bool
  | .position _ => true
  | .assertion _ => true
  | .literal _ => true
  | .clause _ _ => true
  | _ => false

end Error

end Propositional
