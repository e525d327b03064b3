import Propositional.Analysis.Inputs
import Propositional.Checked
import Propositional.Interpretation.Assertion
import Propositional.Interpretation.Template
import Propositional.Simplification.Logged

/-!
# Statements under an interpretation

An interpretation such as `I⊨¬p` fixes the value of one letter.  A formula is simplified under it,
put into the body of a statement such as `I⊭A` in place of the letter `A`, and the body is
simplified in turn.  The statement holds when the body comes out as the constant that it asserts.

* `Interpretation`         — the formulas reached and the answer;
* `Interpretation.analyse` — the test of a statement text.
-/

namespace Propositional

/-- A statement about a formula, tested under an interpretation. -/
structure Interpretation where
  formula : String
  interpretation : String
  statement : String
  -- The value that the interpretation fixes.
  assignment : Assignment Letter
  asserted : Bool
  simplified : Simplification Letter
  -- The body of the statement with the simplified formula in it.
  body : String
  conclusion : Simplification Letter

namespace Interpretation

/-- The truth value of the body, if simplification found one. -/
def value (t : Interpretation) : Option Bool :=
  t.conclusion.result.constant?

/-- Whether the body has the value that the statement asserts. -/
def isValid (t : Interpretation) : Bool :=
  t.value = some t.asserted

/-- The inputs that are given beside the formula, as they are written in a message. -/
def givenInputs (inputs : Inputs) : List (String × String) :=
  [("interpretation", inputs.interpretation), ("statement", inputs.statement)].filterMap
    fun (name, input) => input.listed?.map fun written => (name, written)

/-- Simplifies a formula under an assignment, with the usual limit of passes. -/
def simplifyUnder (assignment : Assignment Letter) (f : Formula Letter) :
    Checked (Simplification Letter) :=
  ExceptT.lift ((f.assign assignment.get?).simplifyLogged Formula.defaultPassLimit)

/-- Tests the statement among the inputs. -/
def analyse (inputs : Inputs) : Checked Interpretation := do
  Checked.note (startMessage "interpretation" inputs.formulaText (givenInputs inputs))
  let assignment ← Checked.ofExcept (readInterpretation inputs.interpretation)
  let statement ← Checked.ofExcept (Assertion.read inputs.statement)
  let f ← Checked.readFormula inputs.formula
  let simplified ← simplifyUnder assignment f
  Checked.note ("Formula under " ++ assignment.shown ++ ": " ++ simplified.result.text)
  let body := splice statement.body simplified.result
  let g ← Checked.readFormula (.text body)
  let conclusion ← simplifyUnder assignment g
  let tested : Interpretation :=
    ⟨inputs.formulaText, inputs.interpretation.content, inputs.statement.content, assignment,
      statement.holds, simplified, body, conclusion⟩
  Checked.note (resultMessage "interpretation"
    (body ++ " ↦ " ++ conclusion.result.text ++ ", valid=" ++ Text.truth tested.isValid))
  return tested

end Interpretation

end Propositional
