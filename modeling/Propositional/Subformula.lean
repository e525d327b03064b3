import Propositional.Analysis.Inputs
import Propositional.Checked
import Propositional.Position

/-!
# Subformulas

Looking up the subformula at a position.

* `Subformula`         — the subformula with the formula and all its positions;
* `Subformula.analyse` — the look-up for a formula text and a position text.
-/

namespace Propositional

/-- A subformula and where it was found. -/
structure Subformula where
  formula : String
  -- The text of the position, or the sign for the root.
  position : String
  subformula : Formula Letter
  tree : Formula Letter

namespace Subformula

/-- The texts of all positions of the whole formula. -/
def positions (found : Subformula) : List String :=
  found.tree.positionTexts

/-- The subformula at the position among the inputs. -/
def analyse (inputs : Inputs) : Checked Subformula := do
  let position := inputs.positionText
  Checked.note
    (startMessage "subformula" inputs.formulaText [("position", Text.quoted position)])
  let f ← Checked.readFormula inputs.formula
  match f.atText? (some position) with
  | none => throw (.position position)
  | some found =>
    Checked.note (resultMessage "subformula" found.text)
    let shown := if position.isEmpty then Position.rootLabel else position
    return ⟨inputs.formulaText, shown, found, f⟩

end Subformula

end Propositional
