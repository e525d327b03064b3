import Propositional.Analysis.Inputs
import Propositional.Checked
import Propositional.Polarity

/-!
# Polarity of a subformula

The sign of the occurrence at a position, beside the annotated tree of the whole formula.

* `PolarityReport`         — the sign, the subformula and the tree;
* `PolarityReport.analyse` — the look-up for a formula text and a position text.
-/

namespace Propositional

/-- The polarity of an occurrence and the tree that it was read off. -/
structure PolarityReport where
  formula : String
  position : String
  sign : Int
  subformula : Formula Letter
  tree : Annotated Letter

namespace PolarityReport

/-- The polarity of the occurrence. -/
def polarity (r : PolarityReport) : Polarity :=
  .ofSign r.sign

/-- The formula at the position that a text writes, in an annotated tree.  The position is not
checked here: a text that writes none counts as the root, and a step to no child is an error of its
own. -/
def nodeAt (tree : Annotated Letter) (position : String) : Except Error (Formula Letter) :=
  match tree.at? ((Position.read position).getD []) with
  | some found => .ok found.here.node
  | none => .error .noChild

/-- The polarity at the position among the inputs. -/
def analyse (inputs : Inputs) : Checked PolarityReport := do
  let position := inputs.positionText
  Checked.note (startMessage "polarity" inputs.formulaText [("position", Text.quoted position)])
  let f ← Checked.readFormula inputs.formula
  let sign ← Checked.ofExcept (f.signAtText (some position))
  let subformula ← Checked.ofExcept (nodeAt f.annotated position)
  Checked.note
    (resultMessage "polarity" (subformula.text ++ " is " ++ (Polarity.ofSign sign).name))
  return ⟨inputs.formulaText, position, sign, subformula, f.annotated⟩

end PolarityReport

end Propositional
