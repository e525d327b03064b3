import Propositional.Input

/-!
# Inputs of analyses

What an analysis is given.  Every analysis reads the formula and those of the other inputs that it
needs.

* `Inputs`     — the formula with everything that may accompany it;
* `Inputs.formulaText`, `Inputs.positionText` — the formula as it is shown, and the position
  with its absence filled in.
-/

namespace Propositional

/-- The inputs of an analysis; each may be missing. -/
structure Inputs where
  formula : Input
  -- The position of a subformula; the root when missing.
  position : Input := .missing
  interpretation : Input := .missing
  statement : Input := .missing
  checkType : Input := .missing
deriving DecidableEq, Repr

namespace Inputs

/-- The text of the formula as it is shown in messages. -/
def formulaText (inputs : Inputs) : String :=
  inputs.formula.shown

/-- The position as a text; the root is the empty one. -/
def positionText (inputs : Inputs) : String :=
  inputs.position.content

end Inputs

end Propositional
