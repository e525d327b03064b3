import Propositional.Analysis.Inputs
import Propositional.Checked
import Propositional.UnitPropagation

/-!
# Propagation of a formula in clause form

Unit propagation on the clauses of a formula, with its course and the canonical rendering of what
remains.  Clauses that lose their last literal are dropped.

* `Propagation`         — the course of the propagation;
* `Propagation.analyse` — the propagation of a formula text.
-/

namespace Propositional

/-- The propagation of a formula in clause form. -/
structure Propagation where
  formula : String
  run : UnitPropagation.Run

namespace Propagation

/-- The canonical rendering of the result. -/
def canonical (p : Propagation) : String :=
  Clause.canonical p.run.clauses p.run.literals

/-- The propagation of the formula among the inputs. -/
def analyse (inputs : Inputs) : Checked Propagation := do
  Checked.note (startMessage "unit-propagation" inputs.formulaText [])
  let f ← Checked.readFormula inputs.formula
  let clauses ← Checked.ofExcept (Clause.allOfFormula f)
  Checked.note ("Initial clauses: " ++ Clause.shown clauses)
  let result : Propagation := ⟨inputs.formulaText, UnitPropagation.run false clauses⟩
  Checked.notes result.run.messages
  Checked.note (resultMessage "unit-propagation" result.canonical)
  return result

end Propagation

end Propositional
