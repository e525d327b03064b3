import Propositional.Analysis.Inputs
import Propositional.Assignment
import Propositional.Checked

/-!
# Truth tables

The truth value of a formula under every assignment of its letters, in counting order.

* `TruthTable.Row`, `TruthTable` — one line, and the whole table;
* `TruthTable.rowsOf`            — the lines for given assignments;
* `TruthTable.analyse`           — the table of a formula text.
-/

namespace Propositional

/-- One line of a truth table. -/
structure TruthTable.Row where
  assignment : Assignment Letter
  value : Bool

/-- The truth table of a formula. -/
structure TruthTable where
  formula : String
  letters : List Letter
  rows : List TruthTable.Row

namespace TruthTable

/-- The line for one assignment. -/
def rowOf (f : Formula Letter) (s : Assignment Letter) : Except Error Row := do
  let value ← s.evaluate f
  return ⟨s, value⟩

/-- The lines for a row of assignments. -/
def rowsOf (f : Formula Letter) (assignments : List (Assignment Letter)) :
    Except Error (List Row) :=
  assignments.mapM (rowOf f)

/-- All lines of a formula's table. -/
def rowsFor (f : Formula Letter) : Except Error (List Row) :=
  rowsOf f (Assignment.all f.letters)

/-- The message about one line. -/
def Row.message (row : Row) : String :=
  "    " ++ row.assignment.shown ++ " → " ++ Text.truth row.value

/-- The truth table of the formula among the inputs. -/
def analyse (inputs : Inputs) : Checked TruthTable := do
  Checked.note (startMessage "truth-table" inputs.formulaText [])
  let f ← Checked.readFormula inputs.formula
  Checked.note
    ("Variables found: " ++ Text.listed (f.letters.map fun a => Text.quoted a.name))
  let rows ← Checked.ofExcept (rowsFor f)
  Checked.notes (rows.map Row.message)
  Checked.note (resultMessage "truth-table" (toString rows.length ++ " rows"))
  return ⟨inputs.formulaText, f.letters, rows⟩

end TruthTable

end Propositional
