import Propositional.Analysis.Inputs
import Propositional.Assignment
import Propositional.Checked

/-!
# Satisfiability

How many assignments make a formula true, and what follows from the number.

* `Satisfiability.Status`   — unsatisfiable, satisfiable or valid;
* `Satisfiability`          — the status with the counts and the first model;
* `Satisfiability.Tally`    — what has been counted so far;
* `Satisfiability.countAll` — counts through assignments;
* `Satisfiability.analyse`  — the check for a formula text.
-/

namespace Propositional

/-- Whether a formula is true under no, some or every assignment.  A formula that is true under
every assignment counts as valid. -/
inductive Satisfiability.Status where
  -- Under no assignment.
  | unsatisfiable
  -- Under some assignments, but not under all.
  | satisfiable
  -- Under every assignment.
  | valid
deriving DecidableEq, Repr

/-- The name of a status. -/
def Satisfiability.Status.name : Satisfiability.Status → String
  | .unsatisfiable => "unsatisfiable"
  | .satisfiable => "satisfiable"
  | .valid => "valid"

/-- How often a formula is true. -/
structure Satisfiability where
  formula : String
  status : Satisfiability.Status
  -- The first assignment that makes the formula true.
  model : Option (Assignment Letter)
  trueCount : Nat
  total : Nat

namespace Satisfiability

/-! ## Counting -/

/-- What has been counted so far. -/
structure Tally where
  total : Nat
  trueCount : Nat
  -- The first assignment that made the formula true.
  model : Option (Assignment Letter)

namespace Tally

/-- Nothing has been counted. -/
def start : Tally :=
  ⟨0, 0, none⟩

/-- Counts one more assignment, under which the formula has the given value. -/
def count (t : Tally) (s : Assignment Letter) (value : Bool) : Tally :=
  if value then ⟨t.total + 1, t.trueCount + 1, if t.model.isNone then some s else t.model⟩
  else ⟨t.total + 1, t.trueCount, t.model⟩

end Tally

/-- Evaluates a formula under assignments in turn, and counts them. -/
def countAll (f : Formula Letter) (assignments : List (Assignment Letter)) : Except Error Tally :=
  assignments.foldlM (fun t s => return t.count s (← s.evaluate f)) .start

/-! ## The check -/

/-- The status that belongs to a number of true assignments among all assignments. -/
def statusOf (trueCount total : Nat) : Status :=
  if trueCount = 0 then .unsatisfiable
  else if trueCount = total then .valid
  else .satisfiable

/-- What the counts say when all assignments have been counted. -/
def ofTally (formula : String) (t : Tally) : Satisfiability where
  formula := formula
  status := statusOf t.trueCount t.total
  model := t.model
  trueCount := t.trueCount
  total := t.total

/-- The satisfiability of the formula among the inputs. -/
def analyse (inputs : Inputs) : Checked Satisfiability := do
  Checked.note (startMessage "satisfiability" inputs.formulaText [])
  let f ← Checked.readFormula inputs.formula
  let tally ← Checked.ofExcept (countAll f (Assignment.all f.letters))
  let found := ofTally inputs.formulaText tally
  Checked.note (resultMessage "satisfiability"
    s!"{found.status.name} ({found.trueCount}/{found.total} true assignments)")
  return found

end Satisfiability

end Propositional
