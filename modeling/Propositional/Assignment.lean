import Propositional.Error
import Propositional.Formula.Evaluation
import Propositional.Table
import Propositional.Text.Quoted

/-!
# Assignments

Truth values for some names, and the enumeration of all assignments to given names.

* `Assignment`       — a table of truth values;
* `Assignment.row`   — the assignment whose values are the binary digits of a number;
* `Assignment.all`   — the assignments to given names, in counting order;
* `Assignment.evaluate` — the truth value of a formula under an assignment;
* `Assignment.shown` — an assignment as it is written in a message.

The first name takes the least significant digit, so it changes its value fastest.
-/

namespace Propositional

/-- Truth values for some names. -/
abbrev Assignment (κ : Type) : Type :=
  Table κ Bool

namespace Assignment

variable {κ : Type} [DecidableEq κ]

/-- The assignment in which the name at place `j` gets digit `j` of the number.  A name that stands
at several places gets the digit of the last one. -/
def row (names : List κ) (number : Nat) : Assignment κ :=
  Table.ofList (names.zipIdx.map fun (name, place) => (name, number.testBit place))

/-- All assignments to the given names, in counting order. -/
def all (names : List κ) : List (Assignment κ) :=
  (List.range (Nat.pow 2 names.length)).map (row names)

/-- The truth value of a formula under an assignment.  A letter without a value is an error. -/
def evaluate (s : Assignment Letter) (f : Formula Letter) : Except Error Bool :=
  match f.evaluate s.get? with
  | .ok value => .ok value
  | .error letter => .error (.unassigned letter)

/-- An assignment to letters as it is written in a message. -/
def shown (s : Assignment Letter) : String :=
  Text.braced (s.entries.map fun (letter, value) => Text.entry letter.name (Text.truth value))

end Assignment

end Propositional
