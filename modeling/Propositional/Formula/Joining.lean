import Propositional.Error
import Propositional.Formula

/-!
# Joining formulas

* `Formula.join` — two formulas joined by the connective that a text writes.
-/

namespace Propositional.Formula

/-- Two formulas joined by the connective that a text writes. -/
def join {α : Type} (operator : Option String) (l r : Formula α) : Except Error (Formula α) :=
  match operator.bind Connective.ofText? with
  | some op => .ok (.bin op l r)
  | none => .error (.unknownConnective operator)

end Propositional.Formula
