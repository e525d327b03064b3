import Propositional.Log
import Propositional.Simplification

/-!
# Simplification with a log

* `Simplification.messages` — the messages about the passes;
* `Simplification.warning`  — the warning about a simplification that gave up;
* `Formula.simplifyLogged`  — simplification that writes them.
-/

namespace Propositional

namespace Simplification

/-- The messages about the passes, which are counted from one. -/
def messages (s : Simplification Letter) : List String :=
  s.passes.zipIdx.map fun (f, place) => passMessage (place + 1) f.text

/-- The warning about a simplification of a formula that ended without converging. -/
def warning (limit : Int) (f : Formula Letter) (s : Simplification Letter) : String :=
  "Simplification of " ++ f.text ++ " did not converge after " ++ toString limit ++
    " passes; stopping at " ++ s.result.text

end Simplification

/-- Simplifies a formula and writes about it. -/
def Formula.simplifyLogged (limit : Int) (f : Formula Letter) : Logged (Simplification Letter) := do
  let s := f.simplify limit
  Logged.emitAll .debug s.messages
  Logged.emitAll .warning (if s.converged then [] else [s.warning limit f])
  return s

end Propositional
