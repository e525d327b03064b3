import Propositional.Error
import Propositional.Formula.Reader
import Propositional.Log

/-!
# Computations that log and may fail

Analyses write a log and may end with an error instead of a result.  What was written before the
error stays written.

* `Checked`              — the type of such computations;
* `Checked.note`, `Checked.notes` — writing a message, or several;
* `Checked.ofExcept`     — a computation that writes nothing;
* `Checked.readFormula`  — reading a formula, with what is noted about it.
-/

namespace Propositional

/-- A logged computation that may end with an error. -/
abbrev Checked (α : Type) : Type :=
  ExceptT Error Logged α

namespace Checked

variable {α : Type}

/-- Runs a computation for a reader with the given threshold. -/
def run (x : Checked α) (threshold : Level) : List Record × Except Error α :=
  Logged.run (ExceptT.run x) threshold

/-- Writes a message of the lowest level. -/
def note (message : String) : Checked Unit :=
  ExceptT.lift (Logged.emit .debug message)

/-- Writes several messages of the lowest level. -/
def notes (messages : List String) : Checked Unit :=
  ExceptT.lift (Logged.emitAll .debug messages)

/-- A result or an error, without any message. -/
def ofExcept (x : Except Error α) : Checked α :=
  ExceptT.mk (pure x)

/-- The messages about a text that could not be read. -/
def failureMessages : SyntaxError → List String
  | .absent => ["Unexpected parsing error: TypeError: " ++ SyntaxError.absent.message]
  | .invalidCharacter character index =>
    [s!"Illegal character '{character}' at position {index}",
      "ParseError encountered during formula parsing"]
  | _ => ["ParseError encountered during formula parsing"]

/-- Reads a formula.  The text is noted twice, once when it is handed over and once when it is
taken up, and then the outermost construction or the failure. -/
def readFormula (input : Input) : Checked (Formula Letter) := do
  let begun := "Parsing formula: " ++ input.shown
  notes [begun, begun]
  let outcome : Except SyntaxError (Formula Letter) :=
    match input with
    | .missing => .error .absent
    | given => Formula.read given.content
  match outcome with
  | .ok f =>
    notes ["Successfully parsed formula into " ++ f.kindName,
      "Formula parsed successfully into AST with type: " ++ f.kindName]
    return f
  | .error reason =>
    notes (failureMessages reason)
    throw (.formula reason)

end Checked

end Propositional
