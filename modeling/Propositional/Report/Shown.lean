import Propositional.Report.Value
import Propositional.Text.Quoted

/-!
# Report values in messages

* `Value.shown`  — a value as it is written in a message, on one line;
* `givenInputs`  — the inputs that are there, with their values as they are written.
-/

namespace Propositional.Report

namespace Value

mutual

/-- A value on one line. -/
def shown : Value → String
  | .null => "None"
  | .bool value => Text.truth value
  | .int value => toString value
  | .text value => Text.quoted value
  | .list items => Text.listed (shownItems items)
  | .record fields => Text.braced (shownFields fields)

/-- The items of a list. -/
def shownItems : List Value → List String
  | [] => []
  | item :: rest => shown item :: shownItems rest

/-- The fields of a record. -/
def shownFields : List (String × Value) → List String
  | [] => []
  | (name, value) :: rest => Text.entry name (shown value) :: shownFields rest

end

end Value

/-- The inputs that are there, with their values as they are written in a message. -/
def givenInputs (inputs : List (String × Value)) : List (String × String) :=
  inputs.filterMap fun (name, value) =>
    match value with
    | .null => none
    | value => some (name, value.shown)

end Propositional.Report
