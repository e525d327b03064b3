import Propositional.Error
import Propositional.Assignment
import Propositional.Text.Blank

/-!
# Assertions about an interpretation

Texts such as `I⊨a∨b` and `I⊭¬p`, which say of an interpretation that it does or does not satisfy a
body.

* `Assertion`      — the relation and the body;
* `Assertion.read` — the assertion that a text makes;
* `Assertion.literal` — the value that an assertion about a literal gives to its letter;
* `readInterpretation` — the assignment that a text such as `I⊨¬p` stands for.

White space may stand before the `I`, after it, and at both ends of the body.  A body that consists
of white space alone is its last character that is not a newline; any other body is taken without
the white space around it and must be on one line.
-/

namespace Propositional

/-- The sign for "satisfies". -/
def modelsGlyph : Char := '⊨'

/-- The sign for "does not satisfy". -/
def notModelsGlyph : Char := '⊭'

/-- What a text says about an interpretation. -/
structure Assertion where
  holds : Bool
  body : String
deriving DecidableEq, Repr

namespace Assertion

/-- The body in the characters behind the relation. -/
def bodyOf (rest : List Char) : Option (List Char) :=
  let core := Text.strip rest
  if core.isEmpty then
    (rest.filter fun c => c ≠ '\n').getLast?.map fun c => [c]
  else if core.contains '\n' then none
  else some core

/-- The assertion behind the letter `I`. -/
def afterSubject (rest : List Char) : Option Assertion :=
  match Text.stripLeft rest with
  | [] => none
  | relation :: tail =>
    if relation = modelsGlyph then
      (bodyOf tail).map fun body => ⟨true, String.ofList body⟩
    else if relation = notModelsGlyph then
      (bodyOf tail).map fun body => ⟨false, String.ofList body⟩
    else none

/-- The assertion that characters make. -/
def ofChars? (text : List Char) : Option Assertion :=
  match Text.stripLeft text with
  | 'I' :: rest => afterSubject rest
  | _ => none

/-- The assertion that a text makes. -/
def read (input : Input) : Except Error Assertion :=
  match ofChars? input.content.toList with
  | some a => .ok a
  | none => .error (.assertion input)

/-- The letter of a body that is a literal, with its sign: an optional `¬`, white space and one
lower-case letter. -/
def bodyLiteral? (body : List Char) : Option (Bool × Letter) :=
  let unsigned := if body.head? = some '¬' then body.tail else body
  match Text.stripLeft unsigned with
  | [c] => (Letter.ofChar? c).map fun a => (body.head? = some '¬', a)
  | _ => none

/-- The letter whose value an assertion about a literal fixes, with the value. -/
def literal (a : Assertion) : Except Error (Letter × Bool) :=
  match bodyLiteral? a.body.toList with
  | some (negated, letter) => .ok (letter, a.holds != negated)
  | none => .error (.literal a.body)

end Assertion

/-- The assignment of one letter that a text such as `I⊨¬p` stands for. -/
def readInterpretation (input : Input) : Except Error (Assignment Letter) :=
  match Assertion.read input with
  | .error e => .error e
  | .ok a =>
    match a.literal with
    | .ok (letter, value) => .ok (Table.ofList [(letter, value)])
    | .error e => .error e

end Propositional
