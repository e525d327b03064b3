import Propositional.Text.Quoted

/-!
# Inputs as they are given

An input of an analysis is a text, or it is missing, or it is void: asked for, but with nothing in
it.  A void input reads like the empty text and is shown as an empty list.

* `Input`          — what is given for one input;
* `Input.content`  — the text that is read;
* `Input.shown`    — how the input is written in a message;
* `Input.listed?`  — how it is written in a list of inputs, if it is there.
-/

namespace Propositional

/-- What is given for one input. -/
inductive Input where
  | missing
  -- The input is asked for, but nothing is in it.
  | void
  | text (content : String)
deriving DecidableEq, Repr

namespace Input

/-- A text that may be missing. -/
def ofOption : Option String → Input
  | some content => .text content
  | none => .missing

/-- The text that is read; without one, the empty text. -/
def content : Input → String
  | .missing => ""
  | .void => ""
  | .text content => content

/-- The input as it is written in a message. -/
def shown : Input → String
  | .missing => "None"
  | .void => "[]"
  | .text content => content

/-- The input as it is written in a list of inputs, where a missing one is left out and a text
stands in quotes. -/
def listed? : Input → Option String
  | .missing => none
  | .void => some "[]"
  | .text content => some (Text.quoted content)

end Input

end Propositional
