import Propositional.Token

/-!
# Reading formulas

A formula is read token by token with a stack of what is still open.  The reader is an automaton:
`Reader.step` takes one token, `Reader.finish` says what the tokens so far amount to.  It fails at
the first token that no formula can continue with, so the error names that token.

* `Frame`, `Reader` — what is open, and whether an operand has just been completed;
* `Reader.step`, `Reader.finish` — one token, and the end of the text;
* `Formula.ofTokens` — the formula that a row of tokens writes;
* `Formula.read`     — the formula that a text writes.

All connectives associate to the left, `↔` binds loosest, then `→`, `∨` and `∧`, and `¬` binds
tighter than all of them.  An operator therefore closes everything open that binds at least as
tightly (`reduce`) before it opens its right side.
-/

namespace Propositional

/-- Something that is open: a negation waits for its operand, a left side with its connective for
the right side, a parenthesis for its partner. -/
inductive Frame (α : Type) where
  -- A negation sign that waits for its operand.
  | neg
  | left (operand : Formula α) (op : Connective)
  | paren
deriving DecidableEq

/-- Whether a frame is an open parenthesis. -/
def Frame.isParen {α : Type} : Frame α → Bool
  | .paren => true
  | _ => false

/-- The state of reading: the open frames, innermost first, and the operand that the tokens so far
have completed, if they end with one. -/
structure Reader (α : Type) where
  -- What is open, innermost first.
  stack : List (Frame α)
  -- The operand just completed; without one, an operand has to follow.
  operand : Option (Formula α)
deriving DecidableEq

namespace Reader

variable {α : Type}

/-- Nothing read yet. -/
def start : Reader α :=
  ⟨[], none⟩

/-- Completes negations and left sides that bind at least as tightly as the given strength, down
to the first frame that does not. -/
def reduce (strength : Nat) : List (Frame α) → Formula α → List (Frame α) × Formula α
  | .neg :: rest, f => reduce strength rest (.neg f)
  | .left l op :: rest, f =>
    if strength ≤ op.strength then reduce strength rest (.bin op l f) else (.left l op :: rest, f)
  | .paren :: rest, f => (.paren :: rest, f)
  | [], f => ([], f)

/-- Whether a parenthesis is open. -/
def isOpen (stack : List (Frame α)) : Bool :=
  stack.any Frame.isParen

variable [Atom α]

/-- A token where an operand has to follow. -/
def stepOperand (stack : List (Frame α)) (t : Token α) : Except SyntaxError (Reader α) :=
  match t.symbol with
  | .atom a => .ok ⟨stack, some (.var a)⟩
  | .const b => .ok ⟨stack, some (.const b)⟩
  | .neg => .ok ⟨.neg :: stack, none⟩
  | .leftParen => .ok ⟨.paren :: stack, none⟩
  | .op _ => .error (.unexpectedToken t.glyph t.index)
  | .rightParen => .error (.unexpectedToken t.glyph t.index)

/-- A token after a complete operand. -/
def stepOperator (stack : List (Frame α)) (f : Formula α) (t : Token α) :
    Except SyntaxError (Reader α) :=
  match t.symbol with
  | .op op =>
    let (rest, left) := reduce op.strength stack f
    .ok ⟨.left left op :: rest, none⟩
  | .rightParen =>
    match reduce 0 stack f with
    | (.paren :: rest, group) => .ok ⟨rest, some group⟩
    | _ => .error (.trailingTokens t.glyph t.index)
  | _ =>
    if isOpen stack then .error .missingParenthesis
    else .error (.trailingTokens t.glyph t.index)

/-- Takes one token. -/
def step (r : Reader α) (t : Token α) : Except SyntaxError (Reader α) :=
  match r.operand with
  | none => stepOperand r.stack t
  | some f => stepOperator r.stack f t

/-- What the tokens so far amount to when no more follow. -/
def finish (r : Reader α) : Except SyntaxError (Formula α) :=
  match r.operand with
  | none => .error .unexpectedEnd
  | some f =>
    match reduce 0 r.stack f with
    | ([], whole) => .ok whole
    | _ => .error .missingParenthesis

/-- Takes a row of tokens. -/
def run (r : Reader α) : List (Token α) → Except SyntaxError (Reader α)
  | [] => .ok r
  | t :: rest =>
    match r.step t with
    | .ok next => next.run rest
    | .error e => .error e

end Reader

namespace Formula

variable {α : Type} [Atom α]

/-- The formula that a row of tokens writes. -/
def ofTokens (tokens : List (Token α)) : Except SyntaxError (Formula α) :=
  match Reader.start.run tokens with
  | .ok r => r.finish
  | .error e => .error e

/-- The formula that a text writes.  A character outside the alphabet is reported before any other
error, wherever it stands. -/
def read (text : String) : Except SyntaxError (Formula α) :=
  match Token.scan text with
  | .ok tokens => ofTokens tokens
  | .error e => .error e

end Formula

end Propositional
