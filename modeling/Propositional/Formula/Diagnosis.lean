import Propositional.Token

/-!
# Diagnosing a syntax error

Why a row of tokens is no formula, worked out without the frames of the reader: from the token at
which reading stopped and the tokens in front of it.

* `openParens`, `completesOperand` — what counts of the symbols taken so far;
* `Token.takenBefore`      — the tokens in front of the one at which reading stopped;
* `SyntaxError.classify`   — the error behind the symbols taken, by what follows;
* `SyntaxError.diagnose`   — the error for a row of tokens and the one at which reading stopped.
-/

namespace Propositional

variable {α : Type}

/-- How many more parentheses have been opened than closed. -/
def openParens : List (Symbol α) → Int
  | [] => 0
  | .leftParen :: rest => openParens rest + 1
  | .rightParen :: rest => openParens rest - 1
  | _ :: rest => openParens rest

/-- Whether the last symbol completes an operand. -/
def completesOperand (taken : List (Symbol α)) : Bool :=
  taken.getLast?.any Symbol.endsOperand

/-- Whether a symbol is a binary connective. -/
def Symbol.isConnective : Symbol α → Bool
  | .op _ => true
  | _ => false

/-- The tokens in front of the one at which reading stopped, which are all of them at the end of
the row.  Nothing is in front of a token that is not in the row. -/
def Token.takenBefore [DecidableEq α] (tokens : List (Token α)) :
    Option (Token α) → Option (List (Token α))
  | none => some tokens
  | some t => if t ∈ tokens then some (tokens.takeWhile fun u => u ≠ t) else none

namespace SyntaxError

variable [Atom α]

/-- The error behind the symbols taken, when reading stopped at the end or at a token. -/
def classify (taken : List (Symbol α)) : Option (Token α) → SyntaxError
  | none =>
    if completesOperand taken && 0 < openParens taken then .missingParenthesis
    else .unexpectedEnd
  | some t =>
    if completesOperand taken && !t.symbol.isConnective then
      if 0 < openParens taken then .missingParenthesis
      else .trailingTokens t.glyph t.index
    else .unexpectedToken t.glyph t.index

/-- The error for a row of tokens and the place at which reading stopped.  There is none for a
token that is not in the row. -/
def diagnose [DecidableEq α] (tokens : List (Token α)) (stop : Option (Token α)) :
    Option SyntaxError :=
  (Token.takenBefore tokens stop).map fun taken => classify (taken.map (·.symbol)) stop

end SyntaxError

end Propositional
