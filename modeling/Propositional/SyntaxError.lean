/-!
# Syntax errors

The reasons why a text is not a formula.  Each says where the reader had to stop: at a character
outside the alphabet, or at the first token that no formula can continue with.
-/

namespace Propositional

/-- Why a text is not a formula. -/
inductive SyntaxError where
  -- There is no text at all.
  | absent
  -- A character outside the alphabet, with its index.
  | invalidCharacter (character : Char) (index : Nat)
  -- The text ended where an operand had to follow.
  | unexpectedEnd
  -- A group was complete, but its parenthesis was not closed.
  | missingParenthesis
  -- An operator or a closing parenthesis stands where an operand had to follow.
  | unexpectedToken (glyph : Char) (index : Nat)
  -- A complete formula is followed by something other than a binary operator.
  | trailingTokens (glyph : Char) (index : Nat)
deriving DecidableEq, Repr

/-- The text of a syntax error. -/
def SyntaxError.message : SyntaxError → String
  | .absent => "'NoneType' object is not subscriptable"
  | .invalidCharacter character index =>
    s!"Invalid character: {character} (at position {index})"
  | .unexpectedEnd => "Unexpected end of formula"
  | .missingParenthesis => "Missing closing parenthesis"
  | .unexpectedToken glyph index => s!"Unexpected token: {glyph} (at position {index})"
  | .trailingTokens glyph index =>
    s!"Unexpected tokens after formula end: '{glyph}' at position {index}"

end Propositional
