import Propositional.Formula
import Propositional.SyntaxError

/-!
# Tokens

The symbols that formulas are written with, and cutting a text into them.

* `Symbol`         — atoms, constants, operators and parentheses;
* `Symbol.ofChar?` — the symbol that a character writes;
* `isSeparator`    — the four blanks that may stand anywhere between symbols;
* `Token`          — a symbol with the index of its character;
* `Token.scan`     — all tokens of a text, or its first character outside the alphabet.

Every symbol is one character long, so scanning never has to look ahead.
-/

namespace Propositional

/-- The symbols of formula texts over the atoms `α`. -/
inductive Symbol (α : Type) where
  | atom (atom : α)
  | const (truth : Bool)
  | neg
  | op (op : Connective)
  | leftParen
  | rightParen
deriving DecidableEq

namespace Symbol

variable {α : Type} [Atom α]

/-- The character that writes a symbol. -/
def glyph : Symbol α → Char
  | .atom a => Atom.glyph a
  | .const b => truthGlyph b
  | .neg => negationGlyph
  | .op c => c.glyph
  | .leftParen => '('
  | .rightParen => ')'

/-- The symbol that a character writes. -/
def ofChar? (c : Char) : Option (Symbol α) :=
  if c = negationGlyph then some .neg
  else if c = truthGlyph true then some (.const true)
  else if c = truthGlyph false then some (.const false)
  else if c = '(' then some .leftParen
  else if c = ')' then some .rightParen
  else match Connective.ofGlyph? c with
    | some connective => some (.op connective)
    | none => (Atom.ofGlyph? c).map .atom

/-- The name of a symbol's class. -/
def className : Symbol α → String
  | .atom _ => "VAR"
  | .const true => "TOP"
  | .const false => "BOTTOM"
  | .neg => "NOT"
  | .op .and => "AND"
  | .op .or => "OR"
  | .op .implies => "IMPLIES"
  | .op .iff => "IFF"
  | .leftParen => "LPAREN"
  | .rightParen => "RPAREN"

/-- A symbol after which a formula, or the group that is being read, may be complete. -/
def endsOperand : Symbol α → Bool
  | .atom _ => true
  | .const _ => true
  | .rightParen => true
  | _ => false

end Symbol

/-- The blanks that separate nothing and may stand anywhere: space, tab, return and newline. -/
def isSeparator (c : Char) : Bool :=
  c = ' ' || c = '\t' || c = '\r' || c = '\n'

/-- A symbol at its place in a text. -/
structure Token (α : Type) where
  symbol : Symbol α
  -- The index of its character in the text.
  index : Nat
deriving DecidableEq

namespace Token

variable {α : Type} [Atom α]

/-- The character of a token. -/
def glyph (t : Token α) : Char :=
  t.symbol.glyph

/-- The index behind a token. -/
def stop (t : Token α) : Nat :=
  t.index + 1

/-- The tokens of characters of which the first has the given index. -/
def scanFrom (index : Nat) : List Char → Except SyntaxError (List (Token α))
  | [] => .ok []
  | c :: rest =>
    if isSeparator c then scanFrom (index + 1) rest
    else match Symbol.ofChar? c with
      | none => .error (.invalidCharacter c index)
      | some symbol =>
        match scanFrom (index + 1) rest with
        | .ok tokens => .ok (⟨symbol, index⟩ :: tokens)
        | .error e => .error e

/-- The tokens of a text. -/
def scan (text : String) : Except SyntaxError (List (Token α)) :=
  scanFrom 0 text.toList

end Token

end Propositional
