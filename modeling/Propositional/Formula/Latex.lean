import Propositional.Formula

/-!
# Formulas in LaTeX

The rendering of a formula with the commands of mathematical typesetting.

* `Connective.latexCommand`, `truthCommand`, `negationCommand` — the command for each glyph;
* `Formula.latex` — the rendering: `(l \land r)` with blanks around the command, `\neg` with its
  operand in braces;
* `Style`, `Formula.format` — the choice between the plain text and LaTeX.
-/

namespace Propositional

/-- The command that writes a connective. -/
def Connective.latexCommand : Connective → String
  | .and => "\\land"
  | .or => "\\lor"
  | .implies => "\\rightarrow"
  | .iff => "\\leftrightarrow"

/-- The command that writes a truth value. -/
def truthCommand : Bool → String
  | true => "\\top"
  | false => "\\bot"

/-- The command that writes negation. -/
def negationCommand : String := "\\neg"

/-- How a formula is rendered. -/
inductive Style where
  | text
  | latex
deriving DecidableEq, Repr

/-- The style that a word asks for; every word but `latex` asks for the plain text. -/
def Style.ofName (name : Option String) : Style :=
  if name = some "latex" then .latex else .text

namespace Formula

variable {α : Type} [Atom α]

/-- The characters of a formula's LaTeX text. -/
def latexGlyphs : Formula α → List Char
  | .var a => [Atom.glyph a]
  | .const b => (truthCommand b).toList
  | .neg f => negationCommand.toList ++ '\x7b' :: (f.latexGlyphs ++ ['\x7d'])
  | .bin op l r =>
    '(' :: (l.latexGlyphs ++ ' ' :: (op.latexCommand.toList ++ ' ' :: (r.latexGlyphs ++ [')'])))

/-- The LaTeX text of a formula. -/
def latex (f : Formula α) : String :=
  String.ofList f.latexGlyphs

/-- A formula rendered in the given style. -/
def format (style : Style) (f : Formula α) : String :=
  match style with
  | .text => f.text
  | .latex => f.latex

end Formula

end Propositional
