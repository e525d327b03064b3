import Propositional.Letter

/-!
# Formulas

Propositional formulas over atoms that are written as one letter each, and their text.

* `Connective`   — the four binary connectives, with glyph and truth function;
* `Formula`      — atoms, the two constants, negation and the binary connectives;
* `Atom`         — what a type has to offer so that its values can stand as atoms in a text;
* `Formula.text` — the text of a formula: every binary formula in parentheses, no blanks.

The instance for `Letter` gives the formulas that are read and analysed.  Formulas over other
atoms share the text and, later, the reader.
-/

namespace Propositional

/-! ## Connectives -/

/-- The binary connectives. -/
inductive Connective where
  | and
  | or
  | implies
  | iff
deriving DecidableEq, Repr

namespace Connective

/-- The character that writes a connective. -/
def glyph : Connective → Char
  | .and => '∧'
  | .or => '∨'
  | .implies => '→'
  | .iff => '↔'

/-- The connective that a character writes. -/
def ofGlyph? (c : Char) : Option Connective :=
  if c = '∧' then some .and
  else if c = '∨' then some .or
  else if c = '→' then some .implies
  else if c = '↔' then some .iff
  else none

/-- The connective that a text names: its glyph and nothing else. -/
def ofText? (text : String) : Option Connective :=
  match text.toList with
  | [c] => ofGlyph? c
  | _ => none

/-- The truth function of a connective. -/
def apply : Connective → Bool → Bool → Bool
  | .and, x, y => x && y
  | .or, x, y => x || y
  | .implies, x, y => !x || y
  | .iff, x, y => x == y

/-- How tightly a connective binds: `↔` binds loosest, `∧` tightest. -/
def strength : Connective → Nat
  | .iff => 1
  | .implies => 2
  | .or => 3
  | .and => 4

/-- The word for a formula built with the connective. -/
def kindName : Connective → String
  | .and => "And"
  | .or => "Or"
  | .implies => "Implies"
  | .iff => "Iff"

/-- A character reads as the connective that is written with it, and as no other. -/
theorem ofGlyph?_eq_some_iff {c : Char} {op : Connective} :
    ofGlyph? c = some op ↔ op.glyph = c := by
  constructor
  · intro h
    -- Each test either settles which connective it is, or passes to the next.
    rw [ofGlyph?] at h
    split at h
    · next e => cases h; exact e.symm
    split at h
    · next e => cases h; exact e.symm
    split at h
    · next e => cases h; exact e.symm
    split at h
    · next e => cases h; exact e.symm
    cases h
  · rintro rfl
    cases op <;> decide

end Connective

/-- The character that writes a truth value. -/
def truthGlyph : Bool → Char
  | true => '⊤'
  | false => '⊥'

/-- The character that writes negation. -/
def negationGlyph : Char := '¬'

/-! ## Atoms and formulas -/

/-- Types whose values can stand as atoms in the text of a formula: each is written as one ASCII
letter, and different atoms are written differently. -/
class Atom (α : Type) where
  glyph : α → Char
  ofGlyph? : Char → Option α
  -- Reading an atom undoes writing it, and nothing else reads as an atom.
  ofGlyph?_eq_some_iff : ∀ {c : Char} {a : α}, ofGlyph? c = some a ↔ glyph a = c
  -- Atoms are letters, so no atom is written like an operator, a parenthesis or a blank.
  isAlpha_glyph : ∀ a : α, (glyph a).isAlpha = true

/-- Letters are written as they are. -/
instance : Atom Letter where
  glyph := Letter.char
  ofGlyph? := Letter.ofChar?
  ofGlyph?_eq_some_iff := Letter.ofChar?_eq_some_iff
  isAlpha_glyph := Letter.isAlpha_char

/-- Propositional formulas over a type of atoms. -/
inductive Formula (α : Type) where
  | var (atom : α)
  | const (truth : Bool)
  | neg (operand : Formula α)
  | bin (op : Connective) (left right : Formula α)
deriving DecidableEq

namespace Formula

variable {α : Type}

/-- The direct subformulas, from left to right. -/
def children : Formula α → List (Formula α)
  | .var _ => []
  | .const _ => []
  | .neg f => [f]
  | .bin _ l r => [l, r]

/-- An atom or a constant. -/
def isLeaf : Formula α → Bool
  | .var _ => true
  | .const _ => true
  | .neg _ => false
  | .bin _ _ _ => false

/-- An atom or a negated atom. -/
def isLiteral : Formula α → Bool
  | .var _ => true
  | .neg (.var _) => true
  | _ => false

/-- The constant that a formula is, if it is one. -/
def constant? : Formula α → Option Bool
  | .const b => some b
  | _ => none

/-- The atoms of a formula in order of occurrence, from left to right. -/
def atoms : Formula α → List α
  | .var a => [a]
  | .const _ => []
  | .neg f => f.atoms
  | .bin _ l r => l.atoms ++ r.atoms

/-- The word for the outermost construction of a formula. -/
def kindName : Formula α → String
  | .var _ => "Variable"
  | .const _ => "Constant"
  | .neg _ => "Not"
  | .bin op _ _ => op.kindName

/-! ## Text -/

/-- The characters of a formula's text: binary formulas stand in parentheses, nothing else does,
and there are no blanks. -/
def glyphs [Atom α] : Formula α → List Char
  | .var a => [Atom.glyph a]
  | .const b => [truthGlyph b]
  | .neg f => negationGlyph :: f.glyphs
  | .bin op l r => '(' :: (l.glyphs ++ op.glyph :: (r.glyphs ++ [')']))

/-- The text of a formula. -/
def text [Atom α] (f : Formula α) : String :=
  String.ofList f.glyphs

/-- The character that stands for a formula in a drawing of its tree: the outermost operator, or
the leaf itself. -/
def rootGlyph [Atom α] : Formula α → Char
  | .var a => Atom.glyph a
  | .const b => truthGlyph b
  | .neg _ => negationGlyph
  | .bin op _ _ => op.glyph

end Formula

end Propositional
