import Propositional.Formula

/-!
# Positions

A position addresses a node of a formula's tree by the steps that lead to it from the root.  The
operand of a negation is its first child; a binary formula has a first and a second child.

* `Step`, `Position`       — one step, and a row of steps;
* `Position.text`, `Position.read` — steps as digits with dots between them, and back;
* `Formula.child?`, `Formula.at?` — the subformula one step below, and at a position;
* `Formula.positions`      — the positions of a formula, each node before its children;
* `Formula.positionTexts`  — their texts, shorter ones first and equally long ones alphabetically.
-/

namespace Propositional

/-- One step down in a tree. -/
inductive Step where
  -- To the left side of a connective, or to what is negated.
  | first
  -- To the right side of a connective.
  | second
deriving DecidableEq, Repr

namespace Step

/-- The number of a step. -/
def number : Step → Nat
  | .first => 1
  | .second => 2

/-- The digit that writes a step. -/
def digit : Step → Char
  | .first => '1'
  | .second => '2'

/-- The step that a digit writes. -/
def ofDigit? (c : Char) : Option Step :=
  if c = '1' then some .first else if c = '2' then some .second else none

end Step

/-- The steps from the root to a node. -/
abbrev Position : Type :=
  List Step

namespace Position

/-- The characters of a position: its digits with dots between them. -/
def glyphs : Position → List Char
  | [] => []
  | [s] => [s.digit]
  | s :: rest => s.digit :: '.' :: glyphs rest

/-- The text of a position; the root has the empty text. -/
def text (p : Position) : String :=
  String.ofList p.glyphs

/-- The steps written by characters that are not empty. -/
def ofGlyphs? : List Char → Option Position
  | [] => none
  | [c] => (Step.ofDigit? c).map fun s => [s]
  | c :: '.' :: rest =>
    match Step.ofDigit? c, ofGlyphs? rest with
    | some s, some p => some (s :: p)
    | _, _ => none
  | _ => none

/-- The position that a text writes, if it is the empty text or digits 1 and 2 with single dots
between them. -/
def read (text : String) : Option Position :=
  match text.toList with
  | [] => some []
  | glyphs => ofGlyphs? glyphs

/-- The text of the position one step below the one with the given text. -/
def below (text : String) (step : Step) : String :=
  if text.isEmpty then String.ofList [step.digit]
  else text ++ String.ofList ['.', step.digit]

/-- The order in which positions are listed: by length, then alphabetically. -/
def listedBefore (p q : String) : Bool :=
  p.length < q.length || (p.length = q.length && p ≤ q)

/-- The sign that stands for the root where a position is shown to a reader. -/
def rootLabel : String := "ε"

end Position

namespace Formula

variable {α : Type}

/-- The subformula one step below the root. -/
def child? : Formula α → Step → Option (Formula α)
  | .neg f, .first => some f
  | .bin _ l _, .first => some l
  | .bin _ _ r, .second => some r
  | _, _ => none

/-- The subformula reached by a step with any number.  A negation has a first child only; in a
binary formula every number but one leads to the right side. -/
def descend (step : Int) : Formula α → Option (Formula α)
  | .neg f => if step = 1 then some f else none
  | .bin _ l r => some (if step = 1 then l else r)
  | _ => none

/-- The subformula at a position. -/
def at? (f : Formula α) : Position → Option (Formula α)
  | [] => some f
  | s :: rest =>
    match f.child? s with
    | some g => g.at? rest
    | none => none

/-- The subformula at the position that a text writes; without a text, the formula itself. -/
def atText? (f : Formula α) (text : Option String) : Option (Formula α) :=
  match Position.read (text.getD "") with
  | some p => f.at? p
  | none => none

/-- The positions of a formula, each node before its children and the left child before the
right one. -/
def positions : Formula α → List Position
  | .var _ => [[]]
  | .const _ => [[]]
  | .neg f => [] :: f.positions.map (.first :: ·)
  | .bin _ l r => [] :: (l.positions.map (.first :: ·) ++ r.positions.map (.second :: ·))

/-- The texts of a formula's positions in the order in which they are listed. -/
def positionTexts (f : Formula α) : List String :=
  (f.positions.map Position.text).mergeSort Position.listedBefore

/-- Descending by the number of a step is taking the step. -/
theorem descend_number (f : Formula α) (s : Step) : f.descend s.number = f.child? s := by
  cases f <;> cases s <;> simp [descend, child?, Step.number]

end Formula

end Propositional
