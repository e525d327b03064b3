import Propositional.Analysis.Inputs
import Propositional.Assignment
import Propositional.Checked
import Propositional.Formula.Constants

/-!
# Pure atoms

An atom is pure when it occurs with one polarity only.  Replacing a positive one by `⊤` and a
negative one by `⊥` keeps a formula satisfiable if it was, and afterwards constants are folded
away.

* `Signs`                  — the polarities with which an atom occurs;
* `Formula.signs`          — the polarities of all atoms in order of first occurrence;
* `PureAtom.find`          — the pure atoms with their polarity;
* `Formula.foldAssigned`   — atoms replaced by constants, folding on the way up;
* `Formula.foldOnce`       — one more folding pass, which also cancels double negations;
* `PureAtom`, `PureAtom.analyse` — the elimination for a formula text.
-/

namespace Propositional

/-! ## Polarities of atoms -/

/-- A set of polarities. -/
structure Signs where
  positive : Bool
  negative : Bool
deriving DecidableEq, Repr

namespace Signs

/-- No polarity. -/
def none : Signs :=
  ⟨false, false⟩

/-- One more polarity. -/
def add (s : Signs) (polarity : Bool) : Signs :=
  if polarity then { s with positive := true } else { s with negative := true }

/-- The only polarity of a set that has just one. -/
def only? (s : Signs) : Option Bool :=
  if s.positive = s.negative then Option.none else some s.positive

/-- The polarities as truth values, the positive one first. -/
def toList (s : Signs) : List Bool :=
  (if s.positive then [true] else []) ++ (if s.negative then [false] else [])

/-- The polarities as they are written in a message, the negative one first. -/
def shown (s : Signs) : String :=
  Text.braced (s.toList.reverse.map Text.truth)

end Signs

namespace Formula

/-- Walks through a formula that occurs with the given polarity, and adds their polarities to what a
table has for its atoms.  Negation and the left side of an implication flip the polarity; each side
of a biconditional is walked through with the positive one and then with the negative one. -/
def addSign (polarity : Bool) : Formula Letter → Table Letter Signs → Table Letter Signs
  | .var a, t => t.insert a (((t.get? a).getD .none).add polarity)
  | .const _, t => t
  | .neg f, t => f.addSign (!polarity) t
  | .bin .implies l r, t => r.addSign polarity (l.addSign (!polarity) t)
  | .bin .iff l r, t => r.addSign false (r.addSign true (l.addSign false (l.addSign true t)))
  | .bin _ l r, t => r.addSign polarity (l.addSign polarity t)

/-- The polarities with which each atom of a formula occurs, in order of first occurrence. -/
def signs (f : Formula Letter) : Table Letter Signs :=
  f.addSign true .empty

/-! ## Replacing and folding -/

/-- The formula with constants for the atoms that have values, folding constants on the way up. -/
def foldAssigned {α : Type} (value? : α → Option Bool) : Formula α → Formula α
  | .var a =>
    match value? a with
    | some b => .const b
    | none => .var a
  | .const b => .const b
  | .neg f => (f.foldAssigned value?).negated
  | .bin op l r => fold op (l.foldAssigned value?) (r.foldAssigned value?)

/-- The negation of a formula that may itself be a constant or a negation. -/
def cancelled {α : Type} : Formula α → Formula α
  | .const b => .const !b
  | .neg f => f
  | f => .neg f

/-- One folding pass from the leaves up, which also cancels double negations. -/
def foldOnce {α : Type} : Formula α → Formula α
  | .var a => .var a
  | .const b => .const b
  | .neg f => f.foldOnce.cancelled
  | .bin op l r => fold op l.foldOnce r.foldOnce

/-- Replaces atoms by constants, then folds once more. -/
def eliminate {α : Type} (value? : α → Option Bool) (f : Formula α) : Formula α :=
  (f.foldAssigned value?).foldOnce

end Formula

/-! ## Pure atoms -/

/-- The pure atoms of a formula and what remains when they are eliminated. -/
structure PureAtom where
  formula : String
  signs : Table Letter Signs
  simplified : Formula Letter

namespace PureAtom

/-- The atoms that occur with one polarity only, with that polarity. -/
def find (signs : Table Letter Signs) : Assignment Letter :=
  Table.ofList (signs.entries.filterMap fun (a, s) => s.only?.map fun b => (a, b))

/-- The pure atoms with their polarities. -/
def atoms (p : PureAtom) : Assignment Letter :=
  find p.signs

/-- The pure atoms of the formula among the inputs. -/
def analyse (inputs : Inputs) : Checked PureAtom := do
  Checked.note (startMessage "pure-atom" inputs.formulaText [])
  let f ← Checked.readFormula inputs.formula
  let signs := f.signs
  Checked.note ("Variable polarities: " ++
    Text.braced (signs.entries.map fun (a, s) => Text.entry a.name s.shown))
  let found := find signs
  Checked.note ("Pure atoms: " ++ found.shown)
  let simplified := f.eliminate found.get?
  Checked.note (resultMessage "pure-atom" simplified.text)
  return ⟨inputs.formulaText, signs, simplified⟩

end PureAtom

end Propositional
