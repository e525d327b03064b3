import Propositional.Error
import Propositional.Position

/-!
# Polarity of occurrences

An occurrence of a subformula is positive or negative by the number of times that the way to it
passes into a negation or into the left side of an implication.

* `Polarity`          — positive, negative, or mixed;
* `Formula.flips`     — whether a step down changes the sign;
* `Formula.signAt?`   — the sign of the occurrence at a position;
* `Annotated`         — a formula's tree in which every node carries its position and its sign;
* `Annotated.drawing` — the tree as lines with branches.
-/

namespace Propositional

/-- The polarity of an occurrence. -/
inductive Polarity where
  | positive
  | negative
  | mixed
deriving DecidableEq, Repr

namespace Polarity

/-- The polarity that a sign stands for; signs other than plus and minus one are mixed. -/
def ofSign (sign : Int) : Polarity :=
  if sign = 1 then .positive else if sign = -1 then .negative else .mixed

/-- The name of a polarity. -/
def name : Polarity → String
  | .positive => "positive"
  | .negative => "negative"
  | .mixed => "mixed"

end Polarity

namespace Formula

variable {α : Type}

/-- Whether a step down from the root of a formula changes the sign: into a negation, and into the
left side of an implication. -/
def flips : Formula α → Step → Bool
  | .neg _, _ => true
  | .bin .implies _ _, .first => true
  | _, _ => false

/-- The sign below a node of the given sign. -/
def signBelow (f : Formula α) (step : Step) (sign : Int) : Int :=
  if f.flips step then -sign else sign

/-- The sign of the occurrence at a position: plus one at the root, changed by every step that
flips. -/
def signAt? (f : Formula α) : Position → Option Int
  | [] => some 1
  | s :: rest =>
    match f.child? s with
    | none => none
    | some g => (g.signAt? rest).map (f.signBelow s)

/-- The sign at the position that a text writes; without a text, at the root. -/
def signAtText (f : Formula α) (text : Option String) : Except Error Int :=
  match (Position.read (text.getD "")).bind f.signAt? with
  | some sign => .ok sign
  | none => .error (.position (text.getD "None"))

end Formula

/-! ## Annotated trees -/

/-- A node of a formula's tree with its position and its sign. -/
structure Occurrence (α : Type) where
  node : Formula α
  position : String
  sign : Int
deriving DecidableEq

/-- The polarity of an occurrence. -/
def Occurrence.polarity {α : Type} (o : Occurrence α) : Polarity :=
  .ofSign o.sign

/-- A formula's tree with the occurrence at every node. -/
inductive Annotated (α : Type) where
  | leaf (here : Occurrence α)
  | one (here : Occurrence α) (child : Annotated α)
  | two (here : Occurrence α) (left right : Annotated α)
deriving DecidableEq

namespace Formula

variable {α : Type}

/-- The annotated tree of a formula whose root has the given sign and position. -/
def annotate (sign : Int) (position : String) : Formula α → Annotated α
  | .var a => .leaf ⟨.var a, position, sign⟩
  | .const b => .leaf ⟨.const b, position, sign⟩
  | .neg f =>
    .one ⟨.neg f, position, sign⟩
      (f.annotate ((neg f).signBelow .first sign) (Position.below position .first))
  | .bin op l r =>
    .two ⟨.bin op l r, position, sign⟩
      (l.annotate ((bin op l r).signBelow .first sign) (Position.below position .first))
      (r.annotate ((bin op l r).signBelow .second sign) (Position.below position .second))

/-- The annotated tree of a whole formula: the root is positive. -/
def annotated (f : Formula α) : Annotated α :=
  f.annotate 1 ""

end Formula

namespace Annotated

variable {α : Type}

/-- The occurrence at the root. -/
def here : Annotated α → Occurrence α
  | .leaf o => o
  | .one o _ => o
  | .two o _ _ => o

/-- The trees below the root, from left to right. -/
def children : Annotated α → List (Annotated α)
  | .leaf _ => []
  | .one _ t => [t]
  | .two _ l r => [l, r]

/-- The tree one step below the root. -/
def child? : Annotated α → Step → Option (Annotated α)
  | .one _ t, .first => some t
  | .two _ l _, .first => some l
  | .two _ _ r, .second => some r
  | _, _ => none

/-- The tree at a position. -/
def at? (t : Annotated α) : Position → Option (Annotated α)
  | [] => some t
  | s :: rest =>
    match t.child? s with
    | some u => u.at? rest
    | none => none

/-- All occurrences, each node before its children and the left child before the right one. -/
def nodes : Annotated α → List (Occurrence α)
  | .leaf o => [o]
  | .one o t => o :: t.nodes
  | .two o l r => o :: (l.nodes ++ r.nodes)

/-! ## Drawing -/

variable [Atom α]

/-- An occurrence as it is drawn: its formula and its polarity. -/
def label (o : Occurrence α) : String :=
  o.node.text ++ " [" ++ o.polarity.name ++ "]"

/-- The branch in front of a node that is or is not its parent's last child. -/
def branch (isLast : Bool) : String :=
  if isLast then "└── " else "├── "

/-- The cell below such a branch, in front of everything under the node. -/
def cell (isLast : Bool) : String :=
  if isLast then "    " else "│   "

/-- The lines of a tree that hangs below another node, after the cells of its ancestors. -/
def drawBelow (indent : String) (isLast : Bool) : Annotated α → List String
  | .leaf o => [indent ++ branch isLast ++ o.position ++ ": " ++ label o]
  | .one o t =>
    (indent ++ branch isLast ++ o.position ++ ": " ++ label o) ::
      t.drawBelow (indent ++ cell isLast) true
  | .two o l r =>
    (indent ++ branch isLast ++ o.position ++ ": " ++ label o) ::
      (l.drawBelow (indent ++ cell isLast) false ++ r.drawBelow (indent ++ cell isLast) true)

/-- The lines of a whole tree: the root without a branch, everything else below it. -/
def drawLines : Annotated α → List String
  | .leaf o => [label o]
  | .one o t => label o :: t.drawBelow "" true
  | .two o l r => label o :: (l.drawBelow "" false ++ r.drawBelow "" true)

/-- The drawing of a tree, one node on a line. -/
def drawing (t : Annotated α) : String :=
  "\n".intercalate t.drawLines

end Annotated

end Propositional
