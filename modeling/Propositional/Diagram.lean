import Propositional.Polarity

/-!
# Diagrams of formula trees

The tree of a formula as a directed graph in the DOT language.  Every node shows its operator or
leaf, its position and its polarity, and is coloured by polarity; edges carry the number of the
step.

* `Diagram.Node`, `Diagram.Edge`, `Diagram` — the graph: each node followed by its edges;
* `Diagram.ofFormula` — the graph of a formula;
* `Diagram.source`    — its text in the DOT language.
-/

namespace Propositional

/-- A node of a diagram. -/
structure Diagram.Node where
  id : String
  label : String
  color : String
deriving DecidableEq, Repr

/-- An edge of a diagram. -/
structure Diagram.Edge where
  source : String
  target : String
  step : Step
deriving DecidableEq, Repr

/-- One line of a diagram. -/
inductive Diagram.Item where
  | node (node : Diagram.Node)
  | edge (edge : Diagram.Edge)
deriving DecidableEq, Repr

/-- A directed graph with a title. -/
structure Diagram where
  title : String
  items : List Diagram.Item
deriving DecidableEq, Repr

namespace Diagram

/-- The identifier for the node at a position. -/
def identifier (position : String) : String :=
  if position.isEmpty then "root"
  else "p_" ++ String.ofList (position.toList.map fun c => if c = '.' then '_' else c)

/-- The colour for a polarity. -/
def colorOf : Polarity → String
  | .positive => "palegreen"
  | .negative => "lightcoral"
  | .mixed => "lightgrey"

variable {α : Type} [Atom α]

/-- The text in the node of an occurrence: its symbol, and below it position and polarity. -/
def labelOf (o : Occurrence α) : String :=
  let position := if o.position.isEmpty then Position.rootLabel else o.position
  String.ofList [o.node.rootGlyph] ++ "\n" ++ position ++ " [" ++ o.polarity.name ++ "]"

/-- The node of an occurrence. -/
def nodeOf (o : Occurrence α) : Node :=
  ⟨identifier o.position, labelOf o, colorOf o.polarity⟩

/-- The edge from an occurrence to the root of a tree below it. -/
def edgeTo (o : Occurrence α) (step : Step) (below : Annotated α) : Edge :=
  ⟨identifier o.position, identifier below.here.position, step⟩

/-- The nodes and edges of an annotated tree: each node, its edges, and then the trees below. -/
def itemsOf : Annotated α → List Item
  | .leaf o => [.node (nodeOf o)]
  | .one o t => .node (nodeOf o) :: .edge (edgeTo o .first t) :: itemsOf t
  | .two o l r =>
    .node (nodeOf o) :: .edge (edgeTo o .first l) :: .edge (edgeTo o .second r) ::
      (itemsOf l ++ itemsOf r)

/-- The diagram of a formula. -/
def ofFormula (f : Formula α) : Diagram :=
  ⟨"Formula tree for " ++ f.text, itemsOf f.annotated⟩

/-- One line of a diagram in the DOT language. -/
def Item.line : Item → String
  | .node n =>
    "\t" ++ n.id ++ " [label=\x22" ++ n.label ++ "\x22 fillcolor=" ++ n.color ++ "]\n"
  | .edge e =>
    "\t" ++ e.source ++ " -> " ++ e.target ++ " [label=" ++ toString e.step.number ++ "]\n"

/-- A diagram in the DOT language. -/
def source (d : Diagram) : String :=
  "// " ++ d.title ++ "\ndigraph \x7b\n\tnodesep=0.4 rankdir=TB ranksep=0.5\n" ++
    "\tnode [fontsize=11 shape=circle style=filled]\n" ++
    String.join (d.items.map Item.line) ++ "\x7d\n"

end Diagram

end Propositional
