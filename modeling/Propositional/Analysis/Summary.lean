import Propositional.Analysis

/-!
# Summaries of results

The result of an analysis in a few lines for a reader.

* `Summary.ofOutcome` — the lines for an outcome;
* the other functions give the lines for the nine types of result.
-/

namespace Propositional.Summary

/-- A truth value as a letter. -/
def mark (b : Bool) : String :=
  if b then "T" else "F"

/-- One line of a truth table: the values, a bar, and what belongs to the whole. -/
def tableLine (cells : List String) (last : String) : String :=
  " ".intercalate (cells ++ ["│", last])

/-- The value that an assignment has for a letter, as a letter; without one, an error. -/
def cellOf (s : Assignment Letter) (a : Letter) : Except Error String :=
  match s.get? a with
  | some value => .ok (mark value)
  | none => .error (.noEntry a)

/-- The line for one assignment of a truth table. -/
def rowLine (letters : List Letter) (row : TruthTable.Row) : Except Error String := do
  let cells ← letters.mapM (cellOf row.assignment)
  return tableLine cells (mark row.value)

/-- A truth table: a heading, then one line for each assignment. -/
def ofTruthTable (t : TruthTable) : Except Error (List String) := do
  let rows ← t.rows.mapM (rowLine t.letters)
  return tableLine (t.letters.map Letter.name) t.formula :: rows

/-- Satisfiability: the status with the counts, and the first model if there is one. -/
def ofSatisfiability (s : Satisfiability) : List String :=
  ("Status: " ++ s.status.name ++ s!" ({s.trueCount}/{s.total})") ::
    match s.model with
    | none => []
    | some model =>
      ["First model: " ++
        ", ".intercalate (model.entries.map fun (a, b) => a.name ++ "=" ++ mark b)]

/-- A subformula with its position. -/
def ofSubformula (s : Subformula) : List String :=
  ["Subformula at " ++ s.position ++ ": " ++ s.subformula.text]

/-- A propagation: one line for each step, and the result. -/
def ofPropagation (p : Propagation) : List String :=
  let clauses (cs : List Clause) := " ; ".intercalate (cs.map Clause.text)
  (p.run.steps.map fun step =>
    "Propagate " ++ step.literal.text ++ ": " ++ clauses step.before ++ " → " ++
      clauses step.after) ++
    ["Result: " ++ p.canonical]

/-- A statement under an interpretation. -/
def ofInterpretation (t : Interpretation) : List String :=
  ["Formula under " ++ t.interpretation ++ ": " ++ t.simplified.result.text,
    "Statement body: " ++ t.body,
    "Statement " ++ (if t.isValid then "holds" else "does not hold")]

/-- A polarity with the drawing of the tree. -/
def ofPolarity (p : PolarityReport) : List String :=
  ["Polarity of " ++ p.subformula.text ++ ": " ++ p.polarity.name, p.tree.drawing]

/-- A determinism check: the explanation, and the statements with a mark at the right one. -/
def ofDeterminism (d : Determinism) : List String :=
  let correct := Determinism.correctStatement d.verdict d.variant
  Determinism.explain d.verdict d.variant ::
    (Determinism.statements d.variant).zipIdx.map fun (statement, place) =>
      (if place + 1 = correct then "✅" else "  ") ++ s!" {place + 1}. " ++ statement

/-- The pure atoms and the formula without them. -/
def ofPureAtom (p : PureAtom) : List String :=
  let names := ", ".intercalate (p.atoms.keys.map Letter.name)
  ["Pure atoms: " ++ (if names.isEmpty then "(none)" else names),
    "Simplified: " ++ p.simplified.text]

/-- The definitions and the Tseytin clauses. -/
def ofTseytin (t : Tseytin) : List String :=
  (t.encoding.definitions.map fun d => d.name ++ " := " ++ d.formula.text) ++
    ["Result: " ++ Tseytin.clausesText t.encoding.clauses]

/-- The lines for the outcome of an analysis.  Only those of a truth table need a look-up. -/
def ofOutcome : Analysis.Outcome → Except Error (List String)
  | .truthTable result => ofTruthTable result
  | .satisfiability result => .ok (ofSatisfiability result)
  | .subformula result => .ok (ofSubformula result)
  | .unitPropagation result => .ok (ofPropagation result)
  | .interpretation result => .ok (ofInterpretation result)
  | .polarity result => .ok (ofPolarity result)
  | .determinism result => .ok (ofDeterminism result)
  | .pureAtom result => .ok (ofPureAtom result)
  | .tseytin result => .ok (ofTseytin result)

end Propositional.Summary
