import Propositional.Analysis
import Propositional.Report.Value

/-!
# Reports of results

The result of an analysis as a record for other programs.

* `Report.ofOutcome` — the report on an outcome; its fields stand in the order of printing;
* the other functions give the reports on the nine types of result and on their parts.
-/

namespace Propositional.Report

/-- A formula in a report: its text. -/
def formula (f : Formula Letter) : Value :=
  .text f.text

/-- An assignment as a record with one field for each letter. -/
def assignment (s : Assignment Letter) : Value :=
  .record (s.entries.map fun (a, b) => (a.name, .bool b))

/-- The report on a truth table. -/
def ofTruthTable (t : TruthTable) : Value :=
  .record
    [("formula", .text t.formula),
      ("variables", .texts (t.letters.map Letter.name)),
      ("rows", .list (t.rows.map fun row =>
        .record [("assignment", assignment row.assignment), ("result", .bool row.value)]))]

/-- The report on satisfiability. -/
def ofSatisfiability (s : Satisfiability) : Value :=
  .record
    [("formula", .text s.formula),
      ("status", .text s.status.name),
      ("model", s.model.elim .null assignment),
      ("true_count", .int s.trueCount),
      ("total", .int s.total)]

/-- The report on a subformula. -/
def ofSubformula (s : Subformula) : Value :=
  .record
    [("formula", .text s.formula),
      ("position", .text s.position),
      ("subformula", formula s.subformula),
      ("tree", formula s.tree),
      ("positions", .texts s.positions)]

/-- The report on a propagation. -/
def ofPropagation (p : Propagation) : Value :=
  .record
    [("formula", .text p.formula),
      ("steps", .list (p.run.steps.map fun step =>
        .record
          [("literal", .text step.literal.text),
            ("before_clauses", .texts (step.before.map Clause.text)),
            ("after_clauses", .texts (step.after.map Clause.text))])),
      ("final_clauses", .texts (p.run.clauses.map Clause.text)),
      ("literals", .texts (p.run.literals.map (·.text))),
      ("formatted_result", .text p.canonical),
      ("outcome", .int p.run.outcome.number)]

/-- The report on a statement under an interpretation. -/
def ofInterpretation (t : Interpretation) : Value :=
  .record
    [("formula", .text t.formula),
      ("interpretation", .text t.interpretation),
      ("statement", .text t.statement),
      ("assignment", assignment t.assignment),
      ("simplified_formula", formula t.simplified.result),
      ("statement_formula", .text t.body),
      ("statement_value", .bool? t.value),
      ("is_valid", .bool t.isValid)]

/-- A node of an annotated tree with the reports on its children. -/
def ofOccurrence (o : Occurrence Letter) (children : List Value) : Value :=
  .record
    [("node", formula o.node),
      ("position", .text o.position),
      ("polarity", .int o.sign),
      ("children", .list children)]

/-- The report on an annotated tree. -/
def ofAnnotated : Annotated Letter → Value
  | .leaf o => ofOccurrence o []
  | .one o t => ofOccurrence o [ofAnnotated t]
  | .two o l r => ofOccurrence o [ofAnnotated l, ofAnnotated r]

/-- The report on a polarity. -/
def ofPolarity (p : PolarityReport) : Value :=
  .record
    [("formula", .text p.formula),
      ("position", .text p.position),
      ("polarity", .text p.polarity.name),
      ("polarity_value", .int p.sign),
      ("subformula", formula p.subformula),
      ("tree", ofAnnotated p.tree),
      ("formatted_tree", .text p.tree.drawing)]

/-- The report on a determinism check. -/
def ofDeterminism (d : Determinism) : Value :=
  .record
    [("formula", .text d.formula),
      ("type", .text d.variant.typeName),
      ("is_deterministic", .bool d.verdict.isDeterministic),
      ("explanation", .text (Determinism.explain d.verdict d.variant)),
      ("statements", .texts (Determinism.statements d.variant)),
      ("correct_statement", .int (Determinism.correctStatement d.verdict d.variant)),
      ("determinism_result", .text d.verdict.name)]

/-- The report on pure atoms. -/
def ofPureAtom (p : PureAtom) : Value :=
  .record
    [("formula", .text p.formula),
      ("pure_atoms", .texts (p.atoms.keys.map Letter.name)),
      ("simplified_formula", formula p.simplified),
      ("polarities", .record (p.signs.entries.map fun (a, signs) =>
        (a.name, .list (signs.toList.map .bool))))]

/-- The report on Tseytin clauses. -/
def ofTseytin (t : Tseytin) : Value :=
  .record
    [("original_formula", .text t.formula),
      ("cnf_formula", .text t.conjunction),
      ("aux_variables", .list (t.encoding.definitions.map fun d =>
        .record [("variable", .text d.name), ("represents", formula d.formula)])),
      ("clauses", .texts (t.encoding.clauses.map fun c => "(" ++ Tseytin.clauseText c ++ ")")),
      ("formatted_result", .text (Tseytin.clausesText t.encoding.clauses))]

/-- The report on the outcome of an analysis. -/
def ofOutcome : Analysis.Outcome → Value
  | .truthTable result => ofTruthTable result
  | .satisfiability result => ofSatisfiability result
  | .subformula result => ofSubformula result
  | .unitPropagation result => ofPropagation result
  | .interpretation result => ofInterpretation result
  | .polarity result => ofPolarity result
  | .determinism result => ofDeterminism result
  | .pureAtom result => ofPureAtom result
  | .tseytin result => ofTseytin result

end Propositional.Report
