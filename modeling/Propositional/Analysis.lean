import Propositional.Determinism
import Propositional.Interpretation
import Propositional.Polarity.Analysis
import Propositional.PureAtom
import Propositional.Satisfiability
import Propositional.Subformula
import Propositional.TruthTable
import Propositional.Tseytin
import Propositional.UnitPropagation.Analysis

/-!
# Analyses

The ten analyses under one roof: they are chosen by kind and take the same inputs.

* `Analysis.Kind`    — the kinds, and the names under which they are asked for;
* `Analysis.Outcome` — the result of an analysis of any kind;
* `Analysis.run`     — runs the analysis of a kind on inputs.
-/

namespace Propositional.Analysis

/-- The kinds of analysis. -/
inductive Kind where
  | truthTable
  | satisfiability
  | subformula
  | unitPropagation
  | interpretation
  | polarity
  | cnfDeterminism
  | pureAtom
  | generalDeterminism
  | tseytin
deriving DecidableEq, Repr

namespace Kind

/-- All kinds in the order in which they are listed. -/
def all : List Kind :=
  [.truthTable, .satisfiability, .subformula, .unitPropagation, .interpretation, .polarity,
    .cnfDeterminism, .pureAtom, .generalDeterminism, .tseytin]

/-- The name of a kind. -/
def name : Kind → String
  | .truthTable => "truth-table"
  | .satisfiability => "satisfiability"
  | .subformula => "subformula"
  | .unitPropagation => "unit-propagation"
  | .interpretation => "interpretation"
  | .polarity => "polarity"
  | .cnfDeterminism => "cnf-determinism"
  | .pureAtom => "pure-atom"
  | .generalDeterminism => "general-determinism"
  | .tseytin => "tseytin"

/-- The kind with the given name. -/
def ofName? (name : String) : Option Kind :=
  all.find? fun k => k.name = name

/-- The kind with the given name, or the error that there is none. -/
def ofName (name : Option String) : Except Error Kind :=
  match name.bind ofName? with
  | some k => .ok k
  | none => .error (.unknownKind name)

end Kind

/-- The result of an analysis. -/
inductive Outcome where
  | truthTable (result : TruthTable)
  | satisfiability (result : Satisfiability)
  | subformula (result : Subformula)
  | unitPropagation (result : Propagation)
  | interpretation (result : Interpretation)
  | polarity (result : PolarityReport)
  | determinism (result : Determinism)
  | pureAtom (result : PureAtom)
  | tseytin (result : Tseytin)

/-- Runs the analysis of a kind. -/
def dispatch (kind : Kind) (inputs : Inputs) : Checked Outcome :=
  match kind with
  | .truthTable => .truthTable <$> TruthTable.analyse inputs
  | .satisfiability => .satisfiability <$> Satisfiability.analyse inputs
  | .subformula => .subformula <$> Subformula.analyse inputs
  | .unitPropagation => .unitPropagation <$> Propagation.analyse inputs
  | .interpretation => .interpretation <$> Interpretation.analyse inputs
  | .polarity => .polarity <$> PolarityReport.analyse inputs
  | .cnfDeterminism => .determinism <$> Determinism.analyse inputs
  | .pureAtom => .pureAtom <$> PureAtom.analyse inputs
  | .generalDeterminism => .determinism <$> Determinism.analyseAs .general inputs
  | .tseytin => .tseytin <$> Tseytin.analyse inputs

/-- Runs the analysis of a kind, with a note about the choice. -/
def run (kind : Kind) (inputs : Inputs) : Checked Outcome := do
  Checked.note ("Dispatching " ++ kind.name ++ " calculation")
  dispatch kind inputs

end Propositional.Analysis
