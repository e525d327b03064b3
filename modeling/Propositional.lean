import Propositional.Formula.Grammar
import Propositional.Main
import Propositional.Position.Replacement
import Propositional.Report.Shown
import Propositional.Formula.Joining
import Propositional.Formula.Latex
import Propositional.Proofs.Checked
import Propositional.Proofs.Evaluation
import Propositional.Proofs.Enumeration
import Propositional.Proofs.Propagation
import Propositional.Proofs.Propagation.Trace
import Propositional.Proofs.Propagation.Modes
import Propositional.Proofs.ClauseForm
import Propositional.Proofs.Determinism
import Propositional.Proofs.Constants
import Propositional.Proofs.Folding
import Propositional.Proofs.Folding.NormalForm
import Propositional.Proofs.Signs
import Propositional.Proofs.PureAtom
import Propositional.Proofs.Polarity
import Propositional.Proofs.Polarity.Occurrences
import Propositional.Proofs.Polarity.Inheritance
import Propositional.Proofs.Tseytin.Naming
import Propositional.Proofs.Tseytin.Definitions
import Propositional.Proofs.Tokens
import Propositional.Proofs.Tseytin.Extension
import Propositional.Proofs.Reading
import Propositional.Proofs.Grammar
import Propositional.Formula.Diagnosis
import Propositional.Proofs.Diagnosis
import Propositional.Proofs.Simplification
import Propositional.Proofs.Splicing
import Propositional.Proofs.Interpretation
import Propositional.Proofs.Confluence
import Propositional.Proofs.Refutation
import Propositional.Proofs.Positions
import Propositional.Proofs.Counting
import Propositional.Proofs.ClauseText
import Propositional.Proofs.Tseytin.Sufficiency
import Propositional.Proofs.FixedPoint
import Propositional.Proofs.Simplification.Convergence
import Propositional.Proofs.Simplification.NormalForm
import Propositional.Proofs.Tseytin.Order
import Propositional.Proofs.Tseytin.LiteralOrder
import Propositional.Proofs.Tseytin.Stratification
import Propositional.Proofs.ClauseForm.Fragments
import Propositional.Proofs.KnownValues
import Propositional.Proofs.Failures
import Propositional.Proofs.CommandLine
import Propositional.Proofs.Positions.Composition
import Propositional.Proofs.Evaluation.MissingValues
import Propositional.Proofs.Tokens.Exactness
import Propositional.Proofs.Assertions.Matching
import Propositional.Proofs.Latex
import Propositional.Proofs.Diagram
import Propositional.Proofs.Logging
import Propositional.Proofs.Determinism.Stalling
import Propositional.Proofs.Enumeration.Multiplicity
import Propositional.Proofs.Tseytin.Deduplication
import Propositional.Proofs.Polarity.Drawing
