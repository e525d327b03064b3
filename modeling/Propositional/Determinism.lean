import Propositional.Analysis.Inputs
import Propositional.Checked
import Propositional.UnitPropagation

/-!
# Deciding by unit propagation alone

Whether unit propagation, run to its end, settles the satisfiability of a formula in clause form,
and how the answer is put to a reader.

* `Determinism.Verdict`    — what propagation finds out;
* `Determinism.classify`   — the verdict on a row of clauses, read as sets of literals;
* `Determinism.Variant`    — the three ways of wording the question;
* `Determinism.statements`, `Determinism.correctStatement` — the statements offered to the reader
  and the number of the right one;
* `Determinism`, `Determinism.analyse` — verdict and wording for a formula text.
-/

namespace Propositional

/-- What unit propagation finds out about satisfiability. -/
inductive Determinism.Verdict where
  -- There is no unit clause to begin with.
  | noUnitClauses
  -- Propagation uses up all clauses.
  | satisfiable
  -- Propagation empties a clause.
  | unsatisfiable
  -- Propagation stops with clauses left open.
  | undetermined
deriving DecidableEq, Repr

namespace Determinism

namespace Verdict

/-- The name of a verdict. -/
def name : Verdict → String
  | .noUnitClauses => "noUnitClauses"
  | .satisfiable => "satisfiable"
  | .unsatisfiable => "unsatisfiable"
  | .undetermined => "undetermined"

/-- Whether the verdict settles satisfiability. -/
def isDeterministic : Verdict → Bool
  | .satisfiable => true
  | .unsatisfiable => true
  | _ => false

end Verdict

/-- What the question is asked about: a formula, this set of formulas, or a set of formulas S. -/
inductive Variant where
  | cnf
  -- This set of formulas.
  | formulaSet
  -- A set of formulas that is named `S`.
  | general
deriving DecidableEq, Repr

namespace Variant

/-- All variants in the order in which they are shown. -/
def all : List Variant :=
  [.cnf, .formulaSet, .general]

/-- The name of a variant. -/
def name : Variant → String
  | .cnf => "cnf"
  | .formulaSet => "formula-set"
  | .general => "general"

/-- The variant with the given name. -/
def ofName (name : String) : Except Error Variant :=
  match all.find? fun v => v.name = name with
  | some v => .ok v
  | none => .error (.unknownVariant (some name))

/-- The variant for a type of check; without a type, the one about a formula. -/
def ofType (checkType : Input) : Except Error Variant :=
  let given := checkType.content
  if given = "" ∨ given = "cnf" then .ok .cnf
  else if given = "general" then .ok .formulaSet
  else .error (.unknownType given)

/-- The type of check under which a variant is reported. -/
def typeName : Variant → String
  | .cnf => "cnf"
  | .formulaSet => "general"
  | .general => "general"

/-- What a variant calls the clauses. -/
def subject : Variant → String
  | .cnf => "the formula"
  | .formulaSet => "this set of formulas"
  | .general => "the set of formulas"

end Variant

/-! ## The verdict -/

/-- The clauses as sets: every literal once, at its first place. -/
def distinct (clauses : List Clause) : List Clause :=
  clauses.map List.eraseDups

/-- Whether every name in the clauses has a value. -/
def allAssigned (clauses : List Clause) (r : UnitPropagation.Run) : Bool :=
  (Clause.names clauses).all r.assignments.has

/-- The verdict that the course of a propagation amounts to. -/
def verdictOf (clauses : List Clause) (r : UnitPropagation.Run) : Verdict :=
  match r.outcome with
  | .empty => .satisfiable
  | .contradiction => .unsatisfiable
  | .stalled => if allAssigned clauses r then .satisfiable else .undetermined

/-- The propagation on which a verdict rests; there is none when there is no unit clause. -/
def decidingRun (clauses : List Clause) : Option UnitPropagation.Run :=
  if (distinct clauses).any fun c => c.length = 1 then
    some (UnitPropagation.run true (distinct clauses))
  else none

/-- The verdict on a row of clauses. -/
def classify (clauses : List Clause) : Verdict :=
  match decidingRun clauses with
  | none => .noUnitClauses
  | some r => verdictOf (distinct clauses) r

/-! ## The wording -/

/-- The verdict in words. -/
def explain (verdict : Verdict) (variant : Variant) : String :=
  match verdict with
  | .noUnitClauses => "Unit propagation cannot be used within " ++ variant.subject
  | .undetermined =>
    "Unit propagation can be used but cannot determine satisfiability of " ++ variant.subject
  | _ => "Unit propagation determines that " ++ variant.subject ++ " is " ++ verdict.name

/-- The statements of which one is to be chosen. -/
def statements : Variant → List String
  | .cnf =>
    ["Unit propagation cannot be used within the formula",
      "Using only unit propagation exhaustively can determine that the formula is satisfiable",
      "Unit propagation can be used within the formula, but the satisfiability cannot be " ++
        "determined using only unit propagation",
      "Using only unit propagation exhaustively can determine that the formula is unsatisfiable"]
  | .formulaSet =>
    ["Satisfiability can be determined using only unit propagation",
      "Satisfiability cannot be determined using only unit propagation",
      "Unit propagation cannot be used within the formula"]
  | .general =>
    ["Satisfiability of S can be determined using only unit propagation",
      "Satisfiability of S cannot be determined using only unit propagation",
      "Unit propagation cannot be used within S"]

/-- The number of the statement that fits a verdict, counted from one. -/
def correctStatement (verdict : Verdict) (variant : Variant) : Nat :=
  match variant, verdict with
  | .cnf, .noUnitClauses => 1
  | .cnf, .satisfiable => 2
  | .cnf, .undetermined => 3
  | .cnf, .unsatisfiable => 4
  | _, .satisfiable => 1
  | _, .unsatisfiable => 1
  | _, .undetermined => 2
  | _, .noUnitClauses => 3

end Determinism

/-- The verdict on a formula in clause form. -/
structure Determinism where
  formula : String
  variant : Determinism.Variant
  verdict : Determinism.Verdict

namespace Determinism

/-- The name under which a variant is logged. -/
def analysisName (variant : Variant) : String :=
  variant.name ++ "-determinism"

/-- The determinism check in a given variant. -/
def analyseAs (variant : Variant) (inputs : Inputs) : Checked Determinism := do
  Checked.note (startMessage (analysisName variant) inputs.formulaText [])
  let f ← Checked.readFormula inputs.formula
  let clauses ← Checked.ofExcept (Clause.allOfFormula f)
  Checked.notes ((decidingRun clauses).elim [] UnitPropagation.Run.messages)
  let verdict := classify clauses
  Checked.note (resultMessage (analysisName variant) verdict.name)
  return ⟨inputs.formulaText, variant, verdict⟩

/-- The determinism check in the variant for the type among the inputs. -/
def analyse (inputs : Inputs) : Checked Determinism := do
  let variant ← Checked.ofExcept (Variant.ofType inputs.checkType)
  analyseAs variant inputs

end Determinism

end Propositional
