import Propositional.Error
import Propositional.Formula
import Propositional.Signed

/-!
# Clauses

A clause is a row of literals, read as a disjunction; a row of clauses is read as a conjunction.

* `Literal`, `Clause`   — signed names with the mark `¬`, and rows of them;
* `Formula.chain`       — the operands of a chain of one connective, from left to right;
* `Clause.ofConjunct`, `Clause.allOfFormula` — reading a formula in clause form;
* `Clause.names`        — the names in a row of clauses in order of first occurrence;
* `Clause.canonical`    — the canonical rendering of a propagation result.
-/

namespace Propositional

/-- A literal: a name, or a negated name written with `¬`. -/
abbrev Literal : Type :=
  Signed negationGlyph

/-- A row of literals, of which one has to be true. -/
abbrev Clause : Type :=
  List Literal

namespace Literal

/-- The positive literal of a letter. -/
def ofLetter (a : Letter) : Literal :=
  Signed.read negationGlyph a.name

/-- The literal that a formula is, if it is one. -/
def ofFormula? : Formula Letter → Option Literal
  | .var a => some (ofLetter a)
  | .neg (.var a) => some (Signed.negative negationGlyph a.name)
  | _ => none

/-- A literal in the canonical rendering, where negation is a minus sign. -/
def canonical (l : Literal) : String :=
  if l.negated then "-" ++ l.name else l.name

end Literal

namespace Formula

variable {α : Type}

/-- The operands of a chain of one connective, from left to right and however they are grouped. -/
def chain (op : Connective) : Formula α → List (Formula α)
  | .bin c l r => if c = op then l.chain op ++ r.chain op else [.bin c l r]
  | f => [f]

end Formula

namespace Clause

/-- The literal that a member of a conjunct is. -/
def literalOf (conjunct member : Formula Letter) : Except Error Literal :=
  match Literal.ofFormula? member with
  | some l => .ok l
  | none => .error (.clause member.text conjunct.text)

/-- The clause that a disjunction of literals is. -/
def ofConjunct (conjunct : Formula Letter) : Except Error Clause :=
  (conjunct.chain .or).mapM (literalOf conjunct)

/-- The clauses of a conjunction of disjunctions of literals.  The leftmost member that is not a
literal is reported with its conjunct. -/
def allOfFormula (f : Formula Letter) : Except Error (List Clause) :=
  (f.chain .and).mapM ofConjunct

/-- The names in a row of clauses in order of first occurrence. -/
def names (clauses : List Clause) : List String :=
  (clauses.flatten.map (·.name)).eraseDups

/-- A clause as its literals with commas between them. -/
def text (c : Clause) : String :=
  ",".intercalate (c.map (·.text))

/-- A row of clauses as it is written in a message. -/
def shown (clauses : List Clause) : String :=
  "[" ++ "; ".intercalate (clauses.map text) ++ "]"

/-- Alphabetical order of names. -/
def nameBefore (l m : Literal) : Bool :=
  l.name ≤ m.name

/-- A clause in the canonical rendering: its literals in alphabetical order of their names, with
commas between them and in parentheses. -/
def canonicalClause (c : Clause) : String :=
  "(" ++ ",".intercalate ((c.mergeSort nameBefore).map (·.canonical)) ++ ")"

/-- The canonical rendering of a propagation result: the propagated literals as unit clauses, then
the clauses that remain, leaving out empty ones. -/
def canonical (clauses : List Clause) (literals : List Literal) : String :=
  ";".intercalate (literals.map (fun l => "(" ++ l.canonical ++ ")") ++
    (clauses.filter (fun c => !c.isEmpty)).map canonicalClause)

end Clause

end Propositional
