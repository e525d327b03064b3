import Propositional.Analysis.Inputs
import Propositional.Checked
import Propositional.Signed
import Propositional.Table
import Propositional.Text.DecimalDigit

/-!
# Tseytin clauses

A formula as clauses over its letters and over names for its compound subformulas.  Every binary
subformula and every negation of a non-leaf gets a name `n0`, `n1`, …; equal subformulas share one.
A name is defined by clauses in one direction only, in both directions for `↔` and `¬`, and the
last clause asserts the name of the whole formula.

* `Tseytin.Literal`, `Tseytin.Clause` — signed names with the mark `-`, and rows of them;
* `Tseytin.namingOrder` — the subformulas that get a name, in the order of naming;
* `Tseytin.define`      — the clauses that define a name;
* `Tseytin.sortClause`, `Tseytin.deduplicate` — the canonical order of literals, and clauses
  without repetition;
* `Tseytin.readKey`, `Tseytin.sortAll` — sort keys and sorted clauses for literals of any spelling,
  whose numbers may be too long to be read;
* `Tseytin.transform`   — the clauses of a formula with the names that occur in them;
* `Tseytin`, `Tseytin.analyse` — the same for a formula text.
-/

namespace Propositional

namespace Tseytin

/-- A literal: a name, or a negated name written with a minus sign. -/
abbrev Literal : Type :=
  Signed '-'

/-- A row of literals, of which one has to be true. -/
abbrev Clause : Type :=
  List Literal

/-- The names that stand for subformulas. -/
abbrev Names : Type :=
  Table (Formula Letter) String

/-- The literal that a text writes. -/
def literal (text : String) : Literal :=
  Signed.read '-' text

/-- The name that writes a constant. -/
def constantName (b : Bool) : String :=
  String.ofList [truthGlyph b]

/-- The opposite literal: the constants are each other's opposites, any other literal loses or gets
a minus sign. -/
def opposite (l : Literal) : Literal :=
  if l.text = constantName true then literal (constantName false)
  else if l.text = constantName false then literal (constantName true)
  else l.complement

/-! ## Naming -/

/-- Whether a subformula gets a name: it is binary, or the negation of something compound. -/
def needsName : Formula Letter → Bool
  | .bin _ _ _ => true
  | .neg f => !f.isLeaf
  | _ => false

/-- All subformulas, each node after its children and the right child before the left one. -/
def rightToLeft : Formula Letter → List (Formula Letter)
  | .var a => [.var a]
  | .const b => [.const b]
  | .neg f => rightToLeft f ++ [.neg f]
  | .bin op l r => rightToLeft r ++ (rightToLeft l ++ [.bin op l r])

/-- The subformulas that get a name, each once, in the order of naming. -/
def namingOrder (f : Formula Letter) : List (Formula Letter) :=
  (rightToLeft f).eraseDups.filter needsName

/-- The name with the given number. -/
def auxiliary (number : Nat) : String :=
  "n" ++ toString number

/-- The names for the subformulas of a formula. -/
def names (f : Formula Letter) : Names :=
  Table.ofList ((namingOrder f).zipIdx.map fun (g, number) => (g, auxiliary number))

/-! ## Defining clauses -/

/-- The literal that stands for a formula: its name if it has one, else the literal that it is. -/
def literalFor (names : Names) (f : Formula Letter) : Except Error Literal :=
  match names.get? f with
  | some name => .ok (literal name)
  | none =>
    match f with
    | .var a => .ok (literal a.name)
    | .const b => .ok (literal (constantName b))
    | .neg g =>
      match literalFor names g with
      | .ok l => .ok (opposite l)
      | .error e => .error e
    | .bin op l r => .error (.unnamed (Formula.bin op l r).text)

/-- The clauses for a name that stands for two literals joined by a connective. -/
def defineBinary (name : Literal) (op : Connective) (l r : Literal) : List Clause :=
  match op with
  | .and => [[opposite l, opposite r, name]]
  | .or => [[l, r, opposite name]]
  | .implies => [[r, opposite l, opposite name]]
  | .iff =>
    [[opposite l, r, opposite name], [l, opposite r, opposite name], [l, r, name],
      [opposite l, opposite r, name]]

/-- The clauses that define a name for a formula.  A leaf needs none. -/
def define (names : Names) (name : Literal) (f : Formula Letter) : Except Error (List Clause) :=
  match f with
  | .neg g =>
    match literalFor names g with
    | .ok l => .ok [[opposite name, opposite l], [name, l]]
    | .error e => .error e
  | .bin op l r =>
    match literalFor names l, literalFor names r with
    | .ok x, .ok y => .ok (defineBinary name op x y)
    | .error e, _ => .error e
    | _, .error e => .error e
  | _ => .ok []

/-! ## Order of literals -/

/-- What stands behind the `n` of a name; a newline at the very end does not count. -/
def afterMark (name : String) : List Char :=
  match name.toList with
  | 'n' :: rest => if rest.getLast? = some '\n' then rest.dropLast else rest
  | _ => []

/-- The number of an auxiliary name: `n` and decimal digits of any script. -/
def auxiliaryNumber? (name : String) : Option Nat :=
  Text.decimal? (afterMark name)

/-- What decides the place of a literal in its clause. -/
structure SortKey where
  -- Plain names come before auxiliary ones.
  group : Nat
  -- Auxiliary names come in the order of their numbers.
  number : Nat
  -- Plain names come in alphabetical order.
  base : String
  -- A literal comes before its negation.
  negated : Bool
deriving DecidableEq, Repr

/-- The sort key of a literal. -/
def sortKey (l : Literal) : SortKey :=
  match auxiliaryNumber? l.name with
  | some number => ⟨1, number, "", l.negated⟩
  | none => ⟨0, 0, l.name, l.negated⟩

/-- The sort key of a literal, unless its number has too many digits to be read. -/
def readKey (l : Literal) : Except Error SortKey :=
  let digits := (afterMark l.name).length
  if Text.digitLimit < digits && (auxiliaryNumber? l.name).isSome then .error (.longNumber digits)
  else .ok (sortKey l)

/-- The order of sort keys: group, number, base, and then the sign. -/
def SortKey.before (a b : SortKey) : Bool :=
  if a.group ≠ b.group then a.group < b.group
  else if a.number ≠ b.number then a.number < b.number
  else if a.base ≠ b.base then a.base < b.base
  else !a.negated || b.negated

/-- A clause with its literals in canonical order; literals with equal keys keep their order. -/
def sortClause (c : Clause) : Clause :=
  c.mergeSort fun l m => (sortKey l).before (sortKey m)

/-- The clauses with their literals in canonical order, unless a number in them cannot be read; of
several such numbers the first one counts. -/
def sortAll (clauses : List Clause) : Except Error (List Clause) :=
  (clauses.flatten.mapM readKey).map fun _ => clauses.map sortClause

/-- A clause as its literals with commas between them. -/
def clauseText (c : Clause) : String :=
  ",".intercalate (c.map (·.text))

/-- The sorted clauses without repetition; a clause stands where it came first. -/
def deduplicate (clauses : List Clause) : List Clause :=
  (clauses.map sortClause).eraseDupsBy fun c d => clauseText c == clauseText d

/-- A row of clauses in parentheses with semicolons between them. -/
def clausesText (clauses : List Clause) : String :=
  ";".intercalate (clauses.map fun c => "(" ++ clauseText c ++ ")")

/-! ## The clauses of a formula -/

/-- A name with the subformula that it stands for and the clauses that define it. -/
structure Definition where
  name : String
  formula : Formula Letter
  clauses : List Clause

/-- The message about a definition. -/
def Definition.message (d : Definition) : String :=
  "    " ++ d.name ++ " := " ++ d.formula.text ++ " → " ++ clausesText d.clauses

/-- The definition of one of the named subformulas of a formula. -/
def definitionOf (names : Names) (g : Formula Letter) (number : Nat) : Except Error Definition :=
  match define names (literal (auxiliary number)) g with
  | .ok clauses => .ok ⟨auxiliary number, g, clauses⟩
  | .error e => .error e

/-- The definitions of all names of a formula, in the order of naming. -/
def definitions (f : Formula Letter) : Except Error (List Definition) :=
  let known := names f
  (namingOrder f).zipIdx.mapM fun (g, number) => definitionOf known g number

/-- The clauses of a formula together with the definitions that they come from. -/
structure Encoding where
  definitions : List Definition
  -- The clauses, sorted and without repetition; the last one asserts the formula.
  clauses : List Clause

/-- The clauses of a formula. -/
def transform (f : Formula Letter) : Except Error Encoding :=
  match definitions f, literalFor (names f) f with
  | .ok ds, .ok l => .ok ⟨ds, deduplicate (ds.flatMap (·.clauses) ++ [[l]])⟩
  | .error e, _ => .error e
  | _, .error e => .error e

end Tseytin

/-- The Tseytin clauses of a formula text. -/
structure Tseytin where
  formula : String
  encoding : Tseytin.Encoding

namespace Tseytin

/-- The clauses as a formula in conjunctive form. -/
def conjunction (t : Tseytin) : String :=
  "∧".intercalate (t.encoding.clauses.map fun c =>
    "(" ++ "∨".intercalate (c.map (·.text)) ++ ")")

/-- The Tseytin clauses of the formula among the inputs. -/
def analyse (inputs : Inputs) : Checked Tseytin := do
  Checked.note (startMessage "tseytin" inputs.formulaText [])
  let f ← Checked.readFormula inputs.formula
  let encoding ← Checked.ofExcept (transform f)
  Checked.notes (encoding.definitions.map Definition.message)
  Checked.note (resultMessage "tseytin" (clausesText encoding.clauses))
  return ⟨inputs.formulaText, encoding⟩

end Tseytin

end Propositional
