import Propositional.Clause
import Propositional.Log
import Propositional.Table

/-!
# Unit propagation

Propagation takes the leftmost unit clause, asserts its literal, and repeats: clauses that hold the
literal are dropped, and its complement is taken out of the others.

* `UnitPropagation.unit?`     — the literal of the leftmost unit clause;
* `UnitPropagation.survivors`, `UnitPropagation.empties` — the clauses left by asserting a literal,
  and whether one lost its last literal;
* `UnitPropagation.Run`       — the course of a propagation and its outcome;
* `UnitPropagation.run`       — propagation to its end.

A clause that loses its last literal ends a run that is to stop there, and is dropped by any other
run.  The unit clause itself is always dropped, so every step leaves fewer clauses.
-/

namespace Propositional.UnitPropagation

/-- How a propagation ends. -/
inductive Outcome where
  -- Every clause has been dropped.
  | empty
  -- A clause lost its last literal.
  | contradiction
  -- Clauses remain, none of them a unit clause.
  | stalled
deriving DecidableEq, Repr

namespace Outcome

/-- The name of an outcome. -/
def name : Outcome → String
  | .empty => "empty"
  | .contradiction => "contradiction"
  | .stalled => "stalled"

/-- The number of an outcome in reports. -/
def number : Outcome → Nat
  | .empty => 1
  | .contradiction => 2
  | .stalled => 3

end Outcome

/-! ## Asserting a literal -/

/-- The literal of a clause that has just one. -/
def single? : Clause → Option Literal
  | [l] => some l
  | _ => none

/-- The literal of the leftmost unit clause. -/
def unit? (clauses : List Clause) : Option Literal :=
  clauses.findSome? single?

/-- A clause without the complement of an asserted literal. -/
def without (l : Literal) (c : Clause) : Clause :=
  c.filter fun m => m ≠ l.complement

/-- The clauses that an asserted literal leaves open, each without its complement. -/
def reduced (l : Literal) (clauses : List Clause) : List Clause :=
  (clauses.filter fun c => l ∉ c).map (without l)

/-- The clauses that are left when a literal is asserted; emptied ones are dropped. -/
def survivors (l : Literal) (clauses : List Clause) : List Clause :=
  (reduced l clauses).filter fun c => !c.isEmpty

/-- Whether asserting a literal takes the last literal out of a clause. -/
def empties (l : Literal) (clauses : List Clause) : Bool :=
  (reduced l clauses).any fun c => c.isEmpty

/-- A unit literal comes from a unit clause. -/
theorem mem_of_unit? {clauses : List Clause} {l : Literal} (h : unit? clauses = some l) :
    [l] ∈ clauses := by
  obtain ⟨c, hc, hl⟩ := List.exists_of_findSome?_eq_some h
  unfold single? at hl
  split at hl
  · cases hl
    exact hc
  · cases hl

/-- Asserting a unit literal leaves fewer clauses. -/
theorem length_survivors_lt {clauses : List Clause} {l : Literal}
    (h : unit? clauses = some l) : (survivors l clauses).length < clauses.length := by
  have hmem := mem_of_unit? h
  have hle : (survivors l clauses).length ≤ (clauses.filter fun c => l ∉ c).length := by
    unfold survivors reduced
    exact Nat.le_trans (List.length_filter_le _ _) (Nat.le_of_eq (List.length_map _))
  have hlt : (clauses.filter fun c => l ∉ c).length < clauses.length := by
    rw [List.length_filter_lt_length_iff_exists]
    exact ⟨[l], hmem, by simp⟩
  exact Nat.lt_of_le_of_lt hle hlt

/-! ## Runs -/

/-- One step of a propagation: the asserted literal with the clauses before and after it. -/
structure Step where
  -- The literal of the leftmost unit clause.
  literal : Literal
  before : List Clause
  after : List Clause

/-- The course of a propagation. -/
structure Run where
  outcome : Outcome
  clauses : List Clause
  steps : List Step

namespace Run

/-- The propagated literals in order. -/
def literals (r : Run) : List Literal :=
  r.steps.map (·.literal)

/-- The truth values that the propagated literals give to their names. -/
def assignments (r : Run) : Table String Bool :=
  Table.ofList (r.literals.map fun l => (l.name, !l.negated))

/-- The message about a step. -/
def stepLine (s : Step) : String :=
  stepMessage s.literal.text (Clause.shown s.before) (Clause.shown s.after)

/-- The messages about a run: one for each step, and one more for a clause that lost its last
literal. -/
def messages (r : Run) : List String :=
  r.steps.map stepLine ++
    match r.outcome, r.literals.getLast? with
    | .contradiction, some l => ["    💥 propagating " ++ l.text ++ " produced an empty clause"]
    | _, _ => []

end Run

/-- Propagates until no unit clause is left, or no clause at all.  A run that is to stop at a
contradiction ends with the first step that takes the last literal out of a clause. -/
def run (stop : Bool) (clauses : List Clause) : Run :=
  match _h : unit? clauses with
  | none => ⟨.stalled, clauses, []⟩
  | some l =>
    let after := survivors l clauses
    let step : Step := ⟨l, clauses, after⟩
    if stop && empties l clauses then ⟨.contradiction, after, [step]⟩
    else if after.isEmpty then ⟨.empty, after, [step]⟩
    else
      let rest := run stop after
      ⟨rest.outcome, rest.clauses, step :: rest.steps⟩
termination_by clauses.length
decreasing_by exact length_survivors_lt ‹_›

end Propositional.UnitPropagation
