import Propositional.Formula

/-!
# Truth values of formulas

What a formula says when its atoms have values, and what remains of it when only some have.

* `Formula.eval`      — the truth value under a valuation of all atoms;
* `Formula.evaluate`  — the truth value under a partial valuation, or the first atom without value;
* `Formula.assign`    — the formula with the constants for the atoms that have values;
* `Formula.collect`   — the letters met in working off a stack of formulas;
* `Formula.letters`   — the letters of a formula in alphabetical order, each once.

Evaluation looks at both sides of a connective, the left one first, whatever the left one gives:
the atom that is reported is therefore the leftmost one without a value.
-/

namespace Propositional.Formula

variable {α : Type}

/-- The truth value of a formula under a valuation of all atoms. -/
def eval (v : α → Bool) : Formula α → Bool
  | .var a => v a
  | .const b => b
  | .neg f => !f.eval v
  | .bin op l r => op.apply (l.eval v) (r.eval v)

/-- The truth value of a formula under a partial valuation.  Without the value of some atom of the
formula there is none, and the leftmost such atom is reported. -/
def evaluate (value? : α → Option Bool) : Formula α → Except α Bool
  | .var a =>
    match value? a with
    | some b => .ok b
    | none => .error a
  | .const b => .ok b
  | .neg f =>
    match f.evaluate value? with
    | .ok b => .ok !b
    | .error a => .error a
  | .bin op l r =>
    match l.evaluate value? with
    | .error a => .error a
    | .ok x =>
      match r.evaluate value? with
      | .error a => .error a
      | .ok y => .ok (op.apply x y)

/-- The formula in which every atom with a value is replaced by the constant for it. -/
def assign (value? : α → Option Bool) : Formula α → Formula α
  | .var a =>
    match value? a with
    | some b => .const b
    | none => .var a
  | .const b => .const b
  | .neg f => .neg (f.assign value?)
  | .bin op l r => .bin op (l.assign value?) (r.assign value?)

/-! ## Letters -/

/-- The number of nodes of a formula's tree. -/
def size : Formula α → Nat
  | .var _ => 1
  | .const _ => 1
  | .neg f => f.size + 1
  | .bin _ l r => l.size + r.size + 1

/-- The number of nodes of all formulas on a stack. -/
def totalSize : List (Formula α) → Nat
  | [] => 0
  | f :: rest => f.size + totalSize rest

/-- A formula has one node more than its children, so a stack gets smaller when they replace it. -/
theorem totalSize_children_lt (f : Formula α) (rest : List (Formula α)) :
    totalSize (f.children.reverse ++ rest) < totalSize (f :: rest) := by
  cases f with
  | var a =>
    show totalSize rest < 1 + totalSize rest
    omega
  | const b =>
    show totalSize rest < 1 + totalSize rest
    omega
  | neg f =>
    show f.size + totalSize rest < f.size + 1 + totalSize rest
    omega
  | bin op l r =>
    show r.size + (l.size + totalSize rest) < l.size + r.size + 1 + totalSize rest
    omega

/-- A set of letters, as a list without repetition, with one more where the formula is a letter. -/
def meet (met : List Letter) : Formula Letter → List Letter
  | .var a => met.insert a
  | _ => met

/-- The letters met in working off a stack of formulas, beside those met before.  The top of the
stack, at the head of the list, is taken off, and its children are put on, the right one on top. -/
def collect (met : List Letter) : List (Formula Letter) → List Letter
  | [] => met
  | f :: rest => collect (meet met f) (f.children.reverse ++ rest)
termination_by stack => totalSize stack
decreasing_by exact totalSize_children_lt f rest

/-- The letters that occur in a formula, in alphabetical order and each once. -/
def letters (f : Formula Letter) : List Letter :=
  (collect [] [f]).mergeSort Letter.before

end Propositional.Formula
