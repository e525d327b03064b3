import Propositional.Formula

/-!
# Constants under connectives

What a connective makes of a side that is a constant.

* `Formula.onLeft`, `Formula.onRight` — a connective with a constant on one side;
* `Formula.negated`  — a negation, evaluated when the operand is a constant;
* `Formula.fold`     — a connective, evaluated as far as constant sides allow.
-/

namespace Propositional.Formula

variable {α : Type}

/-- A connective with a constant on its left side. -/
def onLeft (op : Connective) (x : Bool) (f : Formula α) : Formula α :=
  match op, x with
  | .and, true => f
  | .and, false => .const false
  | .or, true => .const true
  | .or, false => f
  | .implies, true => f
  | .implies, false => .const true
  | .iff, true => f
  | .iff, false => .neg f

/-- A connective with a constant on its right side. -/
def onRight (op : Connective) (f : Formula α) (y : Bool) : Formula α :=
  match op, y with
  | .and, true => f
  | .and, false => .const false
  | .or, true => .const true
  | .or, false => f
  | .implies, true => .const true
  | .implies, false => .neg f
  | .iff, true => f
  | .iff, false => .neg f

/-- The negation of a formula; the negation of a constant is the other constant. -/
def negated : Formula α → Formula α
  | .const b => .const !b
  | f => .neg f

/-- Two formulas joined by a connective, evaluated as far as constants on its sides allow. -/
def fold (op : Connective) (l r : Formula α) : Formula α :=
  match l, r with
  | .const x, .const y => .const (op.apply x y)
  | .const x, f => onLeft op x f
  | f, .const y => onRight op f y
  | f, g => .bin op f g

end Propositional.Formula
