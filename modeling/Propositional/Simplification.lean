import Propositional.Formula.Constants

/-!
# Simplification to a normal form

Rules that replace a formula by an equivalent one, applied from the leaves up in passes until
nothing changes or a limit of passes is reached.

* `Formula.simplifyNot`, `Formula.simplifyBin` — the rules at a root whose operands are done;
* `Formula.simplifyRoot` — the rule for the root of a formula;
* `Formula.simplifyOnce` — one pass over a formula;
* `Simplification`       — the course of the passes;
* `Formula.simplify`     — passes up to a limit.

Negations are pushed down to the atoms, implications and biconditionals are replaced by conjunctions
and disjunctions, constants are absorbed, and equal or complementary sides are merged.
-/

namespace Propositional

namespace Formula

variable {α : Type} [DecidableEq α]

/-- Whether one of two formulas is the negation of the other. -/
def complementary (l r : Formula α) : Bool :=
  l = .neg r || r = .neg l

/-- The rule for a negation: a constant is evaluated, a double negation is cancelled, and any other
compound operand is replaced by its dual. -/
def simplifyNot : Formula α → Formula α
  | .const b => .const !b
  | .neg f => f
  | .bin .and l r => .bin .or (.neg l) (.neg r)
  | .bin .or l r => .bin .and (.neg l) (.neg r)
  | .bin .implies l r => .bin .and l (.neg r)
  | .bin .iff l r => .bin .or (.bin .and l (.neg r)) (.bin .and (.neg l) r)
  | .var a => .neg (.var a)

/-- The rules for a connective whose sides are no constants: sides that are equal or complementary
are merged, and what is left of implication and biconditional is written with the other
connectives. -/
def simplifySides (op : Connective) (l r : Formula α) : Formula α :=
  match op with
  | .and =>
    if l = r then l else if complementary l r then .const false else .bin .and l r
  | .or =>
    if l = r then l else if complementary l r then .const true else .bin .or l r
  | .implies =>
    if l = r then .const true else .bin .or (.neg l) r
  | .iff =>
    if l = r then .const true
    else if complementary l r then .const false
    else .bin .or (.bin .and l r) (.bin .and (.neg l) (.neg r))

/-- The rules for a connective.  A constant side is absorbed, the left one first. -/
def simplifyBin (op : Connective) (l r : Formula α) : Formula α :=
  match l.constant?, r.constant? with
  | some x, _ => onLeft op x r
  | none, some y => onRight op l y
  | none, none => simplifySides op l r

/-- The rule for the root of a formula; below the root nothing changes. -/
def simplifyRoot : Formula α → Formula α
  | .neg f => simplifyNot f
  | .bin op l r => simplifyBin op l r
  | f => f

/-- One pass from the leaves up. -/
def simplifyOnce : Formula α → Formula α
  | .var a => .var a
  | .const b => .const b
  | .neg f => simplifyNot f.simplifyOnce
  | .bin op l r => simplifyBin op l.simplifyOnce r.simplifyOnce

end Formula

/-- The course of simplifying a formula. -/
structure Simplification (α : Type) where
  passes : List (Formula α)
  -- Whether the last pass changed nothing.
  converged : Bool
  result : Formula α

/-- The number of passes. -/
def Simplification.iterations {α : Type} (s : Simplification α) : Nat :=
  s.passes.length

namespace Formula

variable {α : Type} [DecidableEq α]

/-- Passes until one changes nothing, at most as many as the limit says. -/
def simplifyWithin : Nat → Formula α → Simplification α
  | 0, f => ⟨[], false, f⟩
  | limit + 1, f =>
    let next := f.simplifyOnce
    if next = f then ⟨[next], true, f⟩
    else
      let rest := simplifyWithin limit next
      ⟨next :: rest.passes, rest.converged, rest.result⟩

/-- The number of passes after which simplification gives up, unless another one is asked for. -/
def defaultPassLimit : Int := 20

/-- Simplifies with a limit of passes; a negative limit allows none. -/
def simplify (limit : Int) (f : Formula α) : Simplification α :=
  simplifyWithin limit.toNat f

end Formula

end Propositional
