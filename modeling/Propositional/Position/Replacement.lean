import Propositional.Position

/-!
# Replacement at a position

Putting another formula in the place of a subformula.

* `Formula.replaceAt`      — the formula with the subformula at a position replaced;
* `at?_append`             — going along two positions one after the other;
* `at?_replaceAt`          — what stands at the replaced position;
* `replaceAt_of_at?_none`  — a position outside the tree changes nothing.
-/

namespace Propositional.Formula

variable {α : Type}

/-- The formula in which `g` stands at a position; a position outside the tree changes nothing. -/
def replaceAt (g : Formula α) : Formula α → Position → Formula α
  | _, [] => g
  | .neg f, .first :: rest => .neg (replaceAt g f rest)
  | .bin op l r, .first :: rest => .bin op (replaceAt g l rest) r
  | .bin op l r, .second :: rest => .bin op l (replaceAt g r rest)
  | f, _ => f

/-- Going along `p` and then along `q` leads where `q` leads from the subformula at `p`. -/
theorem at?_append (f : Formula α) (p q : Position) :
    f.at? (p ++ q) = (f.at? p).bind fun g => g.at? q := by
  induction p generalizing f with
  | nil => rfl
  | cons s rest ih =>
    rw [List.cons_append, at?, at?]
    cases f.child? s with
    | none => rfl
    | some g => exact ih g

/-- At a position of the tree stands what was put there. -/
theorem at?_replaceAt {g f : Formula α} {p : Position} (h : (f.at? p).isSome = true) :
    (replaceAt g f p).at? p = some g := by
  induction p generalizing f with
  | nil =>
    rw [replaceAt]
    rfl
  | cons s rest ih =>
    -- The first step leads into the tree, so it picks a side, and the rest is below that side.
    cases f with
    | var a => cases h
    | const b => cases h
    | neg f =>
      cases s with
      | first =>
        rw [replaceAt]
        exact ih h
      | second => cases h
    | bin op l r =>
      cases s with
      | first =>
        rw [replaceAt]
        exact ih h
      | second =>
        rw [replaceAt]
        exact ih h

/-- A position outside the tree is no place to put anything. -/
theorem replaceAt_of_at?_none {g f : Formula α} {p : Position} (h : f.at? p = none) :
    replaceAt g f p = f := by
  induction p generalizing f with
  | nil => cases h
  | cons s rest ih =>
    cases f with
    | var a => cases s <;> rfl
    | const b => cases s <;> rfl
    | neg f =>
      cases s with
      | first => rw [replaceAt, ih h]
      | second => rfl
    | bin op l r =>
      cases s with
      | first => rw [replaceAt, ih h]
      | second => rw [replaceAt, ih h]

end Propositional.Formula
