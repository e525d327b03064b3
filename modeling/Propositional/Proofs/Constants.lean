import Propositional.Formula.Constants

/-!
# Formulas without constants

Passes that fold constants away leave a constant or a formula without constants, possibly except
for constants right below a negation.

* `Formula.Clear`, `Formula.Reduced` — no constant but exempt ones, and what such passes leave;
* `Formula.reduced_onLeft`, `Formula.reduced_onRight` — a connective that has taken up a constant.
-/

namespace Propositional.Formula

variable {α : Type}

/-- No constant occurs in the formula; where negated constants are exempt, none but these. -/
def Clear (exempt : Bool) : Formula α → Prop
  | .var _ => True
  | .const _ => False
  | .neg (.const _) => exempt = true
  | .neg f => f.Clear exempt
  | .bin _ l r => l.Clear exempt ∧ r.Clear exempt

/-- A constant, or a formula in which no constant occurs that is not exempt. -/
def Reduced (exempt : Bool) (f : Formula α) : Prop :=
  (∃ b, f = .const b) ∨ f.Clear exempt

variable {exempt : Bool} {f l r : Formula α}

/-- The negation of a formula without constants is one. -/
theorem Clear.neg (h : f.Clear exempt) : (neg f).Clear exempt := by
  cases f with
  | const b => exact h.elim
  | var a => exact h
  | neg f => exact h
  | bin op l r => exact h

/-- The operand of a negation without constants is reduced. -/
theorem reduced_of_clear_neg (h : (neg f).Clear exempt) : f.Reduced exempt := by
  cases f with
  | const b => exact Or.inl ⟨b, rfl⟩
  | var a => exact Or.inr h
  | neg f => exact Or.inr h
  | bin op l r => exact Or.inr h

/-- Without exempt negations, the operand of a formula without constants is one as well. -/
theorem Clear.of_neg (h : (Formula.neg f).Clear false) : f.Clear false := by
  rcases reduced_of_clear_neg h with ⟨b, rfl⟩ | hclear
  · cases h
  · exact hclear

/-- A reduced formula that is no constant has no constant in it. -/
theorem Reduced.clear (h : f.Reduced exempt) (hconst : f.constant? = none) : f.Clear exempt := by
  rcases h with ⟨b, rfl⟩ | hclear
  · cases hconst
  · exact hclear

/-! ## Under connectives -/

/-- With a constant on the left, a negated constant of one kind only can be left. -/
theorem reduced_onLeft (op : Connective) (x : Bool) (hr : r.Reduced exempt)
    (h : op = .iff → x = false → (∃ b, r = .const b) → exempt = true) :
    (onLeft op x r).Reduced exempt := by
  have hnegated : op = .iff → x = false → (neg r).Reduced exempt := by
    intro hop hx
    rcases hr with hconst | hclear
    · obtain ⟨b, rfl⟩ := hconst
      exact Or.inr (h hop hx ⟨b, rfl⟩)
    · exact Or.inr hclear.neg
  cases op <;> cases x <;> simp only [onLeft] <;>
    first
    | exact hr
    | exact Or.inl ⟨_, rfl⟩
    | exact hnegated rfl rfl

theorem reduced_onRight (op : Connective) (y : Bool) (hl : l.Clear exempt) :
    (onRight op l y).Reduced exempt := by
  cases op <;> cases y <;> simp only [onRight] <;>
    first
    | exact Or.inr hl
    | exact Or.inl ⟨_, rfl⟩
    | exact Or.inr hl.neg

end Propositional.Formula
