import Propositional.Proofs.Evaluation
import Propositional.PureAtom

/-!
# Folding constants

Replacing atoms by constants and folding the constants away changes how a formula is written, not
what it says: its truth value is that of the formula under the valuation in which the replaced
atoms have the values of their constants.

* `Formula.eval_fold`, `Formula.eval_cancelled` — what folding makes of a connective and of a
  negation;
* `Formula.eval_foldAssigned`, `Formula.eval_foldOnce` — the two passes;
* `Formula.eval_eliminate` — both passes after each other;
* `Formula.mem_atoms_eliminate` — no atom is left that has a value, and none is new.
-/

namespace Propositional.Formula

variable {α : Type} {v : α → Bool} {value? : α → Option Bool} {a : α}

/-- A valuation in which some atoms have been given other values. -/
def settle (value? : α → Option Bool) (v : α → Bool) (a : α) : Bool :=
  (value? a).getD (v a)

/-! ## Truth values -/

/-- A connective with a constant on its left becomes a formula of the same value. -/
theorem eval_onLeft (op : Connective) (x : Bool) (f : Formula α) :
    (onLeft op x f).eval v = op.apply x (f.eval v) := by
  cases op <;> cases x <;> simp [onLeft, eval, Connective.apply]

/-- The same holds with the constant on its right. -/
theorem eval_onRight (op : Connective) (f : Formula α) (y : Bool) :
    (onRight op f y).eval v = op.apply (f.eval v) y := by
  cases op <;> cases y <;> simp [onRight, eval, Connective.apply]

/-- Folding a connective keeps its truth value. -/
theorem eval_fold (op : Connective) (l r : Formula α) :
    (fold op l r).eval v = op.apply (l.eval v) (r.eval v) := by
  unfold fold
  split
  · rfl
  · exact eval_onLeft op _ r
  · exact eval_onRight op l _
  · rfl

/-- A folded negation has the value of the negation. -/
theorem eval_negated (f : Formula α) : f.negated.eval v = !f.eval v := by
  unfold negated
  split
  · rfl
  · rfl

/-- Cancelling a double negation keeps the value. -/
theorem eval_cancelled (f : Formula α) : f.cancelled.eval v = !f.eval v := by
  unfold cancelled
  split
  · rfl
  · rw [eval, Bool.not_not]
  · rfl

/-- A formula with constants for some atoms says what it says when these atoms have their values. -/
theorem eval_foldAssigned (f : Formula α) :
    (f.foldAssigned value?).eval v = f.eval (settle value? v) := by
  induction f with
  | var a =>
    rw [foldAssigned, eval, settle]
    cases value? a <;> rfl
  | const b => rfl
  | neg f ih => rw [foldAssigned, eval_negated, ih, eval]
  | bin op l r ihl ihr => rw [foldAssigned, eval_fold, ihl, ihr, eval]

/-- A folding pass keeps the truth value. -/
theorem eval_foldOnce (f : Formula α) : f.foldOnce.eval v = f.eval v := by
  induction f with
  | var a => rfl
  | const b => rfl
  | neg f ih => rw [foldOnce, eval_cancelled, ih, eval]
  | bin op l r ihl ihr => rw [foldOnce, eval_fold, ihl, ihr, eval]

/-- What is left of a formula has, under every valuation, the value it has with the assigned
constants. -/
theorem eval_eliminate (f : Formula α) :
    (f.eliminate value?).eval v = f.eval (settle value? v) := by
  rw [eliminate, eval_foldOnce, eval_foldAssigned]

/-! ## Atoms -/

/-- What is left of a connective beside a constant has the atoms of the other side at most. -/
theorem atoms_onLeft_subset (op : Connective) (x : Bool) (f : Formula α) :
    (onLeft op x f).atoms ⊆ f.atoms := by
  cases op <;> cases x <;> simp [onLeft, atoms]

theorem atoms_onRight_subset (op : Connective) (f : Formula α) (y : Bool) :
    (onRight op f y).atoms ⊆ f.atoms := by
  cases op <;> cases y <;> simp [onRight, atoms]

/-- The atoms of a folded connective come from its sides. -/
theorem atoms_fold_subset (op : Connective) (l r : Formula α) :
    (fold op l r).atoms ⊆ l.atoms ++ r.atoms := by
  unfold fold
  split
  · exact List.nil_subset _
  · exact atoms_onLeft_subset op _ r
  · exact fun a ha => List.mem_append_left _ (atoms_onRight_subset op l _ ha)
  · exact List.Subset.refl _

theorem atoms_negated (f : Formula α) : f.negated.atoms = f.atoms := by
  unfold negated
  split <;> rfl

theorem atoms_cancelled (f : Formula α) : f.cancelled.atoms = f.atoms := by
  unfold cancelled
  split <;> rfl

/-- What is left of a formula holds only atoms of the formula that have no value. -/
theorem mem_atoms_foldAssigned {f : Formula α} (h : a ∈ (f.foldAssigned value?).atoms) :
    a ∈ f.atoms ∧ value? a = none := by
  induction f with
  | var b =>
    rw [foldAssigned] at h
    cases hb : value? b with
    | none =>
      rw [hb, atoms, List.mem_singleton] at h
      subst h
      exact ⟨List.mem_singleton_self a, hb⟩
    | some x =>
      rw [hb] at h
      cases h
  | const b => cases h
  | neg f ih =>
    rw [foldAssigned, atoms_negated] at h
    exact ih h
  | bin op l r ihl ihr =>
    -- folding brings in no atom, so it comes from one of the folded sides
    rcases List.mem_append.mp (atoms_fold_subset op _ _ h) with hl | hr
    · exact ⟨List.mem_append_left _ (ihl hl).1, (ihl hl).2⟩
    · exact ⟨List.mem_append_right _ (ihr hr).1, (ihr hr).2⟩

/-- The second pass brings in no atom. -/
theorem atoms_foldOnce_subset (f : Formula α) : f.foldOnce.atoms ⊆ f.atoms := by
  induction f with
  | var a => exact List.Subset.refl _
  | const b => exact List.Subset.refl _
  | neg f ih =>
    rw [foldOnce, atoms_cancelled]
    exact ih
  | bin op l r ihl ihr =>
    intro a ha
    rcases List.mem_append.mp (atoms_fold_subset op _ _ ha) with hl | hr
    · exact List.mem_append_left _ (ihl hl)
    · exact List.mem_append_right _ (ihr hr)

/-- What is left after elimination holds only atoms of the formula that have no value. -/
theorem mem_atoms_eliminate {f : Formula α} (h : a ∈ (f.eliminate value?).atoms) :
    a ∈ f.atoms ∧ value? a = none :=
  mem_atoms_foldAssigned (atoms_foldOnce_subset _ h)

end Propositional.Formula
