import Propositional.Proofs.Constants
import Propositional.Proofs.Folding

/-!
# What folding leaves

Two folding passes always come to an end.  A connective takes up a constant as soon as one of its
sides has become one, so already the first pass leaves a constant or no constant at all.  What it
can leave are double negations: `P→⊥` and `⊥↔P` are written as `¬P`, also where `P` is a negation.
The second pass has no constants to fold.  It cancels these negations, and writes none over another
one, because the operand of a negation has been gone over before the negation itself.

* `Formula.IsFolded`   — formulas without constants and without double negations;
* `Formula.reduced_foldAssigned`, `Formula.reduced_foldOnce` — what one pass leaves;
* `Formula.isFolded_foldOnce`, `Formula.foldOnce_of_isFolded` — what a pass makes of a formula
  without constants, and that a further one changes nothing;
* `Formula.folded_after_two_passes` — both together.
-/

namespace Propositional.Formula

variable {α : Type} {value? : α → Option Bool} {exempt : Bool} {f l r : Formula α}

/-- Formulas without constants in which no negation stands right above another one. -/
inductive IsFolded : Formula α → Prop
  | var (a : α) : IsFolded (.var a)
  | neg {f : Formula α} (hf : IsFolded f) (hne : ∀ g, f ≠ .neg g) : IsFolded (.neg f)
  | bin (op : Connective) {l r : Formula α} (hl : IsFolded l) (hr : IsFolded r) :
      IsFolded (.bin op l r)

/-- A folded formula is no constant. -/
theorem IsFolded.constant? (h : f.IsFolded) : f.constant? = none := by
  cases h <;> rfl

/-! ## One node -/

theorem fold_of_constant? (op : Connective) (hl : l.constant? = none) (hr : r.constant? = none) :
    fold op l r = .bin op l r := by
  unfold fold
  split
  · cases hl
  · cases hl
  · cases hr
  · rfl

/-- A connective takes up the constants that its sides are, and writes a negation only over a side
that is none. -/
theorem reduced_fold (op : Connective) (hl : l.Reduced exempt) (hr : r.Reduced exempt) :
    (fold op l r).Reduced exempt := by
  unfold fold
  split
  · exact Or.inl ⟨_, rfl⟩
  · next x hne =>
    refine reduced_onLeft op x hr ?_
    rintro - - ⟨b, hb⟩
    exact (hne b hb).elim
  · next y hne => exact reduced_onRight op y (hl.resolve_left (not_exists.mpr hne))
  · next hnel hner _ =>
    exact Or.inr ⟨hl.resolve_left (not_exists.mpr hnel), hr.resolve_left (not_exists.mpr hner)⟩

/-- Folding a negation keeps what is reduced so. -/
theorem reduced_negated (h : f.Reduced exempt) : f.negated.Reduced exempt := by
  rcases h with ⟨b, rfl⟩ | hclear
  · exact Or.inl ⟨!b, rfl⟩
  cases f with
  | const b => exact hclear.elim
  | var a => exact Or.inr hclear.neg
  | neg f => exact Or.inr hclear.neg
  | bin op l r => exact Or.inr hclear.neg

theorem reduced_cancelled (h : f.Reduced exempt) : f.cancelled.Reduced exempt := by
  rcases h with ⟨b, rfl⟩ | hclear
  · exact Or.inl ⟨!b, rfl⟩
  cases f with
  | const b => exact hclear.elim
  | var a => exact Or.inr hclear.neg
  | neg f => exact reduced_of_clear_neg hclear
  | bin op l r => exact Or.inr hclear.neg

theorem isFolded_cancelled (h : f.IsFolded) : f.cancelled.IsFolded := by
  cases h with
  | var a => exact .neg (.var a) (by simp)
  | neg hf _ => exact hf
  | bin op hl hr => exact .neg (.bin op hl hr) (by simp)

/-! ## Passes -/

/-- Replacing atoms by constants leaves a constant or no constant at all. -/
theorem reduced_foldAssigned (f : Formula α) : (f.foldAssigned value?).Reduced false := by
  induction f with
  | var a =>
    rw [foldAssigned]
    cases value? a with
    | none => exact Or.inr trivial
    | some b => exact Or.inl ⟨b, rfl⟩
  | const b => exact Or.inl ⟨b, rfl⟩
  | neg f ih => exact reduced_negated ih
  | bin op l r ihl ihr => exact reduced_fold op ihl ihr

/-- A folding pass leaves a constant or no constant at all. -/
theorem reduced_foldOnce (f : Formula α) : f.foldOnce.Reduced false := by
  induction f with
  | var a => exact Or.inr trivial
  | const b => exact Or.inl ⟨b, rfl⟩
  | neg f ih => exact reduced_cancelled ih
  | bin op l r ihl ihr => exact reduced_fold op ihl ihr

/-- Without constants to fold, a pass leaves no double negation. -/
theorem isFolded_foldOnce (h : f.Clear false) : f.foldOnce.IsFolded := by
  induction f with
  | var a => exact .var a
  | const b => exact h.elim
  | neg f ih => exact isFolded_cancelled (ih h.of_neg)
  | bin op l r ihl ihr =>
    -- both sides stay free of constants, so the connective stays as well
    have hl := ihl h.1
    have hr := ihr h.2
    rw [foldOnce, fold_of_constant? op hl.constant? hr.constant?]
    exact .bin op hl hr

/-- Where there is neither a constant nor a double negation, a pass changes nothing. -/
theorem foldOnce_of_isFolded (h : f.IsFolded) : f.foldOnce = f := by
  induction h with
  | var a => rfl
  | @neg f hf hne ih =>
    rw [foldOnce, ih]
    -- the operand is a normal form and no negation itself, so there is nothing to cancel
    cases hf with
    | var a => rfl
    | neg _ _ => exact absurd rfl (hne _)
    | bin op _ _ => rfl
  | bin op hl hr ihl ihr => rw [foldOnce, ihl, ihr, fold_of_constant? op hl.constant? hr.constant?]

/-- After a pass over what another one left, there is nothing more to do. -/
theorem folded_of_reduced (h : f.Reduced false) :
    ((∃ b, f.foldOnce = .const b) ∨ f.foldOnce.IsFolded) ∧ f.foldOnce.foldOnce = f.foldOnce := by
  rcases h with ⟨b, rfl⟩ | hclear
  · exact ⟨Or.inl ⟨b, rfl⟩, rfl⟩
  · have hfolded := isFolded_foldOnce hclear
    exact ⟨Or.inr hfolded, foldOnce_of_isFolded hfolded⟩

/-- **Two passes reach a normal form.**  Replacing atoms by constants and folding once more leaves a
constant, or a formula without constants, without double negations and without the replaced atoms;
one more pass changes nothing.  A pass over any formula leaves a constant or no constant at all,
and the third pass in a row never changes what the second one left. -/
theorem folded_after_two_passes (value? : α → Option Bool) (f : Formula α) :
    ((∃ b, f.eliminate value? = .const b) ∨
        (f.eliminate value?).IsFolded ∧ ∀ a ∈ (f.eliminate value?).atoms, value? a = none) ∧
      (f.eliminate value?).foldOnce = f.eliminate value? ∧
      f.foldOnce.Reduced false ∧
      f.foldOnce.foldOnce.foldOnce = f.foldOnce.foldOnce := by
  have hfirst : (f.foldAssigned value?).Reduced false := reduced_foldAssigned f
  obtain ⟨hleft, hfixed⟩ := folded_of_reduced hfirst
  refine ⟨?_, hfixed, reduced_foldOnce f, (folded_of_reduced (reduced_foldOnce f)).2⟩
  rcases hleft with hconst | hfolded
  · exact Or.inl hconst
  · exact Or.inr ⟨hfolded, fun a ha => (mem_atoms_eliminate ha).2⟩

end Propositional.Formula
