import Mathlib.Logic.Function.Iterate
import Propositional.Proofs.Folding
import Propositional.Simplification

/-!
# Simplification keeps the meaning

Every rule, every pass and every course of passes gives a formula with the same truth value, whether
or not the passes came to an end.  No pass brings in an atom, and what a pass leaves is built from
negations, conjunctions and disjunctions only.

* `Formula.eval_assign`, `Formula.mem_atoms_assign` — replacing atoms by constants;
* `Formula.eval_simplifyOnce`, `Formula.atoms_simplifyOnce_subset` — one pass;
* `Formula.simplify_result` — the result of simplification as an iterate of the pass;
* `Formula.eval_simplify`   — the whole course;
* `Formula.StandsFor`, `Formula.standsFor_simplify` — meaning and atoms together, for the course, a
  pass and the rules;
* `Formula.IsBasic`, `Formula.isBasic_simplifyOnce` — implications and biconditionals are gone after
  one pass.
-/

namespace Propositional.Formula

variable {α : Type} {v : α → Bool}

/-! ## Assigning values -/

/-- With constants for some atoms, a formula says what it says when these atoms have their
values. -/
theorem eval_assign (value? : α → Option Bool) (f : Formula α) :
    (f.assign value?).eval v = f.eval (settle value? v) := by
  induction f with
  | var a =>
    rw [assign, eval, settle]
    cases value? a <;> rfl
  | const b => rfl
  | neg f ih => rw [assign, eval, ih, eval]
  | bin op l r ihl ihr => rw [assign, eval, ihl, ihr, eval]

/-- The atoms without a value stay, and the others go. -/
theorem mem_atoms_assign {value? : α → Option Bool} {f : Formula α} {a : α} :
    a ∈ (f.assign value?).atoms ↔ a ∈ f.atoms ∧ value? a = none := by
  induction f with
  | var b =>
    rw [assign]
    cases hb : value? b with
    | none =>
      simp only [atoms, List.mem_singleton]
      exact ⟨fun h => ⟨h, h ▸ hb⟩, fun h => h.1⟩
    | some x =>
      simp only [atoms, List.mem_singleton, List.not_mem_nil, false_iff, not_and]
      rintro rfl hnone
      rw [hb] at hnone
      cases hnone
  | const b => simp [assign, atoms]
  | neg f ih => exact ih
  | bin op l r ihl ihr =>
    rw [assign, atoms, atoms, List.mem_append, List.mem_append, ihl, ihr, or_and_right]

/-! ## The rules -/

/-- The rules for negations keep the truth value. -/
theorem eval_simplifyNot (f : Formula α) : (simplifyNot f).eval v = !f.eval v := by
  unfold simplifyNot
  split
  · rfl
  · simp [eval]
  · simp [eval, Connective.apply]
  · simp [eval, Connective.apply]
  · simp [eval, Connective.apply]
  · next l r =>
    simp only [eval, Connective.apply]
    cases l.eval v <;> cases r.eval v <;> rfl
  · rfl

variable [DecidableEq α]

/-- Of two complementary formulas, one is true and the other false. -/
theorem eval_of_complementary {l r : Formula α} (h : complementary l r = true) :
    l.eval v = !r.eval v := by
  rw [complementary, Bool.or_eq_true, decide_eq_true_eq, decide_eq_true_eq] at h
  rcases h with rfl | rfl
  · rfl
  · simp [eval]

/-- So do the rules that compare the two sides of a connective. -/
theorem eval_simplifySides (op : Connective) (l r : Formula α) :
    (simplifySides op l r).eval v = op.apply (l.eval v) (r.eval v) := by
  unfold simplifySides
  cases op with
  | and =>
    dsimp only
    split
    · next heq => simp [heq, Connective.apply]
    split
    · next hcompl => simp [eval, Connective.apply, eval_of_complementary hcompl]
    · rfl
  | or =>
    dsimp only
    split
    · next heq => simp [heq, Connective.apply]
    split
    · next hcompl => simp [eval, Connective.apply, eval_of_complementary hcompl]
    · rfl
  | implies =>
    dsimp only
    split
    · next heq => simp [eval, heq, Connective.apply]
    · rfl
  | iff =>
    dsimp only
    split
    · next heq => simp [eval, heq, Connective.apply]
    split
    · next hcompl => simp [eval, Connective.apply, eval_of_complementary hcompl]
    · -- both true or both false
      simp only [eval, Connective.apply]
      cases l.eval v <;> cases r.eval v <;> rfl

omit [DecidableEq α] in
theorem eq_const_of_constant? {f : Formula α} {b : Bool} (h : f.constant? = some b) :
    f = .const b := by
  unfold constant? at h
  split at h
  · cases h
    rfl
  · cases h

/-- Whatever the two sides are, a simplified connective has the value of the connective. -/
theorem eval_simplifyBin (op : Connective) (l r : Formula α) :
    (simplifyBin op l r).eval v = op.apply (l.eval v) (r.eval v) := by
  unfold simplifyBin
  split
  · next x hl =>
    rw [eval_onLeft, eq_const_of_constant? hl]
    rfl
  · next y _ hr =>
    rw [eval_onRight, eq_const_of_constant? hr]
    rfl
  · exact eval_simplifySides op l r

/-! ## Passes -/

/-- One pass keeps the truth value, under every valuation. -/
theorem eval_simplifyOnce (f : Formula α) : f.simplifyOnce.eval v = f.eval v := by
  induction f with
  | var a => rfl
  | const b => rfl
  | neg f ih => rw [simplifyOnce, eval_simplifyNot, ih, eval]
  | bin op l r ihl ihr => rw [simplifyOnce, eval_simplifyBin, ihl, ihr, eval]

/-- The result of simplification is what as many passes as the limit allows lead to: once a pass
changes nothing, neither do the others. -/
theorem simplifyWithin_result (limit : Nat) (f : Formula α) :
    (simplifyWithin limit f).result = simplifyOnce^[limit] f := by
  induction limit generalizing f with
  | zero => rfl
  | succ limit ih =>
    rw [simplifyWithin, Function.iterate_succ_apply]
    split
    · next hfixed => rw [hfixed, Function.iterate_fixed hfixed]
    · exact ih f.simplifyOnce

/-- The result is that of as many passes as the limit allows, since a pass behind the last change
changes nothing. -/
theorem simplify_result (limit : Int) (f : Formula α) :
    (f.simplify limit).result = simplifyOnce^[limit.toNat] f :=
  simplifyWithin_result limit.toNat f

theorem eval_iterate_simplifyOnce (n : Nat) (f : Formula α) :
    (simplifyOnce^[n] f).eval v = f.eval v := by
  induction n with
  | zero => rfl
  | succ n ih => rw [Function.iterate_succ_apply', eval_simplifyOnce, ih]

/-- Simplification keeps the truth value, also when it gave up. -/
theorem eval_simplify (limit : Int) (f : Formula α) :
    (f.simplify limit).result.eval v = f.eval v := by
  rw [simplify_result, eval_iterate_simplifyOnce]

/-! ## Atoms -/

omit [DecidableEq α] in
theorem atoms_simplifyNot_subset (f : Formula α) : (simplifyNot f).atoms ⊆ f.atoms := by
  unfold simplifyNot
  split <;> simp [atoms]

theorem atoms_simplifySides_subset (op : Connective) (l r : Formula α) :
    (simplifySides op l r).atoms ⊆ l.atoms ++ r.atoms := by
  unfold simplifySides
  cases op <;> dsimp only <;> split_ifs <;> simp [atoms]

/-- A rule at the root brings in no atom. -/
theorem atoms_simplifyBin_subset (op : Connective) (l r : Formula α) :
    (simplifyBin op l r).atoms ⊆ l.atoms ++ r.atoms := by
  unfold simplifyBin
  split
  · exact fun a ha => List.mem_append_right _ (atoms_onLeft_subset op _ r ha)
  · exact fun a ha => List.mem_append_left _ (atoms_onRight_subset op l _ ha)
  · exact atoms_simplifySides_subset op l r

/-- A pass brings in no atom. -/
theorem atoms_simplifyOnce_subset (f : Formula α) : f.simplifyOnce.atoms ⊆ f.atoms := by
  induction f with
  | var a => exact List.Subset.refl _
  | const b => exact List.Subset.refl _
  | neg f ih => exact fun a ha => ih (atoms_simplifyNot_subset _ ha)
  | bin op l r ihl ihr =>
    intro a ha
    rcases List.mem_append.mp (atoms_simplifyBin_subset op _ _ ha) with hl | hr
    · exact List.mem_append_left _ (ihl hl)
    · exact List.mem_append_right _ (ihr hr)

/-- Whatever the limit, simplification brings in no atom. -/
theorem atoms_simplify_subset (limit : Int) (f : Formula α) :
    (f.simplify limit).result.atoms ⊆ f.atoms := by
  rw [simplify_result]
  generalize limit.toNat = n
  induction n with
  | zero => exact List.Subset.refl _
  | succ n ih =>
    rw [Function.iterate_succ_apply']
    exact fun a ha => ih (atoms_simplifyOnce_subset _ ha)

/-! ## One formula in place of another -/

/-- The first formula can stand for the second: it has no further atoms, and whatever values the
atoms of the second have, evaluation gives both of them one and the same truth value. -/
structure StandsFor (g f : Formula α) : Prop where
  atoms_subset : g.atoms ⊆ f.atoms
  evaluate_eq : ∀ value? : α → Option Bool, (∀ a ∈ f.atoms, (value? a).isSome = true) →
    ∃ b, f.evaluate value? = .ok b ∧ g.evaluate value? = .ok b

omit [DecidableEq α] in
/-- Without new atoms, a formula with the same truth values stands for the other one. -/
theorem standsFor_of_eval {g f : Formula α} (hatoms : g.atoms ⊆ f.atoms)
    (heval : ∀ v, g.eval v = f.eval v) : StandsFor g f := by
  refine ⟨hatoms, fun value? hvalues => ⟨_, evaluate_of_isSome hvalues, ?_⟩⟩
  rw [evaluate_of_isSome fun a ha => hvalues a (hatoms ha), heval]

/-- **Simplification keeps the meaning, and so does each of its parts.**  The result can stand for
the formula under every limit, also where the passes gave up; so can what a single pass leaves, and
so can what the rules for a negation and for a connective make of any operands. -/
theorem standsFor_simplify (f : Formula α) (limit : Int) :
    StandsFor (f.simplify limit).result f ∧
      StandsFor f.simplifyOnce f ∧
      (∀ g : Formula α, StandsFor (simplifyNot g) (.neg g)) ∧
      ∀ (op : Connective) (l r : Formula α), StandsFor (simplifyBin op l r) (.bin op l r) :=
  ⟨standsFor_of_eval (atoms_simplify_subset limit f) fun _ => eval_simplify limit f,
    standsFor_of_eval (atoms_simplifyOnce_subset f) fun _ => eval_simplifyOnce f,
    fun g => standsFor_of_eval (atoms_simplifyNot_subset g) fun _ => eval_simplifyNot g,
    fun op l r => standsFor_of_eval (atoms_simplifyBin_subset op l r) fun _ =>
      eval_simplifyBin op l r⟩

/-- A limit of one pass leaves `¬¬p∧¬q` of `¬(p→q)` and gives up; where `p` alone is true, both
are true. -/
theorem standsFor_simplify_given_up :
    let p : Letter := ⟨'p', rfl⟩
    let q : Letter := ⟨'q', rfl⟩
    let f : Formula Letter := .neg (.bin .implies (.var p) (.var q))
    (f.simplify 1).converged = false ∧
      (f.simplify 1).result = .bin .and (.neg (.neg (.var p))) (.neg (.var q)) ∧
      f.evaluate (fun a => some (a = p)) = .ok true ∧
      (f.simplify 1).result.evaluate (fun a => some (a = p)) = .ok true := by
  intro p q f
  obtain ⟨b, hf, hresult⟩ :=
    (standsFor_simplify f 1).1.evaluate_eq (fun a => some (a = p)) fun _ _ => rfl
  have hvalue : f.evaluate (fun a => some (a = p)) = .ok true := rfl
  cases hvalue.symm.trans hf
  exact ⟨rfl, rfl, hf, hresult⟩

/-! ## The connectives that are left -/

/-- Formulas built with negation, conjunction and disjunction. -/
def IsBasic : Formula α → Prop
  | .var _ => True
  | .const _ => True
  | .neg f => f.IsBasic
  | .bin .and l r => l.IsBasic ∧ r.IsBasic
  | .bin .or l r => l.IsBasic ∧ r.IsBasic
  | .bin _ _ _ => False

omit [DecidableEq α] in
/-- The rules for negations leave the basic connectives among themselves. -/
theorem isBasic_simplifyNot {f : Formula α} (h : f.IsBasic) : (simplifyNot f).IsBasic := by
  unfold simplifyNot
  split <;> simp_all [IsBasic]

omit [DecidableEq α] in
theorem isBasic_onLeft (op : Connective) (x : Bool) {f : Formula α} (h : f.IsBasic) :
    (onLeft op x f).IsBasic := by
  cases op <;> cases x <;> simp_all [onLeft, IsBasic]

omit [DecidableEq α] in
theorem isBasic_onRight (op : Connective) (y : Bool) {f : Formula α} (h : f.IsBasic) :
    (onRight op f y).IsBasic := by
  cases op <;> cases y <;> simp_all [onRight, IsBasic]

/-- So do the rules that compare two sides. -/
theorem isBasic_simplifySides (op : Connective) {l r : Formula α} (hl : l.IsBasic)
    (hr : r.IsBasic) : (simplifySides op l r).IsBasic := by
  unfold simplifySides
  cases op <;> dsimp only <;> split_ifs <;> simp_all [IsBasic]

/-- What a pass leaves is built with negation, conjunction and disjunction. -/
theorem isBasic_simplifyOnce (f : Formula α) : f.simplifyOnce.IsBasic := by
  induction f with
  | var a => trivial
  | const b => trivial
  | neg f ih => exact isBasic_simplifyNot ih
  | bin op l r ihl ihr =>
    rw [simplifyOnce, simplifyBin]
    split
    · exact isBasic_onLeft op _ ihr
    · exact isBasic_onRight op _ ihl
    · exact isBasic_simplifySides op ihl ihr

end Propositional.Formula
