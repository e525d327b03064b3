import Mathlib.Dynamics.PeriodicPts.Defs
import Mathlib.Tactic.Linarith
import Propositional.Proofs.Simplification

/-!
# The passes come to an end

A pass can enlarge a formula: it moves a negation to both sides of a connective, and it writes a
biconditional with each side twice.  The size is therefore no measure of progress.  The weight is
one: a negation weighs the square of what it negates, so that moving it one level down makes the
formula lighter.  Once the first pass has removed implications and biconditionals, every further
pass makes the formula lighter or leaves it as it is.

* `Formula.weight`, `Formula.NoHeavier` — the measure, and what a pass does to it;
* `Formula.noHeavier_simplifyOnce` — one pass over negations, conjunctions and disjunctions;
* `Formula.StopsAt`, `Formula.exists_stopsAt` — the first pass that changes nothing;
* `Formula.simplify_converges` — the whole course, for every limit.
-/

namespace Propositional.Formula

variable {α : Type}

/-! ## Weight -/

/-- The weight of a formula. -/
def weight : Formula α → Nat
  | .var _ => 2
  | .const _ => 2
  -- No weight is below two, so the square of a sum is more than the sum of the squares.
  | .neg f => f.weight * f.weight
  | .bin _ l r => l.weight + r.weight + 1

/-- Nothing weighs less than a constant. -/
theorem two_le_weight (f : Formula α) : 2 ≤ f.weight := by
  induction f with
  | var a => exact Nat.le_refl 2
  | const b => exact Nat.le_refl 2
  | neg f ih => exact Nat.le_trans ih (Nat.le_mul_self f.weight)
  | bin op l r ihl ihr =>
    show 2 ≤ l.weight + r.weight + 1
    omega

/-- A negation weighs more than its operand. -/
theorem weight_lt_weight_neg (f : Formula α) : f.weight < (neg f).weight := by
  show f.weight < f.weight * f.weight
  exact Nat.lt_mul_self_iff.mpr (two_le_weight f)

/-- Nothing was changed, or the formula became lighter. -/
def NoHeavier (g f : Formula α) : Prop :=
  g = f ∨ g.weight < f.weight

namespace NoHeavier

variable {f f' g h l l' r r' : Formula α}

theorem refl (f : Formula α) : NoHeavier f f :=
  Or.inl rfl

/-- A formula that is not heavier does not weigh more. -/
theorem weight_le (hgf : NoHeavier g f) : g.weight ≤ f.weight := by
  rcases hgf with rfl | hlt
  · exact Nat.le_refl _
  · exact Nat.le_of_lt hlt

theorem trans (hhg : NoHeavier h g) (hgf : NoHeavier g f) : NoHeavier h f := by
  rcases hhg with rfl | hlt
  · exact hgf
  · exact Or.inr (Nat.lt_of_lt_of_le hlt hgf.weight_le)

theorem neg (hf : NoHeavier f' f) : NoHeavier (.neg f') (.neg f) := by
  rcases hf with rfl | hlt
  · exact refl _
  · exact Or.inr (Nat.mul_self_lt_mul_self hlt)

theorem bin (op : Connective) (hl : NoHeavier l' l) (hr : NoHeavier r' r) :
    NoHeavier (.bin op l' r') (.bin op l r) := by
  have hlw := hl.weight_le
  have hrw := hr.weight_le
  rcases hl with rfl | hlt
  · rcases hr with rfl | hlt
    · exact refl _
    · exact Or.inr (show l'.weight + r'.weight + 1 < l'.weight + r.weight + 1 by omega)
  · exact Or.inr (show l'.weight + r'.weight + 1 < l.weight + r.weight + 1 by omega)

end NoHeavier

/-! ## What a pass does to the weight -/

/-- A negation that is moved below a connective becomes lighter. -/
theorem weight_negated_sides_lt (op dual : Connective) (l r : Formula α) :
    (bin dual (neg l) (neg r)).weight < (neg (bin op l r)).weight := by
  have hl := two_le_weight l
  have hr := two_le_weight r
  show l.weight * l.weight + r.weight * r.weight + 1 <
    (l.weight + r.weight + 1) * (l.weight + r.weight + 1)
  nlinarith

/-- The rules for a negation keep it, or make the formula lighter. -/
theorem noHeavier_simplifyNot {f : Formula α} (hf : f.IsBasic) :
    NoHeavier (simplifyNot f) (.neg f) := by
  cases f with
  | var a => exact .refl _
  | const b => exact Or.inr (weight_lt_weight_neg (.const b))
  | neg f => exact Or.inr ((weight_lt_weight_neg f).trans (weight_lt_weight_neg f.neg))
  | bin op l r =>
    cases op with
    | and => exact Or.inr (weight_negated_sides_lt .and .or l r)
    | or => exact Or.inr (weight_negated_sides_lt .or .and l r)
    | implies => exact hf.elim
    | iff => exact hf.elim

/-- A constant or one of the sides in place of a connective is lighter than the connective. -/
theorem weight_lt_weight_bin (op : Connective) (l r : Formula α) {g : Formula α}
    (hg : g = l ∨ g = r ∨ ∃ b, g = .const b) : g.weight < (bin op l r).weight := by
  have hl := two_le_weight l
  have hr := two_le_weight r
  show g.weight < l.weight + r.weight + 1
  rcases hg with rfl | rfl | ⟨b, rfl⟩
  · omega
  · omega
  · show 2 < l.weight + r.weight + 1
    omega

/-- A basic connective is a conjunction or a disjunction of basic formulas. -/
theorem IsBasic.sides {op : Connective} {l r : Formula α} (h : (bin op l r).IsBasic) :
    (op = .and ∨ op = .or) ∧ l.IsBasic ∧ r.IsBasic := by
  cases op with
  | and => exact ⟨Or.inl rfl, h⟩
  | or => exact ⟨Or.inr rfl, h⟩
  | implies => exact h.elim
  | iff => exact h.elim

variable [DecidableEq α]

/-- The rules for conjunction and disjunction keep the connective, or leave a side or a constant. -/
theorem simplifyBin_cases {op : Connective} (hop : op = .and ∨ op = .or) (l r : Formula α) :
    simplifyBin op l r = .bin op l r ∨
      simplifyBin op l r = l ∨ simplifyBin op l r = r ∨ ∃ b, simplifyBin op l r = .const b := by
  unfold simplifyBin
  split
  -- a constant on the left, a constant on the right, no constant
  · next x _ => rcases hop with rfl | rfl <;> cases x <;> simp [onLeft]
  · next y _ _ => rcases hop with rfl | rfl <;> cases y <;> simp [onRight]
  · unfold simplifySides
    rcases hop with rfl | rfl <;> dsimp only <;> split_ifs <;> simp

/-- No rule for a conjunction or disjunction makes it heavier. -/
theorem noHeavier_simplifyBin {op : Connective} (hop : op = .and ∨ op = .or) (l r : Formula α) :
    NoHeavier (simplifyBin op l r) (.bin op l r) := by
  rcases simplifyBin_cases hop l r with hkept | hless
  · exact Or.inl hkept
  · exact Or.inr (weight_lt_weight_bin op l r hless)

/-- Without implications and biconditionals, a pass changes nothing or makes the formula lighter. -/
theorem noHeavier_simplifyOnce {f : Formula α} (hf : f.IsBasic) : NoHeavier f.simplifyOnce f := by
  induction f with
  | var a => exact .refl _
  | const b => exact .refl _
  | neg f ih => exact (noHeavier_simplifyNot (isBasic_simplifyOnce f)).trans (ih hf).neg
  | bin op l r ihl ihr =>
    obtain ⟨hop, hl, hr⟩ := hf.sides
    exact (noHeavier_simplifyBin hop l.simplifyOnce r.simplifyOnce).trans
      (.bin op (ihl hl) (ihr hr))

/-! ## The last pass -/

/-- That many passes, and no fewer, lead to a formula which a further pass does not change. -/
structure StopsAt (f : Formula α) (n : Nat) : Prop where
  fixed : (simplifyOnce^[n] f).simplifyOnce = simplifyOnce^[n] f
  changed : ∀ m < n, (simplifyOnce^[m] f).simplifyOnce ≠ simplifyOnce^[m] f

/-- One pass further, one pass less is needed. -/
theorem StopsAt.after_pass {f : Formula α} {n : Nat} (h : StopsAt f (n + 1)) :
    StopsAt f.simplifyOnce n :=
  ⟨h.fixed, fun m hm => h.changed (m + 1) (by omega)⟩

/-- From where the passes stop on, they stay. -/
theorem StopsAt.iterate_eq {f : Formula α} {n m : Nat} (h : StopsAt f n) (hle : n ≤ m) :
    simplifyOnce^[m] f = simplifyOnce^[n] f := by
  obtain ⟨k, rfl⟩ := Nat.exists_eq_add_of_le' hle
  rw [Function.iterate_add_apply, Function.iterate_fixed h.fixed]

/-- The formulas in the sequence of passes that a further pass does not change are those from where
the passes stop on. -/
theorem StopsAt.le_iff {f : Formula α} {n m : Nat} (h : StopsAt f n) :
    n ≤ m ↔ (simplifyOnce^[m] f).simplifyOnce = simplifyOnce^[m] f := by
  constructor
  · intro hle
    rw [h.iterate_eq hle, h.fixed]
  · intro hfixed
    by_contra hlt
    exact h.changed m (by omega) hfixed

/-- Basic formulas get lighter with every pass that changes them, so some pass changes nothing. -/
theorem exists_fixed_of_isBasic {f : Formula α} (hf : f.IsBasic) :
    ∃ n, (simplifyOnce^[n] f).simplifyOnce = simplifyOnce^[n] f := by
  -- each pass that changes something makes the formula lighter
  induction hw : f.weight using Nat.strong_induction_on generalizing f with
  | _ w ih =>
    rcases noHeavier_simplifyOnce hf with hfixed | hlt
    · exact ⟨0, hfixed⟩
    · obtain ⟨n, hn⟩ := ih f.simplifyOnce.weight (hw ▸ hlt) (isBasic_simplifyOnce f) rfl
      exact ⟨n + 1, hn⟩

/-- The passes over a formula stop. -/
theorem exists_stopsAt (f : Formula α) : ∃ n, StopsAt f n := by
  -- what the first pass leaves has no implications and biconditionals
  obtain ⟨n, hn⟩ := exists_fixed_of_isBasic (isBasic_simplifyOnce f)
  have h : ∃ m, (simplifyOnce^[m] f).simplifyOnce = simplifyOnce^[m] f := ⟨n + 1, hn⟩
  exact ⟨Nat.find h, Nat.find_spec h, fun m hm => Nat.find_min h hm⟩

/-- Two equal formulas in the sequence of passes are what the passes stop at: from any other one,
the sequence would come back to it again and again. -/
theorem StopsAt.le_of_iterate_eq {f : Formula α} {n i j : Nat} (h : StopsAt f n) (hij : i < j)
    (heq : simplifyOnce^[i] f = simplifyOnce^[j] f) : n ≤ i := by
  have hperiod : Function.IsPeriodicPt simplifyOnce (j - i) (simplifyOnce^[i] f) := by
    show simplifyOnce^[j - i] (simplifyOnce^[i] f) = _
    rw [← Function.iterate_add_apply, Nat.sub_add_cancel hij.le, heq]
  -- after so many rounds the passes have stopped
  have hlate : n ≤ n * (j - i) + i :=
    Nat.le_trans (Nat.le_mul_of_pos_right n (by omega)) (Nat.le_add_right _ i)
  have hround : simplifyOnce^[i] f = simplifyOnce^[n] f := by
    rw [← (hperiod.const_mul n).eq, ← Function.iterate_add_apply, h.iterate_eq hlate]
  rw [h.le_iff, hround, h.fixed]

/-! ## The course of the passes -/

/-- The course under a limit that lets the passes stop: one more pass finds nothing to change. -/
theorem simplifyWithin_of_lt {f : Formula α} {n limit : Nat} (h : StopsAt f n)
    (hlimit : n < limit) :
    simplifyWithin limit f =
      ⟨(List.range (n + 1)).map fun i => simplifyOnce^[i + 1] f, true, simplifyOnce^[n] f⟩ := by
  induction n generalizing f limit with
  | zero =>
    obtain ⟨limit, rfl⟩ := Nat.exists_eq_add_of_lt hlimit
    have hfixed : f.simplifyOnce = f := h.fixed
    rw [simplifyWithin, if_pos hfixed]
    rfl
  | succ n ih =>
    obtain ⟨limit, rfl⟩ := Nat.exists_eq_add_of_le' (Nat.one_le_of_lt hlimit)
    have hchanged : f.simplifyOnce ≠ f := h.changed 0 (Nat.succ_pos n)
    rw [simplifyWithin, if_neg hchanged, ih h.after_pass (Nat.lt_of_succ_lt_succ hlimit),
      List.range_succ_eq_map (n := n + 1), List.map_cons, List.map_map]
    rfl

/-- Under a lower limit the passes give up. -/
theorem converged_simplifyWithin_of_le {f : Formula α} {n limit : Nat} (h : StopsAt f n)
    (hlimit : limit ≤ n) : (simplifyWithin limit f).converged = false := by
  induction limit generalizing f n with
  | zero => rfl
  | succ limit ih =>
    obtain ⟨n, rfl⟩ := Nat.exists_eq_add_of_le' (Nat.one_le_of_lt hlimit)
    have hchanged : f.simplifyOnce ≠ f := h.changed 0 (Nat.succ_pos n)
    rw [simplifyWithin, if_neg hchanged]
    exact ih h.after_pass (Nat.le_of_succ_le_succ hlimit)

/-- A course converges when its limit lets the passes stop. -/
theorem StopsAt.converged_iff {f : Formula α} {n : Nat} {limit : Int} (h : StopsAt f n) :
    (f.simplify limit).converged = true ↔ n < limit.toNat := by
  rcases Nat.lt_or_ge n limit.toNat with hlt | hle
  · simp only [simplify, simplifyWithin_of_lt h hlt, hlt]
  · simp only [simplify, converged_simplifyWithin_of_le h hle, Bool.false_eq_true, false_iff]
    omega

/-- **Simplification comes to an end without its limit.**  For every formula there is a number of
passes that lead to a formula which a further pass does not change.  Under every limit that allows
this further pass the course is one and the same, and it has converged; under a lower one the passes
give up.  No formula comes back in the sequence of passes before that one is reached. -/
theorem simplify_converges (f : Formula α) :
    ∃ n : Nat, (simplifyOnce^[n] f).simplifyOnce = simplifyOnce^[n] f ∧
      (∀ limit : Int, n + 1 ≤ limit → f.simplify limit =
        ⟨(List.range (n + 1)).map fun i => simplifyOnce^[i + 1] f, true, simplifyOnce^[n] f⟩) ∧
      (∀ limit : Int, limit ≤ n → (f.simplify limit).converged = false) ∧
      ∀ i j, i < j → simplifyOnce^[i] f = simplifyOnce^[j] f → n ≤ i := by
  obtain ⟨n, hn⟩ := exists_stopsAt f
  refine ⟨n, hn.fixed, fun limit hlimit => ?_, fun limit hlimit => ?_, fun i j hij heq => ?_⟩
  · exact simplifyWithin_of_lt hn (by omega)
  · exact converged_simplifyWithin_of_le hn (by omega)
  · exact hn.le_of_iterate_eq hij heq

end Propositional.Formula
