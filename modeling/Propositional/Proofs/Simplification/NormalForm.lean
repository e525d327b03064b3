import Propositional.Formula.Reader
import Propositional.Position
import Propositional.Proofs.Constants
import Propositional.Proofs.Simplification.Convergence

/-!
# What simplification leaves

When the passes have come to an end, what is left is a constant or a normal form.  That the pass
changes nothing at the root does not say that it changes nothing below; that is where the weight
comes in again: a subformula that became lighter would have made the whole formula lighter.

Constants can outlive the first pass, though only right below a negation: the rules do not go over
what they write, and a biconditional with `⊥` on its left becomes the negation of its right side,
whatever that is.  The second pass evaluates these negations.

* `Formula.IsNormal`, `Formula.isNormal_of_fixed` — normal forms, and that fixed points are such;
* `Formula.normal_of_converged` — what is left when the passes converged;
* `Formula.reduced_simplifyOnce` — constants after one pass;
* `Formula.simplify_shape`     — both together.
-/

namespace Propositional.Formula

variable {α : Type}

/-! ## Normal forms -/

/-- Formulas without constants, built from literals with conjunction and disjunction, in which the
sides of no connective are equal or complementary. -/
inductive IsNormal [DecidableEq α] : Formula α → Prop
  | var (a : α) : IsNormal (.var a)
  | negVar (a : α) : IsNormal (.neg (.var a))
  | bin {op : Connective} {l r : Formula α} (hop : op = .and ∨ op = .or) (hne : l ≠ r)
      (hcompl : complementary l r = false) (hl : IsNormal l) (hr : IsNormal r) :
      IsNormal (.bin op l r)

/-- The rules keep the negations of atoms only. -/
theorem exists_eq_var_of_simplifyNot {f : Formula α} (h : simplifyNot f = .neg f) :
    ∃ a, f = .var a := by
  cases f with
  | var a => exact ⟨a, rfl⟩
  | const b => cases h
  | neg f =>
    have hlt := (weight_lt_weight_neg f).trans (weight_lt_weight_neg f.neg)
    rw [← h] at hlt
    exact absurd hlt (Nat.lt_irrefl _)
  | bin op l r => cases op <;> cases h

/-- A conjunction or disjunction that absorbs a constant is itself gone. -/
theorem onLeft_ne_bin {op : Connective} (hop : op = .and ∨ op = .or) (x : Bool)
    (l r : Formula α) : onLeft op x r ≠ .bin op l r := by
  intro h
  -- either a constant is left, or the side itself, which is smaller than the whole
  rcases hop with rfl | rfl <;> cases x <;> cases h

theorem onRight_ne_bin {op : Connective} (hop : op = .and ∨ op = .or) (y : Bool)
    (l r : Formula α) : onRight op l y ≠ .bin op l r := by
  intro h
  rcases hop with rfl | rfl <;> cases y <;> cases h

/-- A formula that is neither heavier nor lighter than another is the other. -/
theorem NoHeavier.eq_of_le {f g : Formula α} (hgf : NoHeavier g f) (hle : f.weight ≤ g.weight) :
    g = f := by
  rcases hgf with heq | hlt
  · exact heq
  · omega

section FixedPoints

variable [DecidableEq α]

/-- Where the rules keep a connective, its sides are no constants, not equal and not
complementary. -/
theorem sides_of_simplifyBin {op : Connective} (hop : op = .and ∨ op = .or) {l r : Formula α}
    (h : simplifyBin op l r = .bin op l r) :
    l.constant? = none ∧ r.constant? = none ∧ l ≠ r ∧ complementary l r = false := by
  unfold simplifyBin at h
  split at h
  · next x _ => exact absurd h (onLeft_ne_bin hop x l r)
  · next y _ _ => exact absurd h (onRight_ne_bin hop y l r)
  · next hl hr =>
    -- conjunction and disjunction differ in the constant for complementary sides only
    have hkept (b : Bool) (h : (if l = r then l else if complementary l r = true then const b
        else bin op l r) = bin op l r) : l ≠ r ∧ complementary l r = false := by
      split_ifs at h with heq hcompl
      · cases h
      · exact ⟨heq, Bool.eq_false_of_not_eq_true hcompl⟩
    refine ⟨hl, hr, ?_⟩
    rcases hop with rfl | rfl
    · exact hkept false h
    · exact hkept true h

/-- A negation that a pass keeps has an operand that the pass keeps: were it lighter afterwards, so
would be its negation. -/
theorem fixed_of_fixed_neg {f : Formula α} (hf : (neg f).IsBasic)
    (h : (neg f).simplifyOnce = neg f) : f.simplifyOnce = f ∧ simplifyNot f = neg f := by
  have hbasic : f.IsBasic := hf
  have hroot : simplifyNot f.simplifyOnce = neg f := h
  have hw := (noHeavier_simplifyNot (isBasic_simplifyOnce f)).weight_le
  rw [hroot] at hw
  have hfixed : f.simplifyOnce = f :=
    (noHeavier_simplifyOnce hbasic).eq_of_le (Nat.mul_self_le_mul_self_iff.mp hw)
  rw [hfixed] at hroot
  exact ⟨hfixed, hroot⟩

/-- A connective that a pass keeps has sides that the pass keeps. -/
theorem fixed_of_fixed_bin {op : Connective} {l r : Formula α} (hf : (bin op l r).IsBasic)
    (h : (bin op l r).simplifyOnce = bin op l r) :
    l.simplifyOnce = l ∧ r.simplifyOnce = r ∧ simplifyBin op l r = bin op l r := by
  obtain ⟨hop, hl, hr⟩ := hf.sides
  have hroot : simplifyBin op l.simplifyOnce r.simplifyOnce = bin op l r := h
  have hw : l.weight + r.weight + 1 ≤ l.simplifyOnce.weight + r.simplifyOnce.weight + 1 := by
    have hle := (noHeavier_simplifyBin hop l.simplifyOnce r.simplifyOnce).weight_le
    rw [hroot] at hle
    exact hle
  have hlw := (noHeavier_simplifyOnce hl).weight_le
  have hrw := (noHeavier_simplifyOnce hr).weight_le
  have hlfixed := (noHeavier_simplifyOnce hl).eq_of_le (by omega)
  have hrfixed := (noHeavier_simplifyOnce hr).eq_of_le (by omega)
  rw [hlfixed, hrfixed] at hroot
  exact ⟨hlfixed, hrfixed, hroot⟩

/-- What a pass keeps is a constant or a normal form. -/
theorem isNormal_of_fixed {f : Formula α} (hf : f.IsBasic) (h : f.simplifyOnce = f) :
    (∃ b, f = .const b) ∨ f.IsNormal := by
  induction f with
  | var a => exact Or.inr (.var a)
  | const b => exact Or.inl ⟨b, rfl⟩
  | neg f _ =>
    obtain ⟨a, rfl⟩ := exists_eq_var_of_simplifyNot (fixed_of_fixed_neg hf h).2
    exact Or.inr (.negVar a)
  | bin op l r ihl ihr =>
    obtain ⟨hop, hl, hr⟩ := hf.sides
    obtain ⟨hlfixed, hrfixed, hroot⟩ := fixed_of_fixed_bin hf h
    obtain ⟨hlconst, hrconst, hne, hcompl⟩ := sides_of_simplifyBin hop hroot
    rcases ihl hl hlfixed with ⟨x, rfl⟩ | hlnormal
    · cases hlconst
    rcases ihr hr hrfixed with ⟨y, rfl⟩ | hrnormal
    · cases hrconst
    exact Or.inr (.bin hop hne hcompl hlnormal hrnormal)

/-- Passes that converged leave a constant or a normal form. -/
theorem normal_of_converged {f : Formula α} {limit : Int}
    (h : (f.simplify limit).converged = true) :
    (∃ b, (f.simplify limit).result = .const b) ∨ (f.simplify limit).result.IsNormal := by
  obtain ⟨n, hn⟩ := exists_stopsAt f
  rw [simplify_result, hn.iterate_eq (hn.converged_iff.mp h).le]
  exact isNormal_of_fixed (hn.fixed ▸ isBasic_simplifyOnce _) hn.fixed

end FixedPoints

/-! ## Constants after a pass -/

variable {exempt : Bool} {f l r : Formula α}

/-- The rules for negations leave reduced what is reduced. -/
theorem reduced_simplifyNot (h : f.Reduced exempt) : (simplifyNot f).Reduced exempt := by
  rcases h with ⟨b, rfl⟩ | hclear
  · exact Or.inl ⟨!b, rfl⟩
  cases f with
  | var a => exact Or.inr hclear
  | const b => exact hclear.elim
  | neg f => exact reduced_of_clear_neg hclear
  | bin op l r =>
    obtain ⟨hl, hr⟩ := hclear
    cases op with
    | and => exact Or.inr ⟨hl.neg, hr.neg⟩
    | or => exact Or.inr ⟨hl.neg, hr.neg⟩
    | implies => exact Or.inr ⟨hl, hr.neg⟩
    | iff => exact Or.inr ⟨⟨hl, hr.neg⟩, hl.neg, hr⟩

/-- The subformulas of a formula without implications and biconditionals have none either. -/
theorem IsBasic.at? {f g : Formula α} {p : Position} (hf : f.IsBasic) (h : f.at? p = some g) :
    g.IsBasic := by
  induction p generalizing f with
  | nil =>
    cases h
    exact hf
  | cons s p ih =>
    cases f with
    | var a => cases h
    | const b => cases h
    | neg f =>
      cases s with
      | first =>
        have hoperand : f.IsBasic := hf
        exact ih hoperand h
      | second => cases h
    | bin op l r =>
      cases s with
      | first => exact ih hf.sides.2.1 h
      | second => exact ih hf.sides.2.2 h

variable [DecidableEq α]

/-- Some biconditional of the formula has sides of which a pass leaves `⊥` on the left and a
constant on the right. -/
def NegatesConstant (f : Formula α) : Prop :=
  ∃ (p : Position) (l r : Formula α), f.at? p = some (.bin .iff l r) ∧
    l.simplifyOnce = .const false ∧ ∃ b, r.simplifyOnce = .const b

namespace NegatesConstant

variable {op : Connective}

theorem neg (h : f.NegatesConstant) : (Formula.neg f).NegatesConstant := by
  obtain ⟨p, hp⟩ := h
  exact ⟨.first :: p, hp⟩

theorem left (h : l.NegatesConstant) : (bin op l r).NegatesConstant := by
  obtain ⟨p, hp⟩ := h
  exact ⟨.first :: p, hp⟩

theorem right (h : r.NegatesConstant) : (bin op l r).NegatesConstant := by
  obtain ⟨p, hp⟩ := h
  exact ⟨.second :: p, hp⟩

end NegatesConstant

/-- Without biconditionals, no constant is negated. -/
theorem IsBasic.not_negatesConstant (hf : f.IsBasic) : ¬ f.NegatesConstant := by
  rintro ⟨p, l, r, hp, -⟩
  exact (hf.at? hp).elim

theorem reduced_simplifySides (op : Connective) (hl : l.Clear exempt) (hr : r.Clear exempt) :
    (simplifySides op l r).Reduced exempt := by
  unfold simplifySides
  cases op <;> dsimp only <;> split_ifs <;>
    first
    | exact Or.inl ⟨_, rfl⟩
    | exact Or.inr hl
    | exact Or.inr ⟨hl, hr⟩
    | exact Or.inr ⟨hl.neg, hr⟩
    | exact Or.inr ⟨⟨hl, hr⟩, hl.neg, hr.neg⟩

/-- So do the rules at the root of a connective, except for `⊥↔` a constant. -/
theorem reduced_simplifyBin (op : Connective) (hl : l.Reduced exempt) (hr : r.Reduced exempt)
    (h : op = .iff → l = .const false → (∃ b, r = .const b) → exempt = true) :
    (simplifyBin op l r).Reduced exempt := by
  unfold simplifyBin
  split
  · next x hx =>
    rw [eq_const_of_constant? hx] at h
    exact reduced_onLeft op x hr fun hop hfalse => h hop (hfalse ▸ rfl)
  · next y hlconst _ => exact reduced_onRight op y (hl.clear hlconst)
  · next hlconst hrconst => exact reduced_simplifySides op (hl.clear hlconst) (hr.clear hrconst)

/-- A pass leaves a constant or no constant at all, unless a constant is negated on the way. -/
theorem reduced_simplifyOnce (h : f.NegatesConstant → exempt = true) :
    f.simplifyOnce.Reduced exempt := by
  induction f with
  | var a => exact Or.inr trivial
  | const b => exact Or.inl ⟨b, rfl⟩
  | neg f ih => exact reduced_simplifyNot (ih fun hneg => h hneg.neg)
  | bin op l r ihl ihr =>
    refine reduced_simplifyBin op (ihl fun hneg => h hneg.left) (ihr fun hneg => h hneg.right) ?_
    rintro rfl hfalse hconst
    exact h ⟨[], l, r, rfl, hfalse, hconst⟩

/-- From the second pass on, a constant is left or no constant at all: the first pass has removed
every biconditional. -/
theorem reduced_simplify {limit : Int} (hlimit : 2 ≤ limit) (f : Formula α) :
    (f.simplify limit).result.Reduced false := by
  obtain ⟨n, hn⟩ : ∃ n, limit.toNat = n + 2 := ⟨limit.toNat - 2, by omega⟩
  rw [simplify_result, hn, Function.iterate_succ_apply', Function.iterate_succ_apply']
  exact reduced_simplifyOnce fun hneg =>
    absurd hneg (isBasic_simplifyOnce _).not_negatesConstant

/-- Of `⊥↔⊤` a pass leaves `¬⊤`, which is no constant and not free of constants. -/
theorem negated_constant_after_pass :
    let f : Formula Letter := .bin .iff (.const false) (.const true)
    Formula.read "⊥↔⊤" = .ok f ∧ f.simplifyOnce = .neg (.const true) ∧
      ¬ f.simplifyOnce.Reduced false := by
  refine ⟨rfl, rfl, ?_⟩
  rintro (⟨b, hb⟩ | hclear)
  · cases hb
  · cases hclear

/-! ## The shape of the result -/

/-- **What simplification leaves.**  Passes that converged leave a constant or a normal form.  After
one pass there are no implications and biconditionals left; there is a constant or no constant at
all, unless the pass negated a constant, and then constants stand right below negations only.  From
the second pass on there is a constant or no constant at all. -/
theorem simplify_shape (f : Formula α) :
    (∀ limit : Int, (f.simplify limit).converged = true →
        (∃ b, (f.simplify limit).result = .const b) ∨ (f.simplify limit).result.IsNormal) ∧
      f.simplifyOnce.IsBasic ∧
      (¬ f.NegatesConstant → f.simplifyOnce.Reduced false) ∧
      f.simplifyOnce.Reduced true ∧
      ∀ limit : Int, 2 ≤ limit → (f.simplify limit).result.Reduced false :=
  ⟨fun _ => normal_of_converged, isBasic_simplifyOnce f,
    fun hneg => reduced_simplifyOnce fun h => absurd h hneg,
    reduced_simplifyOnce fun _ => rfl, fun _ hlimit => reduced_simplify hlimit f⟩

/-- Three passes over `¬(p→q)` converge, and leave the normal form `p∧¬q`. -/
theorem simplify_shape_negated_implication :
    let p : Letter := ⟨'p', rfl⟩
    let q : Letter := ⟨'q', rfl⟩
    let f : Formula Letter := .neg (.bin .implies (.var p) (.var q))
    let r : Formula Letter := .bin .and (.var p) (.neg (.var q))
    (f.simplify 3).converged = true ∧ (f.simplify 3).result = r ∧ r.IsNormal := by
  intro p q f r
  have hconverged : (f.simplify 3).converged = true := rfl
  have hresult : (f.simplify 3).result = r := rfl
  refine ⟨hconverged, hresult, ?_⟩
  rcases (simplify_shape f).1 3 hconverged with ⟨b, hb⟩ | hnormal
  · have hconst : bin .and (.var p) (.neg (.var q)) = .const b := hresult.symm.trans hb
    cases hconst
  · exact hresult ▸ hnormal

end Propositional.Formula
