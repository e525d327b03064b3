import Propositional.Proofs.Polarity.Occurrences
import Propositional.Proofs.Simplification

/-!
# Simplification brings in no polarity

Rules that push negations down or write a connective with others duplicate operands and put
negations in front of them.  Still no atom gets a polarity that it did not have: what is negated
occurred with the opposite polarity before, or with both.

The comparison is made for every set of polarities with which the formulas may occur, so that it
carries over to formulas built from others.  A rule is then seen to be harmless from the parts of
its result: each of them inherits from the formula that the rule is applied to.

* `Formula.InheritsSigns`  — no polarity of the first formula is new;
* `right_inherits`, `left_inherits`, `neg_right_inherits`, `neg_left_inherits` — the sides of a
  connective and their negations;
* `InheritsSigns.neg`, `InheritsSigns.of_neg`, `InheritsSigns.bin`, `InheritsSigns.and`,
  `InheritsSigns.or` — formulas built from such formulas;
* `fold_inherits`, `eliminate_inherits` — folding constants;
* `simplifyBin_inherits`, `simplifyOnce_inherits`, `simplify_inherits` — simplification;
* `Formula.NoNewSigns`     — what this says about the tables of polarities and the pure atoms;
* `Formula.simplification_keeps_signs` — the main result.
-/

namespace Propositional

namespace Formula

variable {f g h l r : Formula Letter} {op : Connective} {s t : Signs} {a : Letter}
  {value? : Letter → Option Bool}

/-- With more polarities for the formula, an atom has no fewer. -/
theorem signsOf_subset (hst : s ⊆ t) : f.signsOf s a ⊆ f.signsOf t a := by
  induction f generalizing s t with
  | var b =>
    rw [signsOf, signsOf]
    split
    · exact hst
    · exact Signs.subset_refl _
  | const b => exact Signs.subset_refl _
  | neg f ih => exact ih (Signs.flip_subset_flip hst)
  | bin op l r ihl ihr =>
    rw [signsOf_bin, signsOf_bin]
    exact Signs.union_subset_union (ihl (op.signsBelow_subset .first hst))
      (ihr (op.signsBelow_subset .second hst))

/-- Whatever the polarities with which two formulas occur, every atom of the first one has in it
only such polarities as the atom has in the second. -/
def InheritsSigns (g f : Formula Letter) : Prop :=
  ∀ signs a, g.signsOf signs a ⊆ f.signsOf signs a

/-- A formula brings in no polarity beside its own. -/
theorem inheritsSigns_refl (f : Formula Letter) : f.InheritsSigns f :=
  fun _ _ => Signs.subset_refl _

/-- What brings in nothing new in two steps brings in nothing new. -/
theorem InheritsSigns.trans (hgf : g.InheritsSigns f) (hfh : f.InheritsSigns h) :
    g.InheritsSigns h :=
  fun signs a => Signs.subset_trans (hgf signs a) (hfh signs a)

/-- A constant has no atoms, so it brings in nothing. -/
theorem const_inherits (b : Bool) (f : Formula Letter) : (const b).InheritsSigns f :=
  fun _ _ => Signs.none_subset _

/-! ## Sides -/

/-- The right side occurs with the polarities of the whole, whatever the connective. -/
theorem right_inherits : r.InheritsSigns (bin op l r) := by
  intro signs a
  rw [signsOf_bin]
  have hbelow : signs ⊆ op.signsBelow .second signs := by
    cases op with
    | iff => exact Signs.subset_both _
    | and => exact Signs.subset_refl _
    | or => exact Signs.subset_refl _
    | implies => exact Signs.subset_refl _
  exact Signs.subset_trans (signsOf_subset hbelow) (Signs.subset_union_right _ _)

/-- So does the left side, unless it is that of an implication. -/
theorem left_inherits (hop : op ≠ .implies) : l.InheritsSigns (bin op l r) := by
  intro signs a
  rw [signsOf_bin]
  have hbelow : signs ⊆ op.signsBelow .first signs := by
    cases op with
    | iff => exact Signs.subset_both _
    | and => exact Signs.subset_refl _
    | or => exact Signs.subset_refl _
    | implies => exact absurd rfl hop
  exact Signs.subset_trans (signsOf_subset hbelow) (Signs.subset_union_left _ _)

/-- The left sides of implications and of biconditionals occur with the opposite polarities. -/
theorem neg_left_inherits (hop : op = .implies ∨ op = .iff) :
    (neg l).InheritsSigns (bin op l r) := by
  intro signs a
  rw [signsOf_bin, signsOf]
  have hbelow : signs.flip ⊆ op.signsBelow .first signs := by
    rcases hop with rfl | rfl
    · exact Signs.subset_refl _
    · exact Signs.subset_both _
  exact Signs.subset_trans (signsOf_subset hbelow) (Signs.subset_union_left _ _)

/-- So do the right sides of biconditionals. -/
theorem neg_right_inherits : (neg r).InheritsSigns (bin .iff l r) := by
  intro signs a
  rw [signsOf_bin, signsOf]
  exact Signs.subset_trans (signsOf_subset (Signs.subset_both _)) (Signs.subset_union_right _ _)

/-! ## Formulas built from others -/

namespace InheritsSigns

/-- Negating both formulas changes nothing about this. -/
theorem neg (hgf : g.InheritsSigns f) : (neg g).InheritsSigns (neg f) :=
  fun signs a => hgf signs.flip a

/-- A formula inherits from the negation of what its own negation inherits from. -/
theorem of_neg (hgf : (Formula.neg g).InheritsSigns f) : g.InheritsSigns (Formula.neg f) :=
  fun signs a => hgf signs.flip a

/-- The sides of a connective may be replaced by such as bring in nothing new. -/
theorem bin {l' r' : Formula Letter} (hl : l'.InheritsSigns l) (hr : r'.InheritsSigns r) :
    (bin op l' r').InheritsSigns (bin op l r) := by
  intro signs a
  rw [signsOf_bin, signsOf_bin]
  exact Signs.union_subset_union (hl _ a) (hr _ a)

/-- A conjunction brings in nothing new when its sides do not. -/
theorem and (hl : l.InheritsSigns f) (hr : r.InheritsSigns f) :
    (Formula.bin .and l r).InheritsSigns f :=
  fun signs a => Signs.union_subset (hl signs a) (hr signs a)

/-- Nor does a disjunction. -/
theorem or (hl : l.InheritsSigns f) (hr : r.InheritsSigns f) :
    (Formula.bin .or l r).InheritsSigns f :=
  fun signs a => Signs.union_subset (hl signs a) (hr signs a)

end InheritsSigns

/-! ## Folding -/

/-- Folding a constant on the left leaves a constant, the right side or its negation.  It is negated
only below a biconditional, where all polarities are there already. -/
theorem onLeft_inherits (op : Connective) (x : Bool) (l r : Formula Letter) :
    (onLeft op x r).InheritsSigns (bin op l r) := by
  cases op <;> cases x <;>
    first
    | exact const_inherits _ _
    | exact right_inherits
    | exact neg_right_inherits

/-- Folding a constant on the right may negate the left side of an implication or of a
biconditional, where the opposite polarities are there already. -/
theorem onRight_inherits (op : Connective) (l r : Formula Letter) (y : Bool) :
    (onRight op l y).InheritsSigns (bin op l r) := by
  cases op <;> cases y <;>
    first
    | exact const_inherits _ _
    | exact left_inherits (by decide)
    | exact neg_left_inherits (by decide)

/-- Folding a connective brings in nothing new, whichever side is a constant. -/
theorem fold_inherits (op : Connective) (l r : Formula Letter) :
    (fold op l r).InheritsSigns (bin op l r) := by
  unfold fold
  split
  · exact const_inherits _ _
  · exact onLeft_inherits op _ _ r
  · exact onRight_inherits op l _ _
  · exact inheritsSigns_refl _

/-- Negating a formula that may be a constant brings in nothing beside the negation. -/
theorem negated_inherits (f : Formula Letter) : f.negated.InheritsSigns (neg f) := by
  unfold negated
  split
  · exact const_inherits _ _
  · exact inheritsSigns_refl _

/-- Nor does taking away a second negation. -/
theorem cancelled_inherits (f : Formula Letter) : f.cancelled.InheritsSigns (neg f) := by
  unfold cancelled
  split
  · exact const_inherits _ _
  · exact (inheritsSigns_refl _).of_neg
  · exact inheritsSigns_refl _

/-- Replacing atoms by constants only takes polarities away, and so does folding on the way up. -/
theorem foldAssigned_inherits (f : Formula Letter) :
    (f.foldAssigned value?).InheritsSigns f := by
  induction f with
  | var a =>
    rw [foldAssigned]
    split
    · exact const_inherits _ _
    · exact inheritsSigns_refl _
  | const b => exact inheritsSigns_refl _
  | neg f ih => exact (negated_inherits _).trans ih.neg
  | bin op l r ihl ihr => exact (fold_inherits op _ _).trans (ihl.bin ihr)

/-- A further folding pass brings in nothing new. -/
theorem foldOnce_inherits (f : Formula Letter) : f.foldOnce.InheritsSigns f := by
  induction f with
  | var a => exact inheritsSigns_refl _
  | const b => exact inheritsSigns_refl _
  | neg f ih => exact (cancelled_inherits _).trans ih.neg
  | bin op l r ihl ihr => exact (fold_inherits op _ _).trans (ihl.bin ihr)

/-- Both passes of the elimination together bring in nothing new. -/
theorem eliminate_inherits (f : Formula Letter) : (f.eliminate value?).InheritsSigns f :=
  (foldOnce_inherits _).trans (foldAssigned_inherits f)

/-! ## Simplification -/

/-- Pushing a negation inwards brings in nothing new: what it is put in front of occurred with the
opposite polarities below it. -/
theorem simplifyNot_inherits (f : Formula Letter) : (simplifyNot f).InheritsSigns (neg f) := by
  unfold simplifyNot
  split
  · exact const_inherits _ _
  · exact (inheritsSigns_refl _).of_neg
  · exact .or (left_inherits (by decide)).neg right_inherits.neg
  · exact .and (left_inherits (by decide)).neg right_inherits.neg
  · exact .and (neg_left_inherits (by decide)).of_neg right_inherits.neg
  · -- of a negated biconditional, each side may stand plain and negated
    exact .or (.and (neg_left_inherits (by decide)).of_neg right_inherits.neg)
      (.and (left_inherits (by decide)).neg neg_right_inherits.of_neg)
  · exact inheritsSigns_refl _

/-- Writing a connective with others brings in nothing new, although a biconditional is doubled. -/
theorem simplifySides_inherits (op : Connective) (l r : Formula Letter) :
    (simplifySides op l r).InheritsSigns (bin op l r) := by
  unfold simplifySides
  cases op with
  | and =>
    dsimp only
    split_ifs
    · exact left_inherits (by decide)
    · exact const_inherits _ _
    · exact inheritsSigns_refl _
  | or =>
    dsimp only
    split_ifs
    · exact left_inherits (by decide)
    · exact const_inherits _ _
    · exact inheritsSigns_refl _
  | implies =>
    dsimp only
    -- an implication between other sides becomes a disjunction
    split_ifs
    · exact const_inherits _ _
    · exact .or (neg_left_inherits (by decide)) right_inherits
  | iff =>
    dsimp only
    -- a biconditional of other sides becomes a disjunction of two conjunctions
    split_ifs
    · exact const_inherits _ _
    · exact const_inherits _ _
    · exact .or (.and (left_inherits (by decide)) right_inherits)
        (.and (neg_left_inherits (by decide)) neg_right_inherits)

/-- The rules for a connective bring in nothing new, with constants on a side and without. -/
theorem simplifyBin_inherits (op : Connective) (l r : Formula Letter) :
    (simplifyBin op l r).InheritsSigns (bin op l r) := by
  unfold simplifyBin
  split
  · exact onLeft_inherits op _ l r
  · exact onRight_inherits op l r _
  · exact simplifySides_inherits op l r

/-- Neither does a pass from the leaves up. -/
theorem simplifyOnce_inherits (f : Formula Letter) : f.simplifyOnce.InheritsSigns f := by
  induction f with
  | var a => exact inheritsSigns_refl _
  | const b => exact inheritsSigns_refl _
  | neg f ih => exact (simplifyNot_inherits _).trans ih.neg
  | bin op l r ihl ihr => exact (simplifyBin_inherits op _ _).trans (ihl.bin ihr)

/-- Neither do as many passes as are run. -/
theorem simplify_inherits (limit : Int) (f : Formula Letter) :
    (f.simplify limit).result.InheritsSigns f := by
  rw [simplify_result]
  generalize limit.toNat = n
  induction n with
  | zero => exact inheritsSigns_refl _
  | succ n ih =>
    rw [Function.iterate_succ_apply']
    exact (simplifyOnce_inherits _).trans ih

/-! ## Tables of polarities -/

/-- Every atom of the first formula is listed for both with a set of polarities, and the set for the
first is part of the set for the second. -/
structure NoNewSigns (g f : Formula Letter) : Prop where
  subset : ∀ a ∈ g.atoms, ∃ s t, g.signs.get? a = some s ∧ f.signs.get? a = some t ∧ s ⊆ t
  -- A pure atom stays pure with the same polarity, or it disappears.
  pure : ∀ a b, (PureAtom.find f.signs).get? a = some b →
    a ∉ g.atoms ∨ (PureAtom.find g.signs).get? a = some b

/-- What is said about all sets of polarities shows in the tables of both formulas. -/
theorem InheritsSigns.noNewSigns (hgf : g.InheritsSigns f) : g.NoNewSigns f := by
  have hsubset : ∀ a ∈ g.atoms,
      ∃ s t, g.signs.get? a = some s ∧ f.signs.get? a = some t ∧ s ⊆ t := by
    intro a ha
    obtain ⟨b, hb⟩ := exists_has_signsOf ha
    -- the polarity that the atom has here is one that it has there, so it occurs there
    obtain ⟨p, hp, -⟩ := has_signsOf_iff.mp (hgf _ a b hb)
    exact ⟨_, _, get?_signs_eq_some_iff.mpr ⟨ha, rfl⟩,
      get?_signs_eq_some_iff.mpr ⟨mem_atoms_iff.mpr ⟨p, hp⟩, rfl⟩, hgf .plus a⟩
  refine ⟨hsubset, fun a b hpure => or_iff_not_imp_left.mpr fun ha => ?_⟩
  have hatom : a ∈ g.atoms := not_not.mp ha
  obtain ⟨s, t, hs, ht, hst⟩ := hsubset a hatom
  obtain ⟨t', ht', honly⟩ := (PureAtom.get?_find_eq_some_iff _).mp hpure
  obtain rfl : t = t' := Option.some.inj (ht.symm.trans ht')
  obtain ⟨c, hc⟩ := exists_has_signsOf hatom
  rw [(get?_signs_eq_some_iff.mp hs).2] at hc
  exact (PureAtom.get?_find_eq_some_iff _).mpr ⟨s, hs, Signs.only?_of_subset hst hc honly⟩

/-- **Simplification gives no atom a new polarity.**  This holds for the elimination of any atoms
with any values, for a pass of simplification and for simplification with any limit of passes.  In
each case an atom that is pure in the formula is pure with the same polarity in the result, or does
not occur in it. -/
theorem simplification_keeps_signs (f : Formula Letter) :
    (∀ value? : Letter → Option Bool, (f.eliminate value?).NoNewSigns f) ∧
      f.simplifyOnce.NoNewSigns f ∧
      ∀ limit : Int, (f.simplify limit).result.NoNewSigns f :=
  ⟨fun _ => (eliminate_inherits f).noNewSigns, (simplifyOnce_inherits f).noNewSigns,
    fun limit => (simplify_inherits limit f).noNewSigns⟩

end Formula

end Propositional
