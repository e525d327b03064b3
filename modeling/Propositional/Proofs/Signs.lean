import Propositional.Position
import Propositional.PureAtom

/-!
# Sets of polarities

What is known of a set of polarities in terms of its members, and how polarities and truth values go
together.

* `Signs.plus`, `Signs.both`, `Signs.single`, `Signs.flip`, `Signs.union` — sets, and sets made of
  others;
* `Signs.has`, `Signs.ext_has`  — the members of a set, and sets with the same members;
* `s ⊆ t`                       — every polarity of `s` is one of `t`;
* `Signs.only?_eq_some_iff`, `Signs.only?_of_subset` — sets with one polarity;
* `Signs.Favours`               — changes of a truth value that are in favour of the polarities;
* `Connective.signsBelow`       — the polarities of a side of a connective;
* `Connective.favours_apply`    — changes in favour of both sides are in favour of the whole.
-/

namespace Propositional

namespace Signs

variable {s t u : Signs} {b x y x' y' : Bool}

/-- The positive polarity alone. -/
def plus : Signs :=
  ⟨true, false⟩

/-- Both polarities. -/
def both : Signs :=
  ⟨true, true⟩

/-- One polarity alone; `true` stands for the positive one. -/
def single (b : Bool) : Signs :=
  ⟨b, !b⟩

/-- The polarities as they are under a negation. -/
def flip (s : Signs) : Signs :=
  ⟨s.negative, s.positive⟩

/-- The polarities in either of two sets. -/
def union (s t : Signs) : Signs :=
  ⟨s.positive || t.positive, s.negative || t.negative⟩

/-! ## Members -/

/-- Whether a polarity is in the set; `true` stands for the positive one. -/
def has (s : Signs) (b : Bool) : Bool :=
  if b then s.positive else s.negative

/-- Sets with the same members are equal. -/
theorem ext_has (h : ∀ b, s.has b = t.has b) : s = t := by
  obtain ⟨positive, negative⟩ := s
  obtain ⟨positive', negative'⟩ := t
  cases h true
  cases h false
  rfl

/-- No polarity is in the empty set. -/
@[simp]
theorem has_none : none.has b = false := by
  cases b <;> rfl

@[simp]
theorem has_plus : plus.has b = b := by
  cases b <;> rfl

/-- Both polarities are in the full set. -/
@[simp]
theorem has_both : both.has b = true := by
  cases b <;> rfl

/-- A flipped set has the opposites of the polarities. -/
@[simp]
theorem has_flip : s.flip.has b = s.has (!b) := by
  cases b <;> rfl

/-- A polarity is in a union when it is in one of the two sets. -/
@[simp]
theorem has_union : (s.union t).has b = (s.has b || t.has b) := by
  cases b <;> rfl

@[simp]
theorem none_union (s : Signs) : none.union s = s := rfl

@[simp]
theorem union_none (s : Signs) : s.union none = s := by
  simp [union, none]

/-- A polarity that is added stands beside those that were there. -/
theorem add_eq_union (s : Signs) (b : Bool) : s.add b = s.union (single b) := by
  cases b <;> simp [add, union, single]

/-- Under a negation, one polarity becomes the other. -/
theorem flip_single (b : Bool) : (single b).flip = single !b := by
  cases b <;> rfl

/-- It does not matter in which order three sets are joined. -/
theorem union_assoc (s t u : Signs) : (s.union t).union u = s.union (t.union u) := by
  simp [union, Bool.or_assoc]

/-! ## Inclusion -/

instance : HasSubset Signs where
  Subset s t := ∀ b, s.has b = true → t.has b = true

theorem subset_refl (s : Signs) : s ⊆ s :=
  fun _ h => h

theorem subset_trans (hst : s ⊆ t) (htu : t ⊆ u) : s ⊆ u :=
  fun b h => htu b (hst b h)

/-- The empty set is part of every set. -/
theorem none_subset (s : Signs) : none ⊆ s := by
  intro b h
  rw [has_none] at h
  cases h

/-- Every set is part of the set of both polarities. -/
theorem subset_both (s : Signs) : s ⊆ both :=
  fun _ _ => has_both

/-- Flipping keeps inclusion. -/
theorem flip_subset_flip (h : s ⊆ t) : s.flip ⊆ t.flip := by
  intro b hb
  rw [has_flip] at hb ⊢
  exact h _ hb

theorem subset_union_left (s t : Signs) : s ⊆ s.union t := by
  intro b h
  rw [has_union, h, Bool.true_or]

theorem subset_union_right (s t : Signs) : t ⊆ s.union t := by
  intro b h
  rw [has_union, h, Bool.or_true]

/-- A union is part of every set that both sets are part of. -/
theorem union_subset (hs : s ⊆ u) (ht : t ⊆ u) : s.union t ⊆ u := by
  intro b h
  rw [has_union, Bool.or_eq_true] at h
  exact h.elim (hs b) (ht b)

/-- Unions of larger sets are larger. -/
theorem union_subset_union {s' t' : Signs} (hs : s ⊆ s') (ht : t ⊆ t') :
    s.union t ⊆ s'.union t' :=
  union_subset (subset_trans hs (subset_union_left s' t'))
    (subset_trans ht (subset_union_right s' t'))

/-! ## Sets with one polarity -/

/-- The only polarity of a set is in it while the other one is not. -/
theorem only?_eq_some_iff : s.only? = some b ↔ s.has b = true ∧ s.has (!b) = false := by
  obtain ⟨positive, negative⟩ := s
  cases positive <;> cases negative <;> cases b <;> simp [only?, has]

/-- A part of a set with one polarity only has this polarity only, if it has any. -/
theorem only?_of_subset {c : Bool} (hst : s ⊆ t) (hc : s.has c = true) (ht : t.only? = some b) :
    s.only? = some b := by
  obtain ⟨-, hother⟩ := only?_eq_some_iff.mp ht
  have hnot : s.has (!b) = false := by
    rw [Bool.eq_false_iff]
    intro h
    rw [hst _ h] at hother
    cases hother
  have hcb : c = b := by
    refine Decidable.byContradiction fun hne => ?_
    rw [Bool.eq_not.mpr hne, hnot] at hc
    cases hc
  exact only?_eq_some_iff.mpr ⟨hcb ▸ hc, hnot⟩

/-! ## Truth values -/

/-- Changing a truth value from `x` to `y` is in favour of the polarities: it never takes away
truth from a positive occurrence and never brings truth to a negative one. -/
def Favours (s : Signs) (x y : Bool) : Prop :=
  (s.positive = true → x = true → y = true) ∧ (s.negative = true → y = true → x = true)

/-- Without a change of the truth value there is nothing to object to. -/
theorem favours_refl (s : Signs) (x : Bool) : s.Favours x x :=
  ⟨fun _ h => h, fun _ h => h⟩

/-- A change is in favour of a union when it is in favour of both sets. -/
theorem favours_union : (s.union t).Favours x y ↔ s.Favours x y ∧ t.Favours x y := by
  unfold Favours union
  rw [Bool.or_eq_true, Bool.or_eq_true]
  constructor
  · rintro ⟨hpos, hneg⟩
    exact ⟨⟨fun h => hpos (Or.inl h), fun h => hneg (Or.inl h)⟩,
      fun h => hpos (Or.inr h), fun h => hneg (Or.inr h)⟩
  · rintro ⟨⟨hpos, hneg⟩, hpos', hneg'⟩
    exact ⟨fun h => h.elim hpos hpos', fun h => h.elim hneg hneg'⟩

/-- In favour of both polarities there is no change. -/
theorem favours_both : both.Favours x y ↔ x = y := by
  cases x <;> cases y <;> simp [Favours, both]

/-- A change in favour of the flipped polarities becomes, under a negation, one in favour of the
polarities. -/
theorem favours_not (h : s.flip.Favours x y) : s.Favours (!x) (!y) := by
  cases x <;> cases y <;> simp_all [Favours, flip]

/-- Changes in favour of some polarities on both sides of a conjunction are so of the conjunction.
-/
theorem favours_and (h : s.Favours x y) (h' : s.Favours x' y') :
    s.Favours (x && x') (y && y') := by
  simp only [Favours, Bool.and_eq_true] at h h' ⊢
  exact ⟨fun hs hx => ⟨h.1 hs hx.1, h'.1 hs hx.2⟩, fun hs hy => ⟨h.2 hs hy.1, h'.2 hs hy.2⟩⟩

/-- The same holds for the two sides of a disjunction. -/
theorem favours_or (h : s.Favours x y) (h' : s.Favours x' y') :
    s.Favours (x || x') (y || y') := by
  simp only [Favours, Bool.or_eq_true] at h h' ⊢
  exact ⟨fun hs hx => hx.imp (h.1 hs) (h'.1 hs), fun hs hy => hy.imp (h.2 hs) (h'.2 hs)⟩

end Signs

/-! ## Below a connective -/

namespace Connective

variable {s t : Signs} {x y x' y' : Bool}

/-- The polarities of a side of a formula that occurs with the given ones: the left side of an
implication has them the other way round, and both sides of a biconditional have all. -/
def signsBelow : Connective → Step → Signs → Signs
  | .iff, _, _ => .both
  | .implies, .first, s => s.flip
  | _, _, s => s

@[simp]
theorem signsBelow_both (op : Connective) (step : Step) : op.signsBelow step .both = .both := by
  cases op <;> cases step <;> rfl

/-- A formula that occurs with more polarities hands more of them down to its sides. -/
theorem signsBelow_subset (op : Connective) (step : Step) (h : s ⊆ t) :
    op.signsBelow step s ⊆ op.signsBelow step t := by
  cases op with
  | and => exact h
  | or => exact h
  | implies =>
    cases step with
    | first => exact Signs.flip_subset_flip h
    | second => exact h
  | iff => exact Signs.subset_refl _

/-- Changes in favour of the polarities of both sides are in favour of those of the whole. -/
theorem favours_apply (op : Connective) (hl : (op.signsBelow .first s).Favours x y)
    (hr : (op.signsBelow .second s).Favours x' y') : s.Favours (op.apply x x') (op.apply y y') := by
  cases op with
  | and => exact Signs.favours_and hl hr
  | or => exact Signs.favours_or hl hr
  | implies =>
    -- the left side counts with the opposite polarities
    exact Signs.favours_or (Signs.favours_not hl) hr
  | iff =>
    -- below a biconditional nothing may change at all
    rw [Signs.favours_both.mp hl, Signs.favours_both.mp hr]
    exact s.favours_refl _

end Connective

end Propositional
