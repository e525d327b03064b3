import Propositional.Proofs.Polarity
import Propositional.Proofs.Positions.Atoms
import Propositional.Proofs.PureAtom

/-!
# The polarities of atoms are the signs of their occurrences

The polarities of all atoms are collected in walks through a formula, which hand polarities down
and know no positions.  They are compared with the positions at which an atom stands: its set has
the signs of these positions, and both signs where one of them is below a biconditional.  A walk
goes from left to right, so the atoms are listed in the order of the first positions at which they
stand.

* `Formula.has_signsOf_iff`    — the polarities of an atom are those of its positions;
* `Formula.get?_signs_eq_some_iff`, `Formula.exists_has_signsOf` — every atom of the formula is
  listed, and none with an empty set;
* `Formula.signs_of_occurrences` — the main result.
-/

namespace Propositional.Formula

variable {f : Formula Letter} {a : Letter} {b : Bool} {p : Position} {signs : Signs}

/-! ## The polarities of an atom -/

/-- An atom occurs with the polarities of the positions at which it stands. -/
theorem has_signsOf_iff :
    (f.signsOf signs a).has b = true ↔
      ∃ p, f.at? p = some (.var a) ∧ (f.signsAt signs p).has b = true := by
  induction f generalizing signs with
  | var c =>
    rw [signsOf]
    constructor
    · intro h
      split at h
      · next hac => exact ⟨[], by rw [hac]; rfl, h⟩
      · rw [Signs.has_none] at h
        cases h
    · rintro ⟨p, hp, hb⟩
      obtain ⟨rfl, rfl⟩ := at?_var_iff.mp hp
      rw [if_pos rfl]
      exact hb
  | const c =>
    rw [signsOf, Signs.has_none]
    constructor
    · intro h
      cases h
    · rintro ⟨p, hp, -⟩
      exact absurd (atoms_subset_of_at? hp (List.mem_singleton_self a)) List.not_mem_nil
  | neg f ih =>
    rw [signsOf, ih]
    constructor
    · rintro ⟨q, hq, hb⟩
      exact ⟨.first :: q, at?_neg_iff.mpr ⟨q, rfl, hq⟩, hb⟩
    · rintro ⟨p, hp, hb⟩
      obtain ⟨q, rfl, hq⟩ := at?_neg_iff.mp hp
      exact ⟨q, hq, hb⟩
  | bin op l r ihl ihr =>
    -- an atom occurs in either side, at the positions there with one more step in front
    rw [signsOf_bin, Signs.has_union, Bool.or_eq_true, ihl, ihr]
    constructor
    · rintro (⟨q, hq, hb⟩ | ⟨q, hq, hb⟩)
      · exact ⟨.first :: q, at?_bin_iff.mpr (Or.inl ⟨q, rfl, hq⟩), hb⟩
      · exact ⟨.second :: q, at?_bin_iff.mpr (Or.inr ⟨q, rfl, hq⟩), hb⟩
    · rintro ⟨p, hp, hb⟩
      rcases at?_bin_iff.mp hp with ⟨q, rfl, hq⟩ | ⟨q, rfl, hq⟩
      · exact Or.inl ⟨q, hq, hb⟩
      · exact Or.inr ⟨q, hq, hb⟩

/-- In a whole formula, an occurrence has the polarity of its sign, and both below a
biconditional. -/
theorem has_signsAt_plus_iff {α : Type} {f g : Formula α} (hp : f.at? p = some g) :
    (f.signsAt .plus p).has b = true ↔
      f.signAt? p = some (if b then 1 else -1) ∨ f.BelowIff p := by
  have hthere : (f.at? p).isSome = true := by rw [hp]; rfl
  obtain ⟨sign, hsign⟩ := Option.isSome_iff_exists.mp (signAt?_isSome.mpr hthere)
  by_cases hbelow : f.BelowIff p
  · simp [signsAt_of_belowIff hp hbelow, hbelow]
  · rw [signsAt_eq_under hsign hbelow, hsign]
    rcases signAt?_eq_one_or hsign with rfl | rfl
    · cases b <;> simp [Signs.under, hbelow]
    · cases b <;> simp [Signs.under, hbelow]

theorem get?_signs_eq_some_iff {s : Signs} :
    f.signs.get? a = some s ↔ a ∈ f.atoms ∧ f.signsOf .plus a = s := by
  have hlisted : (f.signs.get? a).isSome = true ↔ a ∈ f.atoms := by
    rw [Table.isSome_get?_iff, keys_signs, List.mem_eraseDups]
  have hsigns := getD_get?_signs f a
  constructor
  · intro h
    rw [h] at hlisted hsigns
    exact ⟨hlisted.mp rfl, hsigns.symm⟩
  · rintro ⟨ha, rfl⟩
    obtain ⟨s, hs⟩ := Option.isSome_iff_exists.mp (hlisted.mpr ha)
    rw [hs, Option.getD_some] at hsigns
    rw [hs, hsigns]

/-- Every atom of a formula occurs with some polarity. -/
theorem exists_has_signsOf (ha : a ∈ f.atoms) : ∃ b, (f.signsOf .plus a).has b = true := by
  obtain ⟨p, hp⟩ := mem_atoms_iff.mp ha
  have hthere : (f.at? p).isSome = true := by rw [hp]; rfl
  obtain ⟨sign, hsign⟩ := Option.isSome_iff_exists.mp (signAt?_isSome.mpr hthere)
  have hfound : ∀ b : Bool, sign = (if b then 1 else -1) → (f.signsOf .plus a).has b = true :=
    fun b hb => has_signsOf_iff.mpr ⟨p, hp, (has_signsAt_plus_iff hp).mpr (Or.inl (hb ▸ hsign))⟩
  rcases signAt?_eq_one_or hsign with h | h
  · exact ⟨true, hfound true h⟩
  · exact ⟨false, hfound false h⟩

/-- **The polarities of an atom are the signs of its occurrences.**  The table of a formula lists
the atoms that stand somewhere in it, each once and in the order of their first positions in
pre-order.  The set of an atom has the positive polarity exactly when the atom stands at a position
of sign one or below a biconditional, and the negative one exactly when it stands at a position of
sign minus one or below a biconditional. -/
theorem signs_of_occurrences (f : Formula Letter) :
    (∀ a, a ∈ f.signs.keys ↔ ∃ p, f.at? p = some (.var a)) ∧
    f.signs.keys.Nodup ∧
    f.signs.keys.Pairwise (fun a b => ∃ p, f.at? p = some (.var a) ∧
      ∀ q, f.at? q = some (.var b) → Position.Precedes p q) ∧
    ∀ a s, f.signs.get? a = some s →
      (s.positive = true ↔ ∃ p, f.at? p = some (.var a) ∧
        (f.signAtText (some p.text) = .ok 1 ∨ f.BelowIff p)) ∧
      (s.negative = true ↔ ∃ p, f.at? p = some (.var a) ∧
        (f.signAtText (some p.text) = .ok (-1) ∨ f.BelowIff p)) := by
  refine ⟨fun a => ?_, f.signs.nodup, ?_, fun a s hs => ?_⟩
  · rw [keys_signs, List.mem_eraseDups, mem_atoms_iff]
  · rw [keys_signs, ← filterMap_atomAt?]
    -- the atoms in the order of their positions, each where it came first
    refine (pairwise_eraseDups_filterMap f.pairwise_positions).imp ?_
    rintro a b ⟨p, -, hp, hfirst⟩
    refine ⟨p, atomAt?_eq_some_iff.mp hp, fun q hq => ?_⟩
    exact hfirst q (mem_positions.mpr (by rw [hq]; rfl)) (atomAt?_eq_some_iff.mpr hq)
  · obtain ⟨-, rfl⟩ := get?_signs_eq_some_iff.mp hs
    -- the two polarities at once
    have hsign : ∀ b, (f.signsOf .plus a).has b = true ↔ ∃ p, f.at? p = some (.var a) ∧
        (f.signAtText (some p.text) = .ok (if b then 1 else -1) ∨ f.BelowIff p) := by
      intro b
      rw [has_signsOf_iff]
      refine exists_congr fun p => and_congr_right fun hp => ?_
      rw [has_signsAt_plus_iff hp, signAtText_text]
    exact ⟨hsign true, hsign false⟩

end Propositional.Formula
