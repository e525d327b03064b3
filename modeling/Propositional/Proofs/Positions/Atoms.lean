import Propositional.Proofs.Positions

/-!
# Atoms and where they stand

The atoms of a formula are listed in order of occurrence, and the positions of a formula in
pre-order.  Both go from left to right: along the positions one meets the atoms in their order, so
the first atom with some property is the one that stands to the left of all others with it.

* `Formula.atomAt?`, `Formula.filterMap_atomAt?` — the atoms by their positions, in pre-order;
* `Formula.mem_atoms_iff`            — the atoms are those that stand somewhere;
* `Formula.at?_var_iff`, `Formula.at?_neg_iff`, `Formula.at?_bin_iff` — the positions of an atom, by
  the root of the formula;
* `Formula.IsLeftmost`, `Formula.find?_atoms_eq_some_iff` — the first atom with a property.
-/

namespace Propositional.Formula

variable {α : Type} {f g l r : Formula α} {op : Connective} {a : α} {p : Position} {s : Step}

/-- The atom that stands at a position. -/
def atomAt? (f : Formula α) (p : Position) : Option α :=
  match f.at? p with
  | some (.var a) => some a
  | _ => none

theorem atomAt?_eq_some_iff : f.atomAt? p = some a ↔ f.at? p = some (.var a) := by
  unfold atomAt?
  split
  · next b hb => simp [hb]
  · next hother =>
    constructor
    · intro h
      cases h
    · exact fun h => absurd h (hother a)

/-- Going through the positions in pre-order one meets the atoms from left to right. -/
theorem filterMap_atomAt? (f : Formula α) : f.positions.filterMap f.atomAt? = f.atoms := by
  induction f with
  | var a => rfl
  | const b => rfl
  | neg f ih =>
    -- a negation is no atom, and every other position lies in its operand
    rw [positions, List.filterMap_cons_none rfl, List.filterMap_map, atoms, ← ih]
    rfl
  | bin op l r ihl ihr =>
    rw [positions, List.filterMap_cons_none rfl, List.filterMap_append, List.filterMap_map,
      List.filterMap_map, atoms, ← ihl, ← ihr]
    rfl

/-- The atoms of a formula are those that stand somewhere. -/
theorem mem_atoms_iff : a ∈ f.atoms ↔ ∃ p, f.at? p = some (.var a) := by
  rw [← filterMap_atomAt?, List.mem_filterMap]
  simp only [atomAt?_eq_some_iff]
  constructor
  · rintro ⟨p, -, hp⟩
    exact ⟨p, hp⟩
  · rintro ⟨p, hp⟩
    exact ⟨p, mem_positions.mpr (by rw [hp]; rfl), hp⟩

/-! ## Atoms below a root -/

theorem at?_var_iff {b : α} : (var b).at? p = some (.var a) ↔ p = [] ∧ b = a := by
  cases p with
  | nil => simp [at?]
  | cons s rest => simp [at?_cons_eq_some_iff, child?]

/-- Below a negation the atoms stand where they stand in the operand, one step further down. -/
theorem at?_neg_iff :
    (neg f).at? p = some (.var a) ↔ ∃ q, p = .first :: q ∧ f.at? q = some (.var a) := by
  cases p with
  | nil => simp [at?]
  | cons s rest => cases s <;> simp [at?_cons_eq_some_iff, child?]

/-- Below a connective they stand in the one side or in the other. -/
theorem at?_bin_iff :
    (bin op l r).at? p = some (.var a) ↔
      (∃ q, p = .first :: q ∧ l.at? q = some (.var a)) ∨
        ∃ q, p = .second :: q ∧ r.at? q = some (.var a) := by
  cases p with
  | nil => simp [at?]
  | cons s rest => cases s <;> simp [at?_cons_eq_some_iff, child?]

/-! ## The leftmost atom with a property -/

/-- The atom has the property, and at one of its positions it stands to the left of all other atoms
with the property. -/
def IsLeftmost (f : Formula α) (P : α → Prop) (a : α) : Prop :=
  P a ∧ ∃ p, f.at? p = some (.var a) ∧
    ∀ q b, f.at? q = some (.var b) → P b → q = p ∨ Position.Precedes p q

/-- Going through the atoms from left to right, the first one with a property is the leftmost. -/
theorem find?_atoms_eq_some_iff {P : α → Bool} :
    f.atoms.find? P = some a ↔ f.IsLeftmost (fun b => P b = true) a := by
  rw [← filterMap_atomAt?, List.find?_filterMap, Option.bind_eq_some_iff]
  simp only [find?_eq_some_iff_of_pairwise (fun h => Position.Precedes.asymm h)
    f.pairwise_positions, mem_positions, Option.any_eq_true, atomAt?_eq_some_iff]
  constructor
  · rintro ⟨p, ⟨-, ⟨b, hb, hP⟩, hfirst⟩, hp⟩
    obtain rfl : b = a := by
      rw [hb] at hp
      cases hp
      rfl
    refine ⟨hP, p, hp, fun q c hq hc => hfirst q ?_ ⟨c, hq, hc⟩⟩
    rw [hq]
    rfl
  · rintro ⟨hP, p, hp, hfirst⟩
    refine ⟨p, ⟨by rw [hp]; rfl, ⟨a, hp, hP⟩, ?_⟩, hp⟩
    rintro q - ⟨c, hq, hc⟩
    exact hfirst q c hq hc

end Propositional.Formula
