import Propositional.Proofs.Evaluation
import Propositional.Proofs.Positions.Atoms
import Propositional.TruthTable

/-!
# Evaluation where values are missing

Evaluation looks at both sides of every connective, even when one of them settles the value.  So it
comes across all atoms of the formula, from left to right, and fails at the first one without a
value: it is a search through the atoms in order of occurrence.

* `Formula.evaluate_eq_error_iff` — the atom that is reported, as the result of that search;
* `Formula.pairwise_letters`      — the letters of a formula stand in strictly ascending order;
* `TruthTable.rowOf_eq_error_iff` — the error for one line of a table;
* `Formula.evaluate_by_letters`   — the main result.
-/

namespace Propositional

theorem Letter.before_iff {a b : Letter} : a.before b = true ↔ a.char ≤ b.char := by
  rw [before, decide_eq_true_eq, Char.le_def, UInt32.le_iff_toNat_le]
  rfl

namespace Formula

variable {α : Type} {f : Formula α} {value? : α → Option Bool} {a : α}

/-- Evaluation reports the first atom without a value. -/
theorem evaluate_eq_error_iff :
    f.evaluate value? = .error a ↔ f.atoms.find? (fun b => (value? b).isNone) = some a := by
  induction f generalizing a with
  | var b => cases h : value? b <;> simp [evaluate, atoms, h]
  | const b => simp [evaluate, atoms]
  | neg f ih =>
    rw [atoms, ← ih, evaluate]
    cases f.evaluate value? <;> simp
  | bin op l r ihl ihr =>
    -- the right side is searched when the left one has all its values, whatever they amount to
    rw [atoms, List.find?_append, evaluate]
    cases hl : l.evaluate value? with
    | error b =>
      rw [ihl.mp hl, Option.some_or]
      simp
    | ok x =>
      have hnone : l.atoms.find? (fun b => (value? b).isNone) = none := by
        rw [Option.eq_none_iff_forall_ne_some]
        intro b hb
        rw [ihl.mpr hb] at hl
        cases hl
      rw [hnone, Option.none_or, ← ihr]
      cases r.evaluate value? <;> simp

theorem evaluate_eq_error_iff_isLeftmost :
    f.evaluate value? = .error a ↔ f.IsLeftmost (fun b => value? b = none) a := by
  rw [evaluate_eq_error_iff, find?_atoms_eq_some_iff]
  simp only [Option.isNone_iff_eq_none]

/-- There is an atom to report when some atom has no value. -/
theorem exists_evaluate_eq_error_iff :
    (∃ a, f.evaluate value? = .error a) ↔ ∃ a ∈ f.atoms, value? a = none := by
  simp only [evaluate_eq_error_iff]
  rw [← Option.isSome_iff_exists, List.find?_isSome]
  simp only [Option.isNone_iff_eq_none]

/-! ## Letters -/

/-- The letters of a formula stand in strictly ascending order. -/
theorem pairwise_letters (f : Formula Letter) :
    f.letters.Pairwise fun a b => a.char < b.char := by
  have hsorted : f.letters.Pairwise fun a b => Letter.before a b = true := by
    refine List.pairwise_mergeSort (fun a b c => ?_) (fun a b => ?_) _
    · simp only [Letter.before_iff]
      exact Char.le_trans
    · simp only [Bool.or_eq_true, Letter.before_iff]
      exact Char.le_total a.char b.char
  refine (hsorted.and f.nodup_letters).imp ?_
  rintro a b ⟨hle, hne⟩
  rw [← Char.not_le]
  intro hge
  exact hne (Letter.ext (Char.le_antisymm (Letter.before_iff.mp hle) hge))

end Formula

/-- The line for an assignment fails with the leftmost letter that has no value in it. -/
theorem TruthTable.rowOf_eq_error_iff {f : Formula Letter} {s : Assignment Letter} {e : Error} :
    rowOf f s = .error e ↔
      ∃ a, e = .unassigned a ∧ f.IsLeftmost (fun b => s.get? b = none) a := by
  simp only [← Formula.evaluate_eq_error_iff_isLeftmost, rowOf, Assignment.evaluate]
  cases f.evaluate s.get? <;> simp [eq_comm, bind, Except.bind, pure, Except.pure]

namespace Formula

/-- **Evaluation depends on the letters of a formula and on nothing else.**  These are the letters
that stand somewhere in it, listed in strictly ascending order.  Evaluation fails exactly when one
of them has no value, and reports the one without a value that stands leftmost, whatever the rest of
the formula amounts to.  Partial valuations that agree on them lead to the same result. -/
theorem evaluate_by_letters (f : Formula Letter) :
    (∀ value? : Letter → Option Bool,
      ((∃ a, f.evaluate value? = .error a) ↔ ∃ a ∈ f.letters, value? a = none) ∧
      (∀ a, f.evaluate value? = .error a ↔ f.IsLeftmost (fun b => value? b = none) a) ∧
      ∀ value?' : Letter → Option Bool, (∀ a ∈ f.letters, value? a = value?' a) →
        f.evaluate value? = f.evaluate value?') ∧
    (∀ (s : Assignment Letter) e, TruthTable.rowOf f s = .error e ↔
      ∃ a, e = .unassigned a ∧ f.IsLeftmost (fun b => s.get? b = none) a) ∧
    f.letters.Pairwise (fun a b => a.char < b.char) ∧
    ∀ a, a ∈ f.letters ↔ ∃ p, f.at? p = some (.var a) := by
  refine ⟨fun value? => ⟨?_, fun _ => evaluate_eq_error_iff_isLeftmost, ?_⟩,
    fun _ _ => TruthTable.rowOf_eq_error_iff, f.pairwise_letters, fun a => ?_⟩
  · rw [exists_evaluate_eq_error_iff]
    simp only [mem_letters]
  · intro value?' hagree
    exact evaluate_congr fun a ha => hagree a (mem_letters.mpr ha)
  · rw [mem_letters, mem_atoms_iff]

/-- Of two letters without a value, the one further to the left is reported, although the left side
of the disjunction is true; and a value for a letter that does not occur changes nothing. -/
theorem evaluate_by_letters_settled_side :
    let a : Letter := ⟨'a', rfl⟩
    let b : Letter := ⟨'b', rfl⟩
    let c : Letter := ⟨'c', rfl⟩
    let d : Letter := ⟨'d', rfl⟩
    let f : Formula Letter := .bin .or (.var a) (.bin .and (.neg (.var c)) (.var b))
    let known : Assignment Letter := Table.ofList [(a, true)]
    f.IsLeftmost (fun x => known.get? x = none) c ∧
      TruthTable.rowOf f known = .error (.unassigned c) ∧
      f.evaluate known.get? = f.evaluate (known.insert d false).get? := by
  intro a b c d f known
  obtain ⟨hevaluate, hrow, -⟩ := evaluate_by_letters f
  obtain ⟨-, herror, hagree⟩ := hevaluate known.get?
  have hc : f.IsLeftmost (fun x => known.get? x = none) c := (herror c).mp (by decide +kernel)
  refine ⟨hc, (hrow known _).mpr ⟨c, rfl, hc⟩, hagree _ fun x hx => ?_⟩
  have hne : x ≠ d := by
    rintro rfl
    rw [mem_letters] at hx
    exact absurd hx (by decide)
  rw [Table.get?_insert, if_neg hne]

end Formula

end Propositional
