import Propositional.Formula.Evaluation
import Propositional.Proofs.Lists

/-!
# Truth values under partial valuations

`Formula.evaluate` works with a partial valuation and may miss an atom, `Formula.eval` works with
a valuation of all atoms.  On a partial valuation that covers the formula they agree.

* `Formula.evaluate_eq_ok`, `Formula.evaluate_of_isSome` — a covered formula has its truth value;
* `Formula.evaluate_congr`, `Formula.eval_congr` — only the atoms of a formula matter;
* `Formula.Satisfiable` — some valuation makes the formula true;
* `Formula.mem_collect`, `Formula.nodup_collect` — what working off a stack of formulas finds;
* `Formula.mem_letters`, `Formula.nodup_letters` — the letters of a formula, each once.
-/

namespace Propositional.Formula

variable {α : Type}

/-- A partial valuation that has the values of `v` on the atoms of a formula gives the formula the
truth value that `v` gives it. -/
theorem evaluate_eq_ok {f : Formula α} {value? : α → Option Bool} {v : α → Bool}
    (h : ∀ a ∈ f.atoms, value? a = some (v a)) : f.evaluate value? = .ok (f.eval v) := by
  induction f with
  | var a => rw [evaluate, h a (by simp [atoms]), eval]
  | const b => rfl
  | neg f ih => rw [evaluate, ih h, eval]
  | bin op l r ihl ihr =>
    have hl := ihl fun a ha => h a (List.mem_append_left _ ha)
    have hr := ihr fun a ha => h a (List.mem_append_right _ ha)
    rw [evaluate, hl, hr, eval]

theorem eq_some_getD {o : Option Bool} (h : o.isSome = true) : o = some (o.getD false) := by
  obtain ⟨b, rfl⟩ := Option.isSome_iff_exists.mp h
  rfl

/-- A partial valuation that has a value for every atom of a formula gives the formula a truth
value, and whatever it says of other atoms does not matter. -/
theorem evaluate_of_isSome {f : Formula α} {value? : α → Option Bool}
    (h : ∀ a ∈ f.atoms, (value? a).isSome = true) :
    f.evaluate value? = .ok (f.eval fun a => (value? a).getD false) :=
  evaluate_eq_ok fun a ha => eq_some_getD (h a ha)

/-- Partial valuations that agree on the atoms of a formula give it the same truth value, or the
same atom is reported. -/
theorem evaluate_congr {f : Formula α} {value? value?' : α → Option Bool}
    (h : ∀ a ∈ f.atoms, value? a = value?' a) : f.evaluate value? = f.evaluate value?' := by
  induction f with
  | var a => rw [evaluate, evaluate, h a (List.mem_singleton_self a)]
  | const b => rfl
  | neg f ih => rw [evaluate, evaluate, ih h]
  | bin op l r ihl ihr =>
    have hl := ihl fun a ha => h a (List.mem_append_left _ ha)
    have hr := ihr fun a ha => h a (List.mem_append_right _ ha)
    rw [evaluate, evaluate, hl, hr]

/-- Two valuations that agree on the atoms of a formula give it the same truth value. -/
theorem eval_congr {f : Formula α} {v w : α → Bool} (h : ∀ a ∈ f.atoms, v a = w a) :
    f.eval v = f.eval w := by
  have hv : f.evaluate (fun a => some (v a)) = .ok (f.eval v) := evaluate_eq_ok fun _ _ => rfl
  have hw : f.evaluate (fun a => some (w a)) = .ok (f.eval w) := evaluate_eq_ok fun _ _ => rfl
  rw [evaluate_congr fun a ha => congrArg some (h a ha), hw] at hv
  exact (Except.ok.inj hv).symm

/-- Some valuation of the atoms makes the formula true. -/
def Satisfiable (f : Formula α) : Prop :=
  ∃ v : α → Bool, f.eval v = true

/-! ## Letters -/

variable {f : Formula Letter} {met : List Letter} {stack : List (Formula Letter)} {a : Letter}

/-- The letters of a formula are the formula itself, if it is one, and those of its children. -/
theorem mem_atoms_iff_children {α : Type} {f : Formula α} {a : α} :
    a ∈ f.atoms ↔ f = .var a ∨ ∃ g ∈ f.children, a ∈ g.atoms := by
  cases f <;> simp [atoms, children, eq_comm]

theorem mem_meet : a ∈ meet met f ↔ a ∈ met ∨ f = .var a := by
  cases f <;> simp [meet, or_comm, eq_comm]

theorem nodup_meet (h : met.Nodup) : (meet met f).Nodup := by
  cases f with
  | var a => exact h.insert
  | const b => exact h
  | neg g => exact h
  | bin op l r => exact h

/-- The invariant of working off a stack: the letters that are found in the end are those met so far
and those of the formulas that are still on the stack. -/
theorem mem_collect :
    a ∈ collect met stack ↔ a ∈ met ∨ ∃ f ∈ stack, a ∈ f.atoms := by
  fun_induction collect met stack with
  | case1 met => simp
  | case2 met f rest ih =>
    -- what is on the top is met, and what is below it goes onto the stack
    rw [ih, mem_meet, List.exists_mem_cons_iff, mem_atoms_iff_children (f := f)]
    simp only [List.mem_append, List.mem_reverse, or_and_right, exists_or, or_assoc]

theorem nodup_collect (h : met.Nodup) : (collect met stack).Nodup := by
  fun_induction collect met stack with
  | case1 met => exact h
  | case2 met f rest ih => exact ih (nodup_meet h)

/-- The letters of a formula are those that occur in it. -/
@[simp]
theorem mem_letters : a ∈ f.letters ↔ a ∈ f.atoms := by
  rw [letters, List.mem_mergeSort, mem_collect]
  simp

/-- No letter is listed twice. -/
theorem nodup_letters (f : Formula Letter) : f.letters.Nodup := by
  rw [letters, (List.mergeSort_perm _ _).nodup_iff]
  exact nodup_collect List.nodup_nil

end Propositional.Formula
