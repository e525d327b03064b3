import Mathlib.Data.Nat.Basic
import Propositional.Proofs.Checked
import Propositional.Proofs.Evaluation
import Propositional.Proofs.Tables
import Propositional.Satisfiability
import Propositional.TruthTable

/-!
# Trying all assignments

Counting through the binary numbers with as many digits as there are names meets every valuation
of the names, so a formula that is true on no line of its truth table is true under no valuation.

* `Assignment.get?_row`   — a name has the digit at its place;
* `Assignment.exists_row` — every valuation of the names is a row;
* `Assignment.evaluate_of_mem_all` — on a row of its letters, a formula has its truth value;
* `TruthTable.rowsFor_eq_ok` — a truth table never misses the value of a letter;
* `TruthTable.exists_line` — every valuation stands on some line;
* `Satisfiability.Tally.Counts`, `Satisfiability.countAll_eq_ok` — what has been counted on the way
  through the assignments, and in the end;
* `Satisfiability.run_analyse`, `Satisfiability.status_eq_unsatisfiable_iff` — the check by
  enumeration always answers, and its answer is right.
-/

namespace Propositional

namespace Assignment

variable {κ : Type} [DecidableEq κ]

/-- The value of a name in an assignment; a name without one counts as false. -/
def value (s : Assignment κ) (a : κ) : Bool :=
  (s.get? a).getD false

/-- The name at place `j` gets digit `j` of the number. -/
theorem get?_row {names : List κ} (hnodup : names.Nodup) {place : Nat} {a : κ}
    (ha : names[place]? = some a) (number : Nat) :
    (row names number).get? a = some (number.testBit place) := by
  have hkeys : ((names.zipIdx.map fun p => (p.1, number.testBit p.2)).map Prod.fst).Nodup := by
    rw [List.map_map]
    show (names.zipIdx.map Prod.fst).Nodup
    rw [List.zipIdx_map_fst]
    exact hnodup
  have hentry : (a, number.testBit place) ∈ names.zipIdx.map fun p => (p.1, number.testBit p.2) :=
    List.mem_map.mpr ⟨(a, place), List.mem_zipIdx_iff_getElem?.mpr ha, rfl⟩
  exact (Table.get?_ofList_eq_some_iff hkeys).mpr hentry

/-- Every valuation of the names is one of the rows. -/
theorem exists_row {names : List κ} (hnodup : names.Nodup) (v : κ → Bool) :
    ∃ s ∈ all names, ∀ a ∈ names, s.get? a = some (v a) := by
  -- the number whose digits are the values of the names
  let digits : Fin names.length → Bool := fun j => v names[j]
  refine ⟨row names (Nat.ofBits digits), ?_, ?_⟩
  · rw [all, List.mem_map]
    exact ⟨_, List.mem_range.mpr (Nat.ofBits_lt_two_pow digits), rfl⟩
  · intro a ha
    obtain ⟨j, hj, rfl⟩ := List.mem_iff_getElem.mp ha
    rw [get?_row hnodup (List.getElem?_eq_getElem hj), Nat.testBit_ofBits_lt digits j hj]
    rfl

/-- A row gives every name a value. -/
theorem get?_of_mem_all {names : List κ} (hnodup : names.Nodup) {s : Assignment κ}
    (hs : s ∈ all names) {a : κ} (ha : a ∈ names) : s.get? a = some (s.value a) := by
  obtain ⟨number, -, rfl⟩ := List.mem_map.mp hs
  obtain ⟨j, hj, rfl⟩ := List.mem_iff_getElem.mp ha
  rw [value, get?_row hnodup (List.getElem?_eq_getElem hj)]
  rfl

/-- A formula has its truth value under every row of its letters: none of them misses a value. -/
theorem evaluate_of_mem_all {f : Formula Letter} {s : Assignment Letter}
    (hs : s ∈ all f.letters) : s.evaluate f = .ok (f.eval s.value) := by
  have hvalue : f.evaluate s.get? = .ok (f.eval s.value) := by
    apply Formula.evaluate_eq_ok
    intro a ha
    exact get?_of_mem_all f.nodup_letters hs (Formula.mem_letters.mpr ha)
  rw [evaluate, hvalue]

end Assignment

/-! ## Truth tables -/

namespace TruthTable

/-- The lines of a formula's truth table: every assignment of its letters, with the truth value
that the formula has under it. -/
def lines (f : Formula Letter) : List Row :=
  (Assignment.all f.letters).map fun s => ⟨s, f.eval s.value⟩

/-- The truth table of a formula is found: none of its letters is without a value. -/
theorem rowsFor_eq_ok (f : Formula Letter) : rowsFor f = .ok (lines f) := by
  rw [rowsFor, rowsOf, mapM_eq_ok_iff, lines, List.forall₂_map_right_iff, List.forall₂_same]
  intro s hs
  rw [rowOf, Assignment.evaluate_of_mem_all hs]
  rfl

/-- Every valuation of the letters stands on some line, beside the value that it gives the
formula. -/
theorem exists_line (f : Formula Letter) (v : Letter → Bool) :
    ∃ row ∈ lines f, (∀ a ∈ f.atoms, row.assignment.get? a = some (v a)) ∧
      row.value = f.eval v := by
  obtain ⟨s, hs, hsv⟩ := Assignment.exists_row f.nodup_letters v
  have hvalues : ∀ a ∈ f.atoms, s.get? a = some (v a) :=
    fun a ha => hsv a (Formula.mem_letters.mpr ha)
  refine ⟨⟨s, f.eval s.value⟩, List.mem_map.mpr ⟨s, hs, rfl⟩, hvalues, ?_⟩
  -- the row has the values of `v` on all letters of the formula
  apply Formula.eval_congr
  intro a ha
  rw [Assignment.value, hvalues a ha, Option.getD_some]

/-- Some line of the truth table is true exactly when the formula is satisfiable. -/
theorem exists_line_iff (f : Formula Letter) :
    (∃ row ∈ lines f, row.value = true) ↔ f.Satisfiable := by
  constructor
  · rintro ⟨row, hrow, htrue⟩
    obtain ⟨s, -, rfl⟩ := List.mem_map.mp hrow
    exact ⟨s.value, htrue⟩
  · rintro ⟨v, hv⟩
    obtain ⟨row, hrow, -, hvalue⟩ := exists_line f v
    exact ⟨row, hrow, hvalue.trans hv⟩

end TruthTable

/-! ## Satisfiability -/

namespace Satisfiability

section Counting

variable {f : Formula Letter} {ss : List (Assignment Letter)} {t : Tally}

/-- What is known of the counts when the given assignments have been counted. -/
structure Tally.Counts (f : Formula Letter) (ss : List (Assignment Letter)) (t : Tally) : Prop where
  total : t.total = ss.length
  trueCount : t.trueCount = ss.countP fun s => f.eval s.value
  model : t.model = ss.find? fun s => f.eval s.value

theorem Tally.counts_start (f : Formula Letter) : Tally.start.Counts f [] :=
  ⟨rfl, rfl, rfl⟩

/-- Counting one more assignment keeps what is known of the counts. -/
theorem Tally.Counts.count (h : t.Counts f ss) (s : Assignment Letter) :
    (t.count s (f.eval s.value)).Counts f (ss ++ [s]) := by
  obtain ⟨htotal, htrue, hmodel⟩ := h
  unfold Tally.count
  cases hs : f.eval s.value with
  | true =>
    refine ⟨by simp [htotal], by simp [htrue, hs], ?_⟩
    -- the new assignment is the first one only where there was none before it
    rw [List.find?_append, ← hmodel, List.find?_singleton, hs]
    cases t.model <;> rfl
  | false => exact ⟨by simp [htotal], by simp [htrue, hs], by simp [hmodel, hs]⟩

/-- From counts of which this is known, the assignments that are left can be counted if the formula
has its truth value under each of them, and then it is known of all assignments. -/
theorem Tally.Counts.exists_foldlM {rest : List (Assignment Letter)}
    (h : t.Counts f ss) (hrest : ∀ s ∈ rest, s.evaluate f = .ok (f.eval s.value)) :
    ∃ t', rest.foldlM (fun t s => return Tally.count t s (← s.evaluate f)) t = Except.ok t' ∧
      t'.Counts f (ss ++ rest) := by
  induction rest generalizing t ss with
  | nil => exact ⟨t, rfl, by rwa [List.append_nil]⟩
  | cons s rest ih =>
    obtain ⟨t', ht', hcounts⟩ := ih (h.count s) fun s' hs' => hrest s' (List.mem_cons_of_mem s hs')
    refine ⟨t', ?_, by rwa [List.append_assoc] at hcounts⟩
    rw [List.foldlM_cons, hrest s List.mem_cons_self]
    exact ht'

/-- The counts of all assignments of a formula's letters. -/
def tally (f : Formula Letter) : Tally :=
  let ss := Assignment.all f.letters
  ⟨ss.length, ss.countP fun s => f.eval s.value, ss.find? fun s => f.eval s.value⟩

/-- All assignments of a formula's letters can be counted. -/
theorem countAll_eq_ok (f : Formula Letter) :
    countAll f (Assignment.all f.letters) = .ok (tally f) := by
  obtain ⟨t, ht, htotal, htrue, hmodel⟩ :=
    (Tally.counts_start f).exists_foldlM fun s hs => Assignment.evaluate_of_mem_all hs
  rw [countAll, ht]
  obtain ⟨total, trueCount, model⟩ := t
  cases htotal
  cases htrue
  cases hmodel
  rfl

end Counting

/-- What the enumeration says about a formula with the given text. -/
def found (text : String) (f : Formula Letter) : Satisfiability :=
  ofTally text (tally f)

/-- The check by enumeration answers on every text that is a formula. -/
theorem run_analyse {inputs : Inputs} {f : Formula Letter}
    (h : Formula.read inputs.formula.content = .ok f) (threshold : Level) :
    ((analyse inputs).run threshold).2 = .ok (found inputs.formulaText f) := by
  rw [analyse, Checked.run_note_bind, Checked.run_bind_snd,
    (Checked.run_readFormula_eq_ok_iff threshold).mpr h]
  show ((Checked.ofExcept (countAll f (Assignment.all f.letters)) >>= _).run threshold).2 = _
  rw [Checked.run_ofExcept_bind, countAll_eq_ok]
  rfl

/-- As many assignments are counted as true as there are true lines. -/
theorem trueCount_found (text : String) (f : Formula Letter) :
    (found text f).trueCount = (TruthTable.lines f).countP (·.value) := by
  rw [TruthTable.lines, List.countP_map]
  rfl

theorem total_found (text : String) (f : Formula Letter) :
    (found text f).total = (TruthTable.lines f).length := by
  rw [TruthTable.lines, List.length_map]
  rfl

/-- The model is the assignment on the first true line. -/
theorem model_found (text : String) (f : Formula Letter) :
    (found text f).model = ((TruthTable.lines f).find? (·.value)).map (·.assignment) := by
  rw [TruthTable.lines, List.find?_map, Option.map_map]
  exact Option.map_id'.symm

theorem status_found (text : String) (f : Formula Letter) :
    (found text f).status =
      statusOf ((TruthTable.lines f).countP (·.value)) (TruthTable.lines f).length := by
  rw [← trueCount_found text f, ← total_found text f]
  rfl

/-- The status is that of an unsatisfiable formula exactly when nothing counts as true. -/
theorem statusOf_eq_unsatisfiable_iff (trueCount total : Nat) :
    statusOf trueCount total = .unsatisfiable ↔ trueCount = 0 := by
  unfold statusOf
  split
  · next h => simp [h]
  · next h => split <;> simp [h]

/-- The check by enumeration calls a formula unsatisfiable exactly when it is. -/
theorem status_eq_unsatisfiable_iff (text : String) (f : Formula Letter) :
    (found text f).status = .unsatisfiable ↔ ¬ f.Satisfiable := by
  rw [status_found, statusOf_eq_unsatisfiable_iff, List.countP_eq_zero,
    ← TruthTable.exists_line_iff]
  simp

end Satisfiability

end Propositional
