import Mathlib.Data.Fintype.Pi
import Propositional.Proofs.Enumeration

/-!
# Counting models

The truth table of a formula has one line for every valuation of its letters, and the check by
enumeration counts the lines that are true.  So its numbers are numbers of valuations.

A valuation of the letters that occur in a formula is a function on the finite set of them.  Lines
of the table are compared with such functions: the numbers of two lines have some binary digit in
which they differ, and this digit is the value of a letter.

* `Formula.models`               — the valuations of a formula's atoms that make it true;
* `Assignment.eq_of_row`, `TruthTable.nodup_valuations` — no valuation stands on two lines;
* `TruthTable.countP_lines`      — the true lines are as many as the models;
* `TruthTable.Exact`, `Satisfiability.Exact` — what both analyses promise about a formula;
* `Satisfiability.exact_of_read` — the main result.
-/

namespace Propositional

/-! ## Valuations of the atoms that occur -/

namespace Formula

variable {α : Type} [DecidableEq α]

/-- The valuation of all atoms that has given values on those of a formula; the others are false. -/
def extend (f : Formula α) (v : f.atoms.toFinset → Bool) (a : α) : Bool :=
  if h : a ∈ f.atoms.toFinset then v ⟨a, h⟩ else false

/-- The valuations of a formula's atoms that make the formula true. -/
def models (f : Formula α) : Finset (f.atoms.toFinset → Bool) :=
  Finset.univ.filter fun v => f.eval (f.extend v) = true

/-- A formula has the same value under a valuation and under its part on the formula's atoms. -/
theorem eval_extend (f : Formula α) (v : α → Bool) :
    f.eval (f.extend fun a => v a) = f.eval v := by
  apply eval_congr
  intro a ha
  have hmem : a ∈ f.atoms.toFinset := List.mem_toFinset.mpr ha
  rw [extend, dif_pos hmem]

/-- There are as many letters as there are different atoms. -/
theorem length_letters (f : Formula Letter) : f.letters.length = f.atoms.toFinset.card := by
  have hsame : f.letters.toFinset = f.atoms.toFinset := by
    ext a
    rw [List.mem_toFinset, List.mem_toFinset, mem_letters]
  rw [← hsame, List.toFinset_card_of_nodup f.nodup_letters]

end Formula

/-! ## Rows -/

namespace Assignment

variable {κ : Type} [DecidableEq κ] {names : List κ}

/-- Of `n` names there are `2 ^ n` assignments. -/
theorem length_all (names : List κ) : (all names).length = 2 ^ names.length := by
  rw [all, List.length_map, List.length_range]
  rfl

/-- Two rows with the same values have the same number. -/
theorem eq_of_row (hnodup : names.Nodup) {i j : Nat} (hi : i < 2 ^ names.length)
    (hj : j < 2 ^ names.length)
    (h : ∀ a ∈ names, (row names i).value a = (row names j).value a) : i = j := by
  apply Nat.eq_of_testBit_eq
  intro place
  by_cases hplace : place < names.length
  · have hname := List.getElem?_eq_getElem hplace
    have hvalues := h names[place] (List.getElem_mem hplace)
    rw [value, value, get?_row hnodup hname, get?_row hnodup hname] at hvalues
    exact hvalues
  · -- neither number has a digit as far up as this
    have hle : 2 ^ names.length ≤ 2 ^ place := Nat.pow_le_pow_right (by omega) (by omega)
    rw [Nat.testBit_lt_two_pow (by omega), Nat.testBit_lt_two_pow (by omega)]

end Assignment

namespace TruthTable

variable {f : Formula Letter}

/-! ## Lines and models -/

/-- The values that lines of a table give to the letters of a formula. -/
def valuations (f : Formula Letter) (rows : List Row) : List (f.atoms.toFinset → Bool) :=
  rows.map fun row a => row.assignment.value a

/-- Read as valuations of the atoms, the lines are the numbers below `2 ^ n` in turn. -/
theorem valuations_lines (f : Formula Letter) :
    valuations f (lines f) = (List.range (2 ^ f.letters.length)).map
      fun number (a : f.atoms.toFinset) => (Assignment.row f.letters number).value a := by
  rw [valuations, lines, Assignment.all, List.map_map, List.map_map]
  rfl

/-- No two lines have the same values. -/
theorem nodup_valuations (f : Formula Letter) : (valuations f (lines f)).Nodup := by
  rw [valuations_lines]
  refine List.Nodup.map_on ?_ List.nodup_range
  intro i hi j hj hsame
  refine Assignment.eq_of_row f.nodup_letters (List.mem_range.mp hi) (List.mem_range.mp hj) ?_
  intro a ha
  have hmem : a ∈ f.atoms.toFinset := List.mem_toFinset.mpr (Formula.mem_letters.mp ha)
  exact congrFun hsame ⟨a, hmem⟩

/-- Every valuation of the letters stands on some line. -/
theorem mem_valuations (v : f.atoms.toFinset → Bool) : v ∈ valuations f (lines f) := by
  obtain ⟨row, hrow, hvalues⟩ := exists_line f (f.extend v)
  refine List.mem_map.mpr ⟨row, hrow, ?_⟩
  funext a
  have ha : a.val ∈ f.atoms := List.mem_toFinset.mp a.property
  rw [Assignment.value, hvalues.1 a ha, Option.getD_some, Formula.extend, dif_pos a.property]

/-- The true lines are as many as the models. -/
theorem countP_lines (f : Formula Letter) : (lines f).countP (·.value) = f.models.card := by
  have hvalue : (lines f).countP (·.value) =
      (valuations f (lines f)).countP fun v => f.eval (f.extend v) := by
    rw [valuations, List.countP_map]
    apply List.countP_congr
    intro row hrow
    obtain ⟨s, -, rfl⟩ := List.mem_map.mp hrow
    have hsame : f.eval (f.extend fun a => s.value a) = f.eval s.value := f.eval_extend s.value
    simp [hsame]
  have hmodels : f.models =
      ((valuations f (lines f)).filter fun v => f.eval (f.extend v)).toFinset := by
    ext v
    simp [Formula.models, mem_valuations v]
  rw [hvalue, hmodels, List.countP_eq_length_filter,
    List.toFinset_card_of_nodup ((nodup_valuations f).filter _)]

/-- The value on a line is the value of the formula under the assignment of the line. -/
theorem evaluate_of_mem_lines {row : Row} (hrow : row ∈ lines f) :
    f.evaluate row.assignment.get? = .ok row.value := by
  obtain ⟨s, hs, rfl⟩ := List.mem_map.mp hrow
  apply Formula.evaluate_eq_ok
  intro a ha
  exact Assignment.get?_of_mem_all f.nodup_letters hs (Formula.mem_letters.mpr ha)

/-- There are `2 ^ n` lines for `n` different atoms. -/
theorem length_lines (f : Formula Letter) : (lines f).length = 2 ^ f.atoms.toFinset.card := by
  rw [lines, List.length_map, Assignment.length_all, f.length_letters]

/-- A table that has every valuation of the formula's letters on one line, beside the value that the
formula has under it. -/
structure Exact (f : Formula Letter) (t : TruthTable) : Prop where
  letters : t.letters.Nodup ∧ ∀ a, a ∈ t.letters ↔ a ∈ f.atoms
  length : t.rows.length = 2 ^ f.atoms.toFinset.card
  value : ∀ row ∈ t.rows, f.evaluate row.assignment.get? = .ok row.value
  -- Each valuation stands on a line, and none on two.
  complete : ∀ v, v ∈ valuations f t.rows
  distinct : (valuations f t.rows).Nodup

/-- The table of a formula is exact. -/
theorem exact_lines (text : String) (f : Formula Letter) :
    Exact f ⟨text, f.letters, lines f⟩ where
  letters := ⟨f.nodup_letters, fun _ => Formula.mem_letters⟩
  length := length_lines f
  value := fun _ => evaluate_of_mem_lines
  complete := mem_valuations
  distinct := nodup_valuations f

/-- Every text that is a formula has its truth table. -/
theorem run_analyse {inputs : Inputs} {f : Formula Letter}
    (h : Formula.read inputs.formula.content = .ok f) (threshold : Level) :
    ((analyse inputs).run threshold).2 = .ok ⟨inputs.formulaText, f.letters, lines f⟩ := by
  rw [analyse, Checked.run_note_bind, Checked.run_bind_snd, bind_eq_ok_iff]
  refine ⟨f, (Checked.run_readFormula_eq_ok_iff threshold).mpr h, ?_⟩
  rw [Checked.run_note_bind, Checked.run_ofExcept_bind, rowsFor_eq_ok]
  rfl

end TruthTable

/-! ## Status and model -/

namespace Satisfiability

variable {f : Formula Letter}

/-- The first true line of a table: all lines before it are false. -/
def FirstTrue (rows : List TruthTable.Row) (row : TruthTable.Row) : Prop :=
  ∃ before after, rows = before ++ row :: after ∧ row.value = true ∧
    ∀ other ∈ before, other.value = false

/-- What the check by enumeration promises about a formula and its truth table. -/
structure Exact (f : Formula Letter) (t : TruthTable) (s : Satisfiability) : Prop where
  total : s.total = 2 ^ f.atoms.toFinset.card
  trueCount : s.trueCount = f.models.card
  trueRows : s.trueCount = t.rows.countP (·.value)
  valid : s.status = .valid ↔ ∀ v : Letter → Bool, f.eval v = true
  unsatisfiable : s.status = .unsatisfiable ↔ ∀ v : Letter → Bool, f.eval v = false
  satisfiable : s.status = .satisfiable ↔
    (∃ v : Letter → Bool, f.eval v = true) ∧ ∃ v : Letter → Bool, f.eval v = false
  -- Without a true line there is no model; otherwise it is the one on the first of them.
  noModel : s.model = none ↔ s.status = .unsatisfiable
  model : ∀ m, s.model = some m → f.evaluate m.get? = .ok true ∧
    ∃ row, FirstTrue t.rows row ∧ row.assignment = m

/-- Valid is what holds on all lines. -/
theorem statusOf_eq_valid_iff {trueCount total : Nat} (h : 0 < total) :
    statusOf trueCount total = .valid ↔ trueCount = total := by
  unfold statusOf
  split
  · next hzero =>
    have hne : trueCount ≠ total := by omega
    simp [hne]
  · split <;> simp_all

/-- A formula holds on all lines when it holds under every valuation. -/
theorem forall_line_iff (f : Formula Letter) :
    (∀ row ∈ TruthTable.lines f, row.value = true) ↔ ∀ v : Letter → Bool, f.eval v = true := by
  constructor
  · intro h v
    obtain ⟨row, hrow, -, hvalue⟩ := TruthTable.exists_line f v
    exact hvalue.symm.trans (h row hrow)
  · intro h row hrow
    obtain ⟨s, -, rfl⟩ := List.mem_map.mp hrow
    exact h s.value

theorem status_eq_valid_iff (text : String) (f : Formula Letter) :
    (found text f).status = .valid ↔ ∀ v : Letter → Bool, f.eval v = true := by
  have hpos : 0 < (TruthTable.lines f).length := by
    rw [TruthTable.length_lines]
    exact Nat.two_pow_pos _
  rw [status_found, statusOf_eq_valid_iff hpos, List.countP_eq_length, forall_line_iff]

theorem status_eq_unsatisfiable_iff_forall (text : String) (f : Formula Letter) :
    (found text f).status = .unsatisfiable ↔ ∀ v : Letter → Bool, f.eval v = false := by
  rw [status_eq_unsatisfiable_iff, Formula.Satisfiable, not_exists]
  simp only [Bool.not_eq_true]

/-- A formula that is neither valid nor unsatisfiable is true under some valuations only. -/
theorem status_eq_satisfiable_iff (text : String) (f : Formula Letter) :
    (found text f).status = .satisfiable ↔
      (∃ v : Letter → Bool, f.eval v = true) ∧ ∃ v : Letter → Bool, f.eval v = false := by
  have hvalid := not_congr (status_eq_valid_iff text f)
  have hunsat := not_congr (status_eq_unsatisfiable_iff_forall text f)
  simp only [not_forall, Bool.not_eq_false, Bool.not_eq_true] at hvalid hunsat
  rw [← hvalid, ← hunsat]
  cases (found text f).status <;> simp

/-- There is no model exactly when the formula is unsatisfiable. -/
theorem model_eq_none_iff (text : String) (f : Formula Letter) :
    (found text f).model = none ↔ (found text f).status = .unsatisfiable := by
  rw [status_eq_unsatisfiable_iff, ← TruthTable.exists_line_iff, model_found,
    Option.map_eq_none_iff, List.find?_eq_none]
  simp

theorem firstTrue_of_model {text : String} {m : Assignment Letter}
    (h : (found text f).model = some m) :
    f.evaluate m.get? = .ok true ∧ ∃ row, FirstTrue (TruthTable.lines f) row ∧
      row.assignment = m := by
  rw [model_found] at h
  obtain ⟨row, hfind, rfl⟩ := Option.map_eq_some_iff.mp h
  obtain ⟨htrue, before, after, hsplit, hbefore⟩ := List.find?_eq_some_iff_append.mp hfind
  constructor
  · have hvalue := TruthTable.evaluate_of_mem_lines (List.mem_of_find?_eq_some hfind)
    rwa [htrue] at hvalue
  · refine ⟨row, ⟨before, after, hsplit, htrue, ?_⟩, rfl⟩
    intro other hother
    have hfalse := hbefore other hother
    rwa [Bool.not_eq_true'] at hfalse

/-- What is found by counting agrees with the table. -/
theorem exact_found (text text' : String) (f : Formula Letter) :
    Exact f ⟨text', f.letters, TruthTable.lines f⟩ (found text f) where
  total := (total_found text f).trans (TruthTable.length_lines f)
  trueCount := (trueCount_found text f).trans (TruthTable.countP_lines f)
  trueRows := trueCount_found text f
  valid := status_eq_valid_iff text f
  unsatisfiable := status_eq_unsatisfiable_iff_forall text f
  satisfiable := status_eq_satisfiable_iff text f
  noModel := model_eq_none_iff text f
  model := fun _ => firstTrue_of_model

/-- **Enumeration is exact.**  A text that is a formula has a truth table with one line for every
valuation of its letters, and the check by enumeration answers on it: its numbers are those of
valuations and of models and of the true lines of the table, its status says which of all valuations
make the formula true, and its model is that of the first true line, unless there is none. -/
theorem exact_of_read {inputs others : Inputs} {f : Formula Letter}
    (hread : Formula.read inputs.formula.content = .ok f)
    (hsame : others.formula = inputs.formula) (threshold threshold' : Level) :
    ∃ (t : TruthTable) (s : Satisfiability),
      ((TruthTable.analyse inputs).run threshold).2 = .ok t ∧
      ((analyse others).run threshold').2 = .ok s ∧
      TruthTable.Exact f t ∧ Exact f t s := by
  have hread' : Formula.read others.formula.content = .ok f := hsame ▸ hread
  exact ⟨_, _, TruthTable.run_analyse hread threshold, run_analyse hread' threshold',
    TruthTable.exact_lines _ f, exact_found _ _ f⟩

/-- Three of the eight lines of `(a∨b)∧¬c` are true, and the first of them is the model. -/
theorem exact_of_read_three_letters :
    ∃ (f : Formula Letter) (t : TruthTable) (s : Satisfiability),
      Formula.read "(a∨b)∧¬c" = .ok f ∧
      ((TruthTable.analyse { formula := .text "(a∨b)∧¬c" }).run .error).2 = .ok t ∧
      ((analyse { formula := .text "(a∨b)∧¬c" }).run .debug).2 = .ok s ∧
      s.status = .satisfiable ∧ s.total = 8 ∧ s.trueCount = 3 ∧ t.rows.countP (·.value) = 3 ∧
      ∃ row, FirstTrue t.rows row ∧ s.model = some row.assignment := by
  let a : Letter := ⟨'a', rfl⟩
  let b : Letter := ⟨'b', rfl⟩
  let c : Letter := ⟨'c', rfl⟩
  let f : Formula Letter := .bin .and (.bin .or (.var a) (.var b)) (.neg (.var c))
  have hread : Formula.read "(a∨b)∧¬c" = .ok f := rfl
  obtain ⟨t, s, ht, hs, -, hexact⟩ :=
    @exact_of_read { formula := .text "(a∨b)∧¬c" } { formula := .text "(a∨b)∧¬c" } f hread rfl
      .error .debug
  have hletters : f.atoms.toFinset.card = 3 := by decide
  have hmodels : f.models.card = 3 := by decide +kernel
  have hcount : s.trueCount = 3 := hexact.trueCount.trans hmodels
  have hstatus : s.status = .satisfiable :=
    hexact.satisfiable.mpr ⟨⟨fun d => d = a, by decide⟩, ⟨fun _ => true, by decide⟩⟩
  have hsome : s.model ≠ none := by
    rw [Ne, hexact.noModel, hstatus]
    decide
  obtain ⟨m, hm⟩ := Option.ne_none_iff_exists'.mp hsome
  obtain ⟨-, row, hrow, rfl⟩ := hexact.model m hm
  have htotal : s.total = 2 ^ 3 := hletters ▸ hexact.total
  exact ⟨f, t, s, hread, ht, hs, hstatus, htotal, hcount, hexact.trueRows.symm.trans hcount, row,
    hrow, hm⟩

end Satisfiability

end Propositional
