import Propositional.Proofs.Propagation

/-!
# Stopping at a contradiction, or going on

A propagation either ends with the first step that empties a clause, or it drops emptied clauses
and goes on.  Up to that step nothing tells the two modes apart: they assert the same literals in
the same clauses.

The run that may stop is followed step by step.  While no step empties a clause, the other run takes
the same step and is, by induction, the same run.  A step that empties a clause is the last one
here, and the other run goes on from what this step leaves.

* `run_of_unit?`, `run_step` — a run at a unit literal;
* `outcome_ne_contradiction` — a run that drops emptied clauses reports no contradiction;
* `run_false_eq`             — without a contradiction the runs are equal;
* `run_continues`            — the run that does not stop goes on where the other one has ended;
* `exists_last_emptied`      — a contradiction comes with the first step that empties a clause;
* `modes_agree`              — the main result.
-/

namespace Propositional.UnitPropagation

variable {l : Literal} {clauses : List Clause}

/-! ## Single steps -/

/-- At a unit literal a run takes a step, and whether it ends with this step is read off the clauses
before and after. -/
theorem run_of_unit? {stop : Bool} (h : unit? clauses = some l) :
    run stop clauses =
      let after := survivors l clauses
      let step : Step := ⟨l, clauses, after⟩
      if stop && empties l clauses then ⟨.contradiction, after, [step]⟩
      else if after.isEmpty then ⟨.empty, after, [step]⟩
      else
        let rest := run stop after
        ⟨rest.outcome, rest.clauses, step :: rest.steps⟩ := by
  rw [run]
  split
  · next hnone =>
    rw [h] at hnone
    cases hnone
  · next m hm =>
    obtain rfl : l = m := Option.some.inj (h.symm.trans hm)
    rfl

/-- A run that drops emptied clauses asserts its unit literal and goes on with what this leaves, if
it leaves anything. -/
theorem run_step (h : unit? clauses = some l) :
    (run false clauses).steps =
        ⟨l, clauses, survivors l clauses⟩ :: (run false (survivors l clauses)).steps ∧
      (run false clauses).clauses = (run false (survivors l clauses)).clauses := by
  rw [run_of_unit? h, Bool.false_and, if_neg Bool.false_ne_true]
  split
  · next hempty =>
    -- a run on no clauses at all would be over at once
    rw [List.isEmpty_iff.mp hempty, run_of_unit?_eq_none rfl]
    exact ⟨rfl, rfl⟩
  · exact ⟨rfl, rfl⟩

theorem outcome_ne_contradiction (clauses : List Clause) :
    (run false clauses).outcome ≠ .contradiction := by
  fun_induction run false clauses with
  | case1 clauses _ => simp
  | case2 clauses l _ _ _ hstop => cases hstop
  | case3 clauses l _ _ _ _ _ => simp
  | case4 clauses l _ _ _ _ _ _ ih => exact ih

/-! ## Two runs on the same clauses -/

/-- A run that comes to no contradiction is not affected by the order to stop at one. -/
theorem run_false_eq (h : (run true clauses).outcome ≠ .contradiction) :
    run false clauses = run true clauses := by
  fun_induction run true clauses with
  | case1 clauses hnone => exact run_of_unit?_eq_none hnone
  | case2 clauses l _ _ _ _ => exact absurd rfl h
  | case3 clauses l hunit after step _ hempty =>
    rw [run_of_unit? hunit, Bool.false_and, if_neg Bool.false_ne_true, if_pos hempty]
  | case4 clauses l hunit after step _ hsome rest ih =>
    have hrest : run false after = rest := ih h
    rw [run_of_unit? hunit, Bool.false_and, if_neg Bool.false_ne_true, if_neg hsome, hrest]

/-- Whatever the outcome of a run that may stop, the other run takes its steps and goes on from the
clauses that it leaves. -/
theorem run_continues (clauses : List Clause) :
    (run false clauses).steps =
        (run true clauses).steps ++ (run false (run true clauses).clauses).steps ∧
      (run false clauses).clauses = (run false (run true clauses).clauses).clauses := by
  fun_induction run true clauses with
  | case1 clauses _ => exact ⟨rfl, rfl⟩
  | case2 clauses l hunit after step _ => exact run_step hunit
  | case3 clauses l hunit after step _ _ => exact run_step hunit
  | case4 clauses l hunit after step _ _ rest ih =>
    obtain ⟨hsteps, hclauses⟩ := run_step hunit
    exact ⟨by rw [hsteps, ih.1, List.cons_append], by rw [hclauses, ih.2]⟩

/-- A run stops at the first step that empties a clause. -/
theorem exists_last_emptied (h : (run true clauses).outcome = .contradiction) :
    ∃ earlier s, (run true clauses).steps = earlier ++ [s] ∧ s.emptied = true ∧
      ∀ t ∈ earlier, t.emptied = false := by
  fun_induction run true clauses with
  | case1 clauses _ => cases h
  | case2 clauses l _ after step hstop =>
    have hempties : step.emptied = true := by rwa [Bool.true_and] at hstop
    exact ⟨[], step, rfl, hempties, by simp⟩
  | case3 clauses l _ _ _ _ _ => cases h
  | case4 clauses l _ after step hstop _ rest ih =>
    obtain ⟨earlier, s, hsteps, hs, hearlier⟩ := ih h
    have hempties : step.emptied = false := by simpa [step, Step.emptied] using hstop
    exact ⟨step :: earlier, s, by rw [hsteps, List.cons_append], hs,
      List.forall_mem_cons.mpr ⟨hempties, hearlier⟩⟩

/-- **The two modes agree up to the first contradiction.**  Where a run that is to stop comes to no
contradiction, the run that drops emptied clauses is the same run.  Where it does, its last step is
the first one that empties a clause; its steps and its literals are the first ones of the other run,
which goes on from the clauses that are left and never reports a contradiction. -/
theorem modes_agree (clauses : List Clause) :
    ((run true clauses).outcome ≠ .contradiction → run false clauses = run true clauses) ∧
    ((run true clauses).outcome = .contradiction →
      (run true clauses).steps <+: (run false clauses).steps ∧
      (run true clauses).literals <+: (run false clauses).literals ∧
      (run false clauses).steps =
        (run true clauses).steps ++ (run false (run true clauses).clauses).steps ∧
      ∃ earlier s, (run true clauses).steps = earlier ++ [s] ∧ s.emptied = true ∧
        ∀ t ∈ earlier, t.emptied = false) ∧
    (run false clauses).outcome ≠ .contradiction := by
  have hsteps := (run_continues clauses).1
  have hbegins : (run true clauses).steps <+: (run false clauses).steps := ⟨_, hsteps.symm⟩
  refine ⟨run_false_eq, fun hout => ?_, outcome_ne_contradiction clauses⟩
  exact ⟨hbegins, hbegins.map _, hsteps, exists_last_emptied hout⟩

/-- Clauses of which the second step empties one; clauses of which one is empty from the start, so
that the first step is the last one; and clauses on which a run comes to no contradiction. -/
theorem modes_agree_past_conflict :
    let read := List.map (List.map (Signed.read negationGlyph))
    let conflict := read [["a"], ["¬a", "b"], ["¬b", "¬a"], ["c", "¬b"]]
    let empty := read [["a", "b"], ["¬a"], []]
    let chain := read [["a", "b"], ["¬a"], ["c", "¬b", "d"]]
    (run true conflict).outcome = .contradiction ∧
      (run true conflict).literals.map (·.text) = ["a", "b"] ∧
      (run false conflict).literals.map (·.text) = ["a", "b", "c"] ∧
      (run true conflict).steps <+: (run false conflict).steps ∧
      (run true empty).literals.map (·.text) = ["¬a"] ∧
      (run true empty).literals <+: (run false empty).literals ∧
      run false chain = run true chain := by
  intro read conflict empty chain
  have hconflict : (run true conflict).outcome = .contradiction := by decide +kernel
  have hempty : (run true empty).outcome = .contradiction := by decide +kernel
  have hchain : (run true chain).outcome ≠ .contradiction := by decide +kernel
  obtain ⟨hbegins, -⟩ := (modes_agree conflict).2.1 hconflict
  obtain ⟨-, hliterals, -⟩ := (modes_agree empty).2.1 hempty
  exact ⟨hconflict, by decide +kernel, by decide +kernel, hbegins, by decide +kernel, hliterals,
    (modes_agree chain).1 hchain⟩

end Propositional.UnitPropagation
