import Propositional.Determinism
import Propositional.Proofs.ClauseForm
import Propositional.Proofs.Enumeration
import Propositional.Proofs.Propagation

/-!
# What unit propagation decides is true

The determinism check answers by unit propagation on clauses, the satisfiability check by trying
all assignments on the formula itself.  Where the first one decides, both agree.

* `Determinism.models_of_classify`, `Determinism.not_models_of_classify` — a deciding verdict on
  clauses is right;
* `Determinism.not_allAssigned_of_stalled` — a run that stalls leaves some name without a value;
* `Determinism.classify_iff_outcome` — a verdict that decides names the outcome of a run;
* `Determinism.verdict_agrees_with_enumeration` — both checks on one text.
-/

namespace Propositional.Determinism

open UnitPropagation

variable {v : String → Bool} {clauses : List Clause}

/-! ## Clauses as sets -/

theorem mem_distinct {d : Clause} : d ∈ distinct clauses ↔ ∃ c ∈ clauses, c.eraseDups = d :=
  List.mem_map

theorem ne_nil_of_mem_distinct (h : ∀ c ∈ clauses, c ≠ []) : ∀ c ∈ distinct clauses, c ≠ [] := by
  intro d hd
  obtain ⟨c, hc, rfl⟩ := mem_distinct.mp hd
  obtain ⟨l, hl⟩ := List.exists_mem_of_ne_nil c (h c hc)
  exact List.ne_nil_of_mem (List.mem_eraseDups.mpr hl)

theorem models_distinct : Models v (distinct clauses) ↔ Models v clauses := by
  have hclause : ∀ c : Clause, SomeHolds v c.eraseDups ↔ SomeHolds v c := fun c =>
    someHolds_congr fun l => List.mem_eraseDups
  rw [distinct, Models, List.forall_mem_map]
  simp only [hclause]
  rfl

theorem plain_distinct (h : ∀ c ∈ clauses, ∀ l ∈ c, l.Plain) :
    ∀ c ∈ distinct clauses, ∀ l ∈ c, l.Plain := by
  intro d hd l hl
  obtain ⟨c, hc, rfl⟩ := mem_distinct.mp hd
  exact h c hc l (List.mem_eraseDups.mp hl)

/-! ## The deciding run -/

/-- A verdict rests on a run with at least one step. -/
theorem decidingRun_eq_some_iff {r : Run} :
    decidingRun clauses = some r ↔
      unit? (distinct clauses) ≠ none ∧ run true (distinct clauses) = r := by
  have hunit : ((distinct clauses).any fun c => c.length = 1) = true ↔
      unit? (distinct clauses) ≠ none := by
    rw [Ne, unit?_eq_none_iff, List.any_eq_true]
    simp
  unfold decidingRun
  split
  · next h => simp [hunit.mp h]
  · next h => simp [not_not.mp (fun hne => h (hunit.mpr hne))]

theorem decidingRun_eq_none_iff : decidingRun clauses = none ↔ unit? (distinct clauses) = none := by
  rw [← not_iff_not, ← Ne, Option.ne_none_iff_exists']
  simp [decidingRun_eq_some_iff]

/-- A run that stalls leaves some name without a value: what remains are clauses with literals in
them, and none of these has been asserted. -/
theorem not_allAssigned_of_stalled {r : Run} (h : decidingRun clauses = some r)
    (hstalled : r.outcome = .stalled) : allAssigned (distinct clauses) r = false := by
  obtain ⟨hunit, rfl⟩ := decidingRun_eq_some_iff.mp h
  have hcourse := run_course true (distinct clauses)
  obtain ⟨hsome, hne⟩ := rest_of_stalled hstalled (Or.inl hunit)
  -- take any literal that is left over: its name occurs in the clauses and was not asserted
  obtain ⟨c, hc⟩ := List.exists_mem_of_ne_nil _ hsome
  obtain ⟨m, hm⟩ := List.exists_mem_of_ne_nil _ (hne c hc)
  rw [allAssigned, List.all_eq_false]
  refine ⟨m.name, ?_, ?_⟩
  · obtain ⟨d, hd, hmd⟩ := hcourse.mem_of_mem.2 c hc m hm
    rw [Clause.names, List.mem_eraseDups]
    exact List.mem_map.mpr ⟨m, List.mem_flatten.mpr ⟨d, hd, hmd⟩, rfl⟩
  · rw [has_assignments_iff]
    rintro ⟨l, hl, hname⟩
    obtain ⟨s, hs, rfl⟩ := List.mem_map.mp hl
    exact hcourse.name_ne s hs c hc m hm hname.symm

/-- The verdict in terms of how the deciding run ended. -/
theorem classify_eq_of_decidingRun {r : Run} (h : decidingRun clauses = some r) :
    classify clauses = match r.outcome with
      | .empty => .satisfiable
      | .contradiction => .unsatisfiable
      | .stalled => .undetermined := by
  rw [classify, h]
  show verdictOf (distinct clauses) r = _
  unfold verdictOf
  cases hout : r.outcome with
  | empty => rfl
  | contradiction => rfl
  | stalled => simp [not_allAssigned_of_stalled h hout]

/-- A verdict that decides names the outcome of a run on the clauses as sets. -/
theorem classify_iff_outcome :
    (classify clauses = .satisfiable ↔ (run true (distinct clauses)).outcome = .empty) ∧
      (classify clauses = .unsatisfiable ↔
        (run true (distinct clauses)).outcome = .contradiction) := by
  cases hrun : decidingRun clauses with
  | none =>
    -- a run without a unit clause stalls at once
    rw [classify, hrun, run_of_unit?_eq_none (decidingRun_eq_none_iff.mp hrun)]
    simp
  | some r =>
    obtain ⟨-, rfl⟩ := decidingRun_eq_some_iff.mp hrun
    rw [classify_eq_of_decidingRun hrun]
    cases (run true (distinct clauses)).outcome <;> simp

/-- Clauses that are called satisfiable have a model: with nothing left, every valuation that agrees
with the recorded values is one. -/
theorem models_of_classify (hplain : ∀ c ∈ clauses, ∀ l ∈ c, l.Plain)
    (h : classify clauses = .satisfiable) : ∃ v : String → Bool, Models v clauses := by
  have hout := classify_iff_outcome.1.mp h
  have hmodels := (models_iff_of_empty (plain_distinct hplain) hout).mpr
    (Run.agrees_completion _ false)
  exact ⟨_, models_distinct.mp hmodels⟩

/-- Clauses that are called unsatisfiable have no model: some step emptied a clause. -/
theorem not_models_of_classify (hplain : ∀ c ∈ clauses, ∀ l ∈ c, l.Plain)
    (h : classify clauses = .unsatisfiable) : ¬ ∃ v : String → Bool, Models v clauses := by
  rintro ⟨v, hv⟩
  exact not_models_of_contradiction (plain_distinct hplain) (classify_iff_outcome.2.mp h)
    ⟨v, models_distinct.mpr hv⟩

/-! ## Both checks on one text -/

/-- What an accepted determinism check has read and found. -/
theorem run_analyseAs_eq_ok_iff {variant : Variant} {inputs : Inputs} {threshold : Level}
    {d : Determinism} :
    ((analyseAs variant inputs).run threshold).2 = .ok d ↔
      ∃ f clauses, Formula.read inputs.formula.content = .ok f ∧
        Clause.allOfFormula f = .ok clauses ∧
        d = ⟨inputs.formulaText, variant, classify clauses⟩ := by
  rw [analyseAs, Checked.run_note_bind, Checked.run_bind_snd, bind_eq_ok_iff]
  constructor
  · rintro ⟨f, hf, h⟩
    rw [Checked.run_ofExcept_bind, bind_eq_ok_iff] at h
    obtain ⟨clauses, hclauses, h⟩ := h
    rw [Checked.run_notes_bind, Checked.run_note_bind, Checked.run_pure_snd] at h
    exact ⟨f, clauses, (Checked.run_readFormula_eq_ok_iff threshold).mp hf, hclauses,
      (Except.ok.inj h).symm⟩
  · rintro ⟨f, clauses, hf, hclauses, rfl⟩
    refine ⟨f, (Checked.run_readFormula_eq_ok_iff threshold).mpr hf, ?_⟩
    rw [Checked.run_ofExcept_bind, hclauses]
    rfl

/-- The check in the variant of its type is the check in some variant. -/
theorem run_analyse_eq_ok {inputs : Inputs} {threshold : Level} {d : Determinism}
    (h : ((analyse inputs).run threshold).2 = .ok d) :
    ∃ variant, ((analyseAs variant inputs).run threshold).2 = .ok d := by
  rw [analyse, Checked.run_ofExcept_bind, bind_eq_ok_iff] at h
  obtain ⟨variant, -, h⟩ := h
  exact ⟨variant, h⟩

/-- **The verdict agrees with trying all assignments.**  Whenever the determinism check accepts a
text, in a forced variant or in the one that its inputs ask for, the satisfiability check answers
on the same text, and a verdict that decides is the answer it gives. -/
theorem verdict_agrees_with_enumeration {forced : Option Variant} {inputs others : Inputs}
    {threshold threshold' : Level} {d : Determinism}
    (haccept : ((forced.elim (analyse inputs) fun variant => analyseAs variant inputs).run
      threshold).2 = .ok d)
    (hsame : others.formula = inputs.formula) :
    ∃ s : Satisfiability, ((Satisfiability.analyse others).run threshold').2 = .ok s ∧
      (d.verdict = .satisfiable → s.status = .satisfiable ∨ s.status = .valid) ∧
      (d.verdict = .unsatisfiable → s.status = .unsatisfiable) := by
  obtain ⟨variant, hrun⟩ : ∃ variant, ((analyseAs variant inputs).run threshold).2 = .ok d := by
    cases forced with
    | none => exact run_analyse_eq_ok haccept
    | some variant => exact ⟨variant, haccept⟩
  obtain ⟨f, clauses, hf, hclauses, rfl⟩ := run_analyseAs_eq_ok_iff.mp hrun
  have hplain := Clause.plain_allOfFormula hclauses
  -- both checks have read the same formula, and clauses and formula have the same models
  refine ⟨_, Satisfiability.run_analyse (hsame ▸ hf) threshold', ?_, ?_⟩
  · intro hverdict
    have hsat := (Clause.satisfiable_iff hclauses).mpr (models_of_classify hplain hverdict)
    have hstatus : (Satisfiability.found others.formulaText f).status ≠ .unsatisfiable :=
      fun h => (Satisfiability.status_eq_unsatisfiable_iff _ f).mp h hsat
    cases hs : (Satisfiability.found others.formulaText f).status with
    | unsatisfiable => exact absurd hs hstatus
    | satisfiable => exact Or.inl rfl
    | valid => exact Or.inr rfl
  · intro hverdict
    rw [Satisfiability.status_eq_unsatisfiable_iff, Clause.satisfiable_iff hclauses]
    exact not_models_of_classify hplain hverdict

/-- Two unit clauses against a third clause: both checks find that nothing makes them all true. -/
theorem verdict_agrees_on_conflict :
    ((analyseAs .general { formula := .text "(a∨b)∧¬a∧¬b" }).run .error).2 =
        .ok ⟨"(a∨b)∧¬a∧¬b", .general, .unsatisfiable⟩ ∧
      ∃ s : Satisfiability,
        ((Satisfiability.analyse { formula := .text "(a∨b)∧¬a∧¬b" }).run .debug).2 = .ok s ∧
          s.status = .unsatisfiable := by
  let a : Letter := ⟨'a', rfl⟩
  let b : Letter := ⟨'b', rfl⟩
  let f : Formula Letter :=
    .bin .and (.bin .and (.bin .or (.var a) (.var b)) (.neg (.var a))) (.neg (.var b))
  let clauses : List Clause := [[Literal.ofLetter a, Literal.ofLetter b],
    [Signed.negative negationGlyph a.name], [Signed.negative negationGlyph b.name]]
  have hverdict : classify clauses = .unsatisfiable := by decide +kernel
  have haccept : ((analyseAs .general { formula := .text "(a∨b)∧¬a∧¬b" }).run .error).2 =
      .ok ⟨"(a∨b)∧¬a∧¬b", .general, .unsatisfiable⟩ :=
    run_analyseAs_eq_ok_iff.mpr ⟨f, clauses, rfl, rfl, by rw [hverdict]; rfl⟩
  obtain ⟨s, hs, -, hunsat⟩ :=
    @verdict_agrees_with_enumeration (some .general) _ _ .error .debug _ haccept rfl
  exact ⟨haccept, s, hs, hunsat rfl⟩

end Propositional.Determinism
