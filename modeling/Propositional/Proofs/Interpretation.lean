import Propositional.Interpretation
import Propositional.Proofs.Assertions
import Propositional.Proofs.KnownValues
import Propositional.Proofs.Splicing
import Propositional.Proofs.Tables

/-!
# What a tested statement says

A statement is tested by simplifying, splicing, reading again and simplifying again.  The value that
comes out is the truth value of the body in which the placeholder stands for the formula, under
every assignment that extends the interpretation; and without other letters there always is one.

* `Formula.eval_fill`, `Formula.mem_atoms_fill` — a body with a formula filled in;
* `Interpretation.run_analyse_eq_ok_iff` — what a test that answers has read and found;
* `Interpretation.eval_conclusion` — what is reached means what the filled body means;
* `Interpretation.constant?_reached` — without other letters, a constant is reached;
* `Interpretation.value_of_statement` — the answer of the test, in both directions.
-/

namespace Propositional

namespace Formula

variable {s : Formula Letter} {v : Letter → Bool}

/-- In a filled body, the placeholder has the truth value of the formula. -/
theorem eval_fill (body : Template) :
    (fill s body).eval v = body.eval fun a => a.elim (s.eval v) v := by
  induction body with
  | var a => cases a <;> rfl
  | const b => rfl
  | neg f ih => rw [fill, eval, ih, eval]
  | bin op l r ihl ihr => rw [fill, eval, ihl, ihr, eval]

/-- The letters of a filled body are its own and, if the placeholder occurs, those of the
formula. -/
theorem mem_atoms_fill {body : Template} {a : Letter} :
    a ∈ (fill s body).atoms ↔ some a ∈ body.atoms ∨ none ∈ body.atoms ∧ a ∈ s.atoms := by
  induction body with
  | var b => cases b <;> simp [fill, atoms]
  | const b => simp [fill, atoms]
  | neg f ih => exact ih
  | bin op l r ihl ihr =>
    simp only [fill, atoms, List.mem_append, ihl, ihr]
    constructor
    · rintro ((h | h) | (h | h)) <;> simp [h]
    · rintro ((h | h) | ⟨h | h, ha⟩) <;> simp [*]

end Formula

namespace Interpretation

variable {inputs : Inputs} {threshold : Level} {t : Interpretation} {x : Letter} {b : Bool}

/-! ## Steps of the test -/

/-- An interpretation gives one letter a value. -/
theorem exists_of_readInterpretation {input : Input} {assignment : Assignment Letter}
    (h : readInterpretation input = .ok assignment) :
    ∃ x b, assignment = Table.ofList [(x, b)] := by
  obtain ⟨a, negated, x, -, -, rfl⟩ := readInterpretation_eq_ok_iff.mp h
  exact ⟨x, _, rfl⟩

theorem get?_single (a : Letter) :
    (Table.ofList [(x, b)]).get? a = if a = x then some b else none := by
  rw [Table.ofList, List.foldl_cons, List.foldl_nil, Table.get?_insert, Table.get?_empty]

/-- What is reached from a formula under an assignment. -/
def reached (assignment : Assignment Letter) (f : Formula Letter) : Simplification Letter :=
  (f.assign assignment.get?).simplify Formula.defaultPassLimit

theorem run_simplifyUnder (assignment : Assignment Letter) (f : Formula Letter)
    (threshold : Level) :
    ((simplifyUnder assignment f).run threshold).2 = .ok (reached assignment f) := rfl

/-- What a test that answers has read, and what it has found. -/
theorem run_analyse_eq_ok_iff :
    ((analyse inputs).run threshold).2 = .ok t ↔
      ∃ assignment statement f g,
        readInterpretation inputs.interpretation = .ok assignment ∧
        Assertion.read inputs.statement = .ok statement ∧
        Formula.read inputs.formula.content = .ok f ∧
        Formula.read (splice statement.body (reached assignment f).result) = .ok g ∧
        t = ⟨inputs.formulaText, inputs.interpretation.content, inputs.statement.content,
          assignment, statement.holds, reached assignment f,
          splice statement.body (reached assignment f).result, reached assignment g⟩ := by
  rw [analyse, Checked.run_note_bind, Checked.run_ofExcept_bind, bind_eq_ok_iff]
  constructor
  · rintro ⟨assignment, hassignment, h⟩
    -- each step of the analysis has a result, which the next steps use
    rw [Checked.run_ofExcept_bind, bind_eq_ok_iff] at h
    obtain ⟨statement, hstatement, h⟩ := h
    rw [Checked.run_bind_snd, bind_eq_ok_iff] at h
    obtain ⟨f, hf, h⟩ := h
    rw [Checked.run_bind_snd, run_simplifyUnder, bind_eq_ok_iff] at h
    obtain ⟨simplified, hsimplified, h⟩ := h
    cases hsimplified
    rw [Checked.run_note_bind, Checked.run_bind_snd, bind_eq_ok_iff] at h
    obtain ⟨g, hg, h⟩ := h
    rw [Checked.run_bind_snd, run_simplifyUnder, bind_eq_ok_iff] at h
    obtain ⟨conclusion, hconclusion, h⟩ := h
    cases hconclusion
    rw [Checked.run_note_bind, Checked.run_pure_snd] at h
    have hf' := (Checked.run_readFormula_eq_ok_iff threshold).mp hf
    have hg' := (@Checked.run_readFormula_eq_ok_iff (.text _) g threshold).mp hg
    exact ⟨assignment, statement, f, g, hassignment, hstatement, hf', hg',
      (Except.ok.inj h).symm⟩
  · rintro ⟨assignment, statement, f, g, hassignment, hstatement, hf, hg, rfl⟩
    -- with these results the analysis goes through, step by step
    have hf' := (Checked.run_readFormula_eq_ok_iff threshold).mpr hf
    have hg' := (@Checked.run_readFormula_eq_ok_iff (.text _) g threshold).mpr hg
    refine ⟨assignment, hassignment, ?_⟩
    rw [Checked.run_ofExcept_bind, hstatement, bind_eq_ok_iff]
    refine ⟨statement, rfl, ?_⟩
    rw [Checked.run_bind_snd, hf', bind_eq_ok_iff]
    refine ⟨f, rfl, ?_⟩
    rw [Checked.run_bind_snd, run_simplifyUnder, bind_eq_ok_iff]
    refine ⟨reached assignment f, rfl, ?_⟩
    rw [Checked.run_note_bind, Checked.run_bind_snd, bind_eq_ok_iff]
    refine ⟨g, hg', ?_⟩
    rw [Checked.run_bind_snd, run_simplifyUnder, bind_eq_ok_iff]
    refine ⟨reached assignment g, rfl, ?_⟩
    rw [Checked.run_note_bind, Checked.run_pure_snd]

/-! ## The meaning of what is reached -/

/-- Under an assignment that extends the interpretation, what is reached from a formula means what
the formula means. -/
theorem eval_reached {v : Letter → Bool} (hv : v x = b) (f : Formula Letter) :
    (reached (Table.ofList [(x, b)]) f).result.eval v = f.eval v := by
  rw [reached, Formula.eval_simplify, Formula.eval_assign]
  apply Formula.eval_congr
  intro a _
  rw [Formula.settle, get?_single]
  by_cases ha : a = x
  · rw [if_pos ha, ha, hv]
    rfl
  · rw [if_neg ha]
    rfl

/-- What is reached in the end means what the body means with the formula filled in. -/
theorem eval_conclusion {v : Letter → Bool} (hv : v x = b) (f : Formula Letter) (body : Template) :
    (reached (Table.ofList [(x, b)])
      (.fill (reached (Table.ofList [(x, b)]) f).result body)).result.eval v =
      (Formula.fill f body).eval v := by
  rw [eval_reached hv, Formula.eval_fill, eval_reached hv, ← Formula.eval_fill]

/-- Without other letters, simplification reaches a constant. -/
theorem constant?_reached {v : Letter → Bool} (hv : v x = b) {f : Formula Letter}
    (h : ∀ a ∈ f.atoms, a = x) :
    (reached (Table.ofList [(x, b)]) f).result = .const (f.eval v) := by
  have hclosed : (f.assign (Table.ofList [(x, b)]).get?).atoms = [] := by
    rw [List.eq_nil_iff_forall_not_mem]
    intro a ha
    obtain ⟨hmem, hnone⟩ := Formula.mem_atoms_assign.mp ha
    rw [get?_single, if_pos (h a hmem)] at hnone
    cases hnone
  have hlimit : 2 ≤ Formula.defaultPassLimit := by decide
  have hresult := Formula.simplify_of_closed (v := v) hlimit hclosed
  rw [← eval_reached hv, reached, hresult, Formula.eval]

/-! ## The answer -/

/-- **The value of a statement is its truth value.**  Whenever the test answers, its statement has a
body that reads with the placeholder as an atom, and the body with the formula in place of the
placeholder is what the body reads as with the text of the formula in that place.  A value that the
test has found is the truth value of that formula under every assignment of its letters that
extends the interpretation, also when a simplification gave up; so a statement that is valid has the
asserted truth value there.  If formula and body have no other letter than that of the
interpretation, a value is found, and the statement is valid exactly when it has the asserted truth
value. -/
theorem value_of_statement (h : ((analyse inputs).run threshold).2 = .ok t) :
    ∃ (x : Letter) (b : Bool) (f : Formula Letter) (body : String) (template : Template),
      readInterpretation inputs.interpretation = .ok (Table.ofList [(x, b)]) ∧
      t.assignment = Table.ofList [(x, b)] ∧
      Assertion.read inputs.statement = .ok ⟨t.asserted, body⟩ ∧
      Formula.read inputs.formula.content = .ok f ∧
      Formula.read body = .ok template ∧
      Formula.read (splice body f) = .ok (Formula.fill f template) ∧
      (∀ r : Letter → Option Bool, r x = some b →
        (∀ a ∈ (Formula.fill f template).atoms, (r a).isSome = true) →
        (∀ c, t.value = some c → (Formula.fill f template).evaluate r = .ok c) ∧
        (t.isValid = true → (Formula.fill f template).evaluate r = .ok t.asserted)) ∧
      ((∀ a ∈ f.atoms, a = x) → (∀ a, some a ∈ template.atoms → a = x) →
        t.value ≠ none ∧
        (t.isValid = true ↔
          (Formula.fill f template).evaluate t.assignment.get? = .ok t.asserted)) := by
  obtain ⟨assignment, ⟨holds, body⟩, f, g, hassignment, hstatement, hf, hg, ht⟩ :=
    run_analyse_eq_ok_iff.mp h
  obtain ⟨x, b, rfl⟩ := exists_of_readInterpretation hassignment
  have hasserted : t.asserted = holds := by rw [ht]
  have hfixed : t.assignment = Table.ofList [(x, b)] := by rw [ht]
  have hconclusion : t.conclusion = reached (Table.ofList [(x, b)]) g := by rw [ht]
  -- the spliced body was read, so the body itself reads, and the same formula is filled in
  have hspliced := Formula.read_splice body (reached (Table.ofList [(x, b)]) f).result
  rw [hg] at hspliced
  obtain ⟨template, htemplate, rfl⟩ := Option.map_eq_some_iff.mp hspliced.symm
  rw [toOption_eq_some_iff] at htemplate
  have horiginal := Formula.read_splice body f
  rw [htemplate] at horiginal
  refine ⟨x, b, f, body, template, hassignment, hfixed, hasserted ▸ hstatement, hf, htemplate,
    toOption_eq_some_iff.mp horiginal, ?_, ?_⟩
  · intro r hr hcover
    let v : Letter → Bool := fun a => (r a).getD false
    have hv : v x = b := by simp [v, hr]
    have hvalue : ∀ c, t.value = some c → (Formula.fill f template).evaluate r = .ok c := by
      intro c hc
      have hconst := Formula.eq_const_of_constant? hc
      have hmeaning := eval_conclusion hv f template
      rw [← hconclusion, hconst, Formula.eval] at hmeaning
      rw [hmeaning]
      exact Formula.evaluate_of_isSome hcover
    exact ⟨hvalue, fun hvalid => hvalue _ (by simpa [isValid] using hvalid)⟩
  · intro hformula hbody
    let v : Letter → Bool := fun _ => b
    have hv : v x = b := rfl
    have hreached := constant?_reached hv hformula
    -- the filled body has no letters but that of the interpretation
    have hletters : ∀ a ∈ (Formula.fill f template).atoms, a = x := by
      intro a ha
      rcases Formula.mem_atoms_fill.mp ha with htemplate | ⟨-, hmem⟩
      · exact hbody a htemplate
      · exact hformula a hmem
    have hletters' : ∀ a ∈ (Formula.fill (reached (Table.ofList [(x, b)]) f).result
        template).atoms, a = x := by
      intro a ha
      rcases Formula.mem_atoms_fill.mp ha with htemplate | ⟨-, hmem⟩
      · exact hbody a htemplate
      · rw [hreached] at hmem
        cases hmem
    have hvalue : t.value = some ((Formula.fill f template).eval v) := by
      rw [value, hconclusion, constant?_reached hv hletters', ← eval_reached hv,
        eval_conclusion hv]
      rfl
    have hevaluate : (Formula.fill f template).evaluate t.assignment.get? =
        .ok ((Formula.fill f template).eval v) := by
      apply Formula.evaluate_eq_ok
      intro a ha
      rw [hfixed, get?_single, if_pos (hletters a ha)]
    refine ⟨by simp [hvalue], ?_⟩
    rw [isValid, decide_eq_true_eq, hvalue, hevaluate, Option.some.injEq, Except.ok.injEq]

/-- The formula is false under the interpretation, and so is a statement in which it stands
twice. -/
theorem value_of_statement_two_places :
    ∃ (t : Interpretation) (f : Formula Letter) (template : Template),
      ((analyse
        { formula := .text "p∧q"
          interpretation := .text "I⊨¬p"
          statement := .text "I⊭A∨(A↔¬p)∧q" }).run .warning).2 = .ok t ∧
      Formula.read "p∧q" = .ok f ∧ Formula.read "A∨(A↔¬p)∧q" = .ok template ∧
      t.value = some false ∧
      ∀ r : Letter → Option Bool, r ⟨'p', rfl⟩ = some false → (r ⟨'q', rfl⟩).isSome = true →
        (Formula.fill f template).evaluate r = .ok false := by
  let p : Letter := ⟨'p', rfl⟩
  let q : Letter := ⟨'q', rfl⟩
  let f : Formula Letter := .bin .and (.var p) (.var q)
  let template : Template :=
    .bin .or (.var none)
      (.bin .and (.bin .iff (.var none) (.neg (.var (some p)))) (.var (some q)))
  obtain ⟨t, h, hvalue⟩ : ∃ t, ((analyse
      { formula := .text "p∧q"
        interpretation := .text "I⊨¬p"
        statement := .text "I⊭A∨(A↔¬p)∧q" }).run .warning).2 = .ok t ∧ t.value = some false :=
    ⟨_, rfl, rfl⟩
  obtain ⟨x, b, f', body, template', hx, -, hbody, hf, htemplate, -, htruth, -⟩ :=
    value_of_statement h
  -- what the test has read is what the three texts say
  have hread : readInterpretation (.text "I⊨¬p") = .ok (Table.ofList [(p, false)]) := rfl
  have hentries := congrArg Table.entries (Except.ok.inj (hx.symm.trans hread))
  cases hentries
  have hassertion : Assertion.read (.text "I⊭A∨(A↔¬p)∧q") = .ok ⟨false, "A∨(A↔¬p)∧q"⟩ := rfl
  cases congrArg Assertion.body (Except.ok.inj (hbody.symm.trans hassertion))
  have hformula : Formula.read "p∧q" = .ok f := rfl
  cases hf.symm.trans hformula
  have hreadBody : Formula.read "A∨(A↔¬p)∧q" = .ok template := rfl
  cases htemplate.symm.trans hreadBody
  refine ⟨t, f, template, h, hformula, hreadBody, hvalue, fun r hp hq => ?_⟩
  refine (htruth r hp ?_).1 false hvalue
  have hletters : (Formula.fill f template).atoms ⊆ [p, q] := by decide
  intro a ha
  rcases List.mem_cons.mp (hletters ha) with rfl | hmem
  · exact Option.isSome_of_eq_some hp
  · rw [List.mem_singleton.mp hmem]
    exact hq

end Interpretation

end Propositional
