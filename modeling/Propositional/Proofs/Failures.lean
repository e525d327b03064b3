import Propositional.Analysis
import Propositional.Proofs.Assertions
import Propositional.Proofs.ClauseForm.Fragments
import Propositional.Proofs.Counting
import Propositional.Proofs.Interpretation
import Propositional.Proofs.Positions
import Propositional.Proofs.Tseytin.Order

/-!
# The errors of analyses

An analysis ends without a result only because of what it was given: the formula is none, the
position addresses nothing, an assertion is none, or the formula is not in clause form.  Everything
else that could go wrong on the way is ruled out by an earlier step: a truth table has a value for
every letter, a checked position is there in the annotated tree, and a name is handed out before it
is used.

* `Checked.FailsOnly`  — a computation has no errors but certain ones, with a rule for every way in
  which computations are put together;
* `Analysis.Refusal`   — the errors of an analysis of a kind, and which input they name;
* `Analysis.failsOnly_run` — every analysis has these errors only;
* `PolarityReport.exists_nodeAt`, `TruthTable.isSome_get?_of_run` — look-ups behind a check.
-/

namespace Propositional

/-! ## Computations with certain errors only -/

namespace Checked

variable {α β : Type} {threshold : Level} {p : Error → Prop}

/-- The computation ends with a result, or with an error of which the property holds. -/
def FailsOnly (threshold : Level) (p : Error → Prop) (x : Checked α) : Prop :=
  ∀ e, (x.run threshold).2 = .error e → p e

/-- What follows a step has to be safe for the results of that step only. -/
theorem FailsOnly.bind {x : Checked α} {g : α → Checked β} (hx : FailsOnly threshold p x)
    (hg : ∀ a, (x.run threshold).2 = .ok a → FailsOnly threshold p (g a)) :
    FailsOnly threshold p (x >>= g) := by
  intro e he
  rw [run_bind_snd] at he
  rcases bind_eq_error_iff.mp he with hfirst | ⟨a, ha, hsecond⟩
  · exact hx e hfirst
  · exact hg a ha e hsecond

theorem failsOnly_pure (a : α) : FailsOnly threshold p (pure a : Checked α) := by
  intro e he
  cases he

/-- What is done with a result brings in no error. -/
theorem FailsOnly.map {x : Checked α} (hx : FailsOnly threshold p x) (g : α → β) :
    FailsOnly threshold p (g <$> x) := by
  have hrun : (g <$> x).run threshold = (x >>= fun a => pure (g a)).run threshold := rfl
  intro e he
  rw [hrun] at he
  exact hx.bind (fun a _ => failsOnly_pure (g a)) e he

/-- A function of the result of a computation is a result when that is. -/
theorem run_map_eq_ok_iff {x : Checked α} {g : α → β} {b : β} :
    ((g <$> x).run threshold).2 = .ok b ↔ ∃ a, (x.run threshold).2 = .ok a ∧ g a = b := by
  show ((x >>= fun a => pure (g a)).run threshold).2 = _ ↔ _
  rw [run_bind_snd, bind_eq_ok_iff]
  simp only [run_pure_snd, Except.ok.injEq]

theorem failsOnly_throw {e : Error} (he : p e) : FailsOnly threshold p (throw e : Checked α) := by
  intro e' he'
  cases he'
  exact he

/-- Handing on a result fails with the errors it has. -/
theorem failsOnly_ofExcept {x : Except Error α} (hx : ∀ e, x = .error e → p e) :
    FailsOnly threshold p (ofExcept x) :=
  hx

/-- Writing a message never fails. -/
theorem failsOnly_note (message : String) : FailsOnly threshold p (note message) := by
  intro e he
  cases he

theorem failsOnly_notes (messages : List String) : FailsOnly threshold p (notes messages) := by
  intro e he
  cases he

/-- Reading a formula fails with the reason why the text is none. -/
theorem failsOnly_readFormula (input : Input) (hp : ∀ reason, p (.formula reason)) :
    FailsOnly threshold p (readFormula input) := by
  unfold readFormula
  refine (failsOnly_notes _).bind fun _ _ => ?_
  extract_lets outcome
  clear_value outcome
  cases outcome with
  | ok f => exact (failsOnly_notes _).bind fun _ _ => failsOnly_pure f
  | error reason => exact (failsOnly_notes _).bind fun _ _ => failsOnly_throw (hp reason)

/-- Most analyses begin with a message and go on with the formula. -/
theorem failsOnly_onFormula (message : String) (input : Input) (hp : ∀ reason, p (.formula reason))
    {g : Formula Letter → Checked β} (hg : ∀ f, FailsOnly threshold p (g f)) :
    FailsOnly threshold p (note message >>= fun _ => readFormula input >>= g) :=
  (failsOnly_note message).bind fun _ _ => (failsOnly_readFormula input hp).bind fun f _ => hg f

/-- All analyses end with a message and their result. -/
theorem failsOnly_noted (message : String) (a : α) :
    FailsOnly threshold p (note message >>= fun _ => pure a) :=
  (failsOnly_note message).bind fun _ _ => failsOnly_pure a

end Checked

/-! ## Refusals -/

namespace Analysis

/-- The errors with which an analysis of a kind refuses its inputs. -/
inductive Refusal (inputs : Inputs) : Kind → Error → Prop
  | formula {kind : Kind} (reason : SyntaxError) : Refusal inputs kind (.formula reason)
  | position {kind : Kind} (hkind : kind = .subformula ∨ kind = .polarity) :
      Refusal inputs kind (.position inputs.positionText)
  | interpretation : Refusal inputs .interpretation (.assertion inputs.interpretation)
  -- The interpretation is an assertion, but not about a literal.
  | literal {a : Assertion} (ha : Assertion.read inputs.interpretation = .ok a) :
      Refusal inputs .interpretation (.literal a.body)
  | statement : Refusal inputs .interpretation (.assertion inputs.statement)
  | clause {kind : Kind}
      (hkind : kind = .unitPropagation ∨ kind = .cnfDeterminism ∨ kind = .generalDeterminism)
      (fragment conjunct : String) : Refusal inputs kind (.clause fragment conjunct)

/-- A refusal is about the formula as a text, or about another input or the shape of the formula. -/
theorem Refusal.formula_or_isInput {inputs : Inputs} {kind : Kind} {e : Error}
    (h : Refusal inputs kind e) : (∃ reason, e = .formula reason) ∨ e.isInput = true := by
  cases h with
  | formula reason => exact Or.inl ⟨reason, rfl⟩
  | position | interpretation | literal | statement | clause => exact Or.inr rfl

end Analysis

/-- The type of check among the inputs is one that there is, or there is none. -/
def Inputs.KnownType (inputs : Inputs) : Prop :=
  inputs.checkType.content = "" ∨ inputs.checkType.content = "cnf" ∨
    inputs.checkType.content = "general"

open Checked
open Analysis (Refusal)

variable {threshold : Level} {inputs : Inputs}

/-! ## Enumeration -/

namespace TruthTable

theorem failsOnly_analyse {p : Error → Prop} (hp : ∀ reason, p (.formula reason)) :
    FailsOnly threshold p (analyse inputs) := by
  unfold analyse
  refine failsOnly_onFormula _ _ hp fun f => ?_
  refine (failsOnly_note _).bind fun _ _ =>
    (failsOnly_ofExcept fun e he => ?_).bind fun rows _ => ?_
  · -- an assignment of all letters leaves none without a value
    rw [rowsFor_eq_ok] at he
    cases he
  · exact (failsOnly_notes _).bind fun _ _ => failsOnly_noted _ _

/-- A truth table has a value for each of its letters on each of its lines. -/
theorem isSome_get?_of_run {t : TruthTable} (h : ((analyse inputs).run threshold).2 = .ok t) :
    ∀ row ∈ t.rows, ∀ a ∈ t.letters, (row.assignment.get? a).isSome = true := by
  obtain ⟨f, hf⟩ : ∃ f, Formula.read inputs.formula.content = .ok f := by
    rw [analyse, run_note_bind, run_bind_snd, bind_eq_ok_iff] at h
    obtain ⟨f, hf, -⟩ := h
    exact ⟨f, (run_readFormula_eq_ok_iff threshold).mp hf⟩
  cases (run_analyse hf threshold).symm.trans h
  intro row hrow a ha
  obtain ⟨s, hs, rfl⟩ := List.mem_map.mp hrow
  exact Option.isSome_of_eq_some (Assignment.get?_of_mem_all f.nodup_letters hs ha)

end TruthTable

theorem Satisfiability.failsOnly_analyse {p : Error → Prop} (hp : ∀ reason, p (.formula reason)) :
    FailsOnly threshold p (analyse inputs) := by
  unfold analyse
  refine failsOnly_onFormula _ _ hp fun f => ?_
  refine (failsOnly_ofExcept fun e he => ?_).bind fun tally _ => ?_
  · rw [countAll_eq_ok] at he
    cases he
  · exact failsOnly_noted _ _

/-! ## Positions -/

/-- Looking up a subformula fails with an unreadable formula or a bad position. -/
theorem Subformula.failsOnly_analyse :
    FailsOnly threshold (Refusal inputs .subformula) (analyse inputs) := by
  unfold analyse
  refine failsOnly_onFormula _ _ .formula fun f => ?_
  split
  · exact failsOnly_throw (.position (Or.inl rfl))
  · exact failsOnly_noted _ _

namespace PolarityReport

/-- Where a formula has a sign, its annotated tree has a node. -/
theorem exists_nodeAt {f : Formula Letter} {position : String} {sign : Int}
    (h : f.signAtText (some position) = .ok sign) : ∃ g, nodeAt f.annotated position = .ok g := by
  obtain ⟨p, rfl, hp⟩ := Formula.signAtText_eq_ok_iff.mp h
  obtain ⟨g, hg⟩ := Option.isSome_iff_exists.mp (Formula.signAt?_isSome.mp (by rw [hp]; rfl))
  obtain ⟨sign', -, hthere⟩ := Formula.at?_annotated hg
  have hhere : (f.annotated.at? p).map Annotated.here = some ⟨g, p.text, sign'⟩ := by
    rw [hthere, Option.map_some, Formula.here_annotate]
  exact ⟨g, Formula.nodeAt_text hhere⟩

theorem failsOnly_analyse : FailsOnly threshold (Refusal inputs .polarity) (analyse inputs) := by
  unfold analyse
  refine failsOnly_onFormula _ _ .formula fun f => ?_
  refine (failsOnly_ofExcept fun e he => ?_).bind fun sign hsign => ?_
  · have herror := Formula.signAtText_eq_error fun sign hsign => by
      rw [hsign] at he
      cases he
    cases herror.symm.trans he
    exact .position (Or.inr rfl)
  · refine (failsOnly_ofExcept fun e he => ?_).bind fun g _ => ?_
    · -- the position has been checked
      obtain ⟨g, hg⟩ := exists_nodeAt hsign
      cases hg.symm.trans he
    · exact failsOnly_noted _ _

end PolarityReport

/-! ## Clause form -/

/-- Reading a formula and its clauses fails in two ways. -/
theorem Clause.failsOnly_read {β : Type} {p : Error → Prop} (hp : ∀ reason, p (.formula reason))
    (hclause : ∀ fragment conjunct, p (.clause fragment conjunct)) (input : Input)
    {g : List Clause → Checked β} (hg : ∀ clauses, FailsOnly threshold p (g clauses)) :
    FailsOnly threshold p
      (readFormula input >>= fun f => Checked.ofExcept (allOfFormula f) >>= g) := by
  refine (failsOnly_readFormula input hp).bind fun f _ => ?_
  refine (failsOnly_ofExcept fun e he => ?_).bind fun clauses _ => hg clauses
  obtain ⟨-, conjunct, -, fragment, -, -, -, rfl⟩ := allOfFormula_eq_error_iff.mp he
  exact hclause fragment.text conjunct.text

/-- Unit propagation fails with an unreadable formula or with one that is not in clause form. -/
theorem Propagation.failsOnly_analyse :
    FailsOnly threshold (Refusal inputs .unitPropagation) (analyse inputs) := by
  unfold analyse
  have hclause : ∀ fragment conjunct, Refusal inputs .unitPropagation (.clause fragment conjunct) :=
    .clause (Or.inl rfl)
  refine (failsOnly_note _).bind fun _ _ =>
    Clause.failsOnly_read .formula hclause _ fun clauses => ?_
  exact (failsOnly_note _).bind fun _ _ => (failsOnly_notes _).bind fun _ _ => failsOnly_noted _ _

namespace Determinism

theorem failsOnly_analyseAs {p : Error → Prop} (hp : ∀ reason, p (.formula reason))
    (hclause : ∀ fragment conjunct, p (.clause fragment conjunct)) (variant : Variant) :
    FailsOnly threshold p (analyseAs variant inputs) := by
  unfold analyseAs
  refine (failsOnly_note _).bind fun _ _ => Clause.failsOnly_read hp hclause _ fun clauses => ?_
  exact (failsOnly_notes _).bind fun _ _ => failsOnly_noted _ _

/-- There is a variant for every type that is known. -/
theorem exists_ofType (h : inputs.KnownType) :
    ∃ variant, Variant.ofType inputs.checkType = .ok variant := by
  rcases h with hempty | hcnf | hgeneral
  · exact ⟨.cnf, by rw [Variant.ofType, hempty]; rfl⟩
  · exact ⟨.cnf, by rw [Variant.ofType, hcnf]; rfl⟩
  · exact ⟨.formulaSet, by rw [Variant.ofType, hgeneral]; rfl⟩

theorem failsOnly_analyse (h : inputs.KnownType) :
    FailsOnly threshold (Refusal inputs .cnfDeterminism) (analyse inputs) := by
  unfold analyse
  refine (failsOnly_ofExcept fun e he => ?_).bind fun variant _ =>
    failsOnly_analyseAs .formula (.clause (Or.inr (Or.inl rfl))) variant
  obtain ⟨variant, hvariant⟩ := exists_ofType h
  cases hvariant.symm.trans he

end Determinism

/-! ## Interpretations -/

namespace Interpretation

theorem failsOnly_simplifyUnder {p : Error → Prop} (assignment : Assignment Letter)
    (f : Formula Letter) : FailsOnly threshold p (simplifyUnder assignment f) := by
  intro e he
  rw [run_simplifyUnder] at he
  cases he

theorem failsOnly_analyse :
    FailsOnly threshold (Refusal inputs .interpretation) (analyse inputs) := by
  unfold analyse
  refine (failsOnly_note _).bind fun _ _ =>
    (failsOnly_ofExcept fun e he => ?_).bind fun assignment _ => ?_
  · rcases readInterpretation_eq_error_iff.mp he with ⟨-, rfl⟩ | ⟨a, ha, -, rfl⟩
    · exact .interpretation
    · exact .literal (Assertion.read_eq_ok_iff.mpr ha)
  refine (failsOnly_ofExcept fun e he => ?_).bind fun statement _ => ?_
  · rw [(Assertion.read_eq_error_iff.mp he).2]
    exact .statement
  -- the formula is read, and with what is left of it the body of the statement
  refine (failsOnly_readFormula _ .formula).bind fun f _ => ?_
  refine (failsOnly_simplifyUnder _ _).bind fun simplified _ =>
    (failsOnly_note _).bind fun _ _ => ?_
  refine (failsOnly_readFormula _ .formula).bind fun g _ => ?_
  refine (failsOnly_simplifyUnder _ _).bind fun conclusion _ => ?_
  exact failsOnly_noted _ _

end Interpretation

/-! ## All kinds -/

/-- Beyond an unreadable formula there is nothing at which the analysis of pure atoms fails. -/
theorem PureAtom.failsOnly_analyse {p : Error → Prop} (hp : ∀ reason, p (.formula reason)) :
    FailsOnly threshold p (analyse inputs) := by
  unfold analyse
  refine failsOnly_onFormula _ _ hp fun f => ?_
  exact (failsOnly_note _).bind fun _ _ => (failsOnly_note _).bind fun _ _ => failsOnly_noted _ _

/-- Every definition finds the names it needs, so only unreadable formulas are refused. -/
theorem Tseytin.failsOnly_analyse {p : Error → Prop} (hp : ∀ reason, p (.formula reason)) :
    FailsOnly threshold p (analyse inputs) := by
  unfold analyse
  refine failsOnly_onFormula _ _ hp fun f => ?_
  refine (failsOnly_ofExcept fun e he => ?_).bind fun encoding _ => ?_
  · obtain ⟨encoding, root, hencoding, -⟩ := transform_eq_ok f
    cases hencoding.symm.trans he
  · exact (failsOnly_notes _).bind fun _ _ => failsOnly_noted _ _

/-- A truth table is the result of just one of the analyses. -/
theorem Analysis.run_truthTable {kind : Kind} {t : TruthTable}
    (h : ((run kind inputs).run threshold).2 = .ok (.truthTable t)) :
    ((TruthTable.analyse inputs).run threshold).2 = .ok t := by
  rw [run, run_note_bind] at h
  cases kind <;> obtain ⟨result, hresult, houtcome⟩ := run_map_eq_ok_iff.mp h <;> cases houtcome
  exact hresult

/-- An analysis fails by refusing its inputs. -/
theorem Analysis.failsOnly_run (kind : Kind) (h : inputs.KnownType) :
    FailsOnly threshold (Refusal inputs kind) (run kind inputs) := by
  refine (failsOnly_note _).bind fun _ _ => ?_
  cases kind with
  | truthTable => exact (TruthTable.failsOnly_analyse .formula).map _
  | satisfiability => exact (Satisfiability.failsOnly_analyse .formula).map _
  | subformula => exact Subformula.failsOnly_analyse.map _
  | unitPropagation => exact Propagation.failsOnly_analyse.map _
  | interpretation => exact Interpretation.failsOnly_analyse.map _
  | polarity => exact PolarityReport.failsOnly_analyse.map _
  | cnfDeterminism => exact (Determinism.failsOnly_analyse h).map _
  | pureAtom => exact (PureAtom.failsOnly_analyse .formula).map _
  | generalDeterminism =>
    have hclause : ∀ fragment conjunct,
        Refusal inputs .generalDeterminism (.clause fragment conjunct) :=
      .clause (Or.inr (Or.inr rfl))
    exact (Determinism.failsOnly_analyseAs .formula hclause .general).map _
  | tseytin => exact (Tseytin.failsOnly_analyse .formula).map _

end Propositional
