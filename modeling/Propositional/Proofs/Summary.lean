import Propositional.Analysis.Summary
import Propositional.Proofs.Lists

/-!
# What summaries tell

The lines for a reader, said without the functions that write them: in what words and marks each
type of result is told, and from which of its parts the words are made.

* `Summary.Marks`, `Summary.IsTableLine`, `Summary.TellsRow` — the lines of a truth table;
* `Summary.Tells`     — the lines that tell an outcome;
* `Summary.tells_iff` — a summary has these lines and no others;
* `Summary.exists_ofTruthTable` — a table with a value for each letter on each line has a summary.
-/

namespace Propositional.Summary

open Analysis (Outcome)

/-! ## Tables -/

/-- Truth values are marked with capital letters. -/
inductive Marks : Bool → String → Prop
  | isTrue : Marks true "T"
  | isFalse : Marks false "F"

/-- A line of a table: cells with a blank behind each, and behind a bar what belongs to all of
them. -/
inductive IsTableLine (last : String) : List String → String → Prop
  | bar : IsTableLine last [] ("│ " ++ last)
  | cell {cells : List String} {line : String} (cell : String) (h : IsTableLine last cells line) :
      IsTableLine last (cell :: cells) (cell ++ " " ++ line)

/-- The line for an assignment: the marks of its values for the letters, and that of the formula's
value. -/
def TellsRow (letters : List Letter) (row : TruthTable.Row) (line : String) : Prop :=
  ∃ cells last, List.Forall₂ (fun a cell => ∃ b, row.assignment.get? a = some b ∧ Marks b cell)
    letters cells ∧ Marks row.value last ∧ IsTableLine last cells line

/-- The marks are those that are written. -/
theorem marks_iff {b : Bool} {m : String} : Marks b m ↔ m = mark b := by
  constructor
  · rintro (_ | _) <;> rfl
  · rintro rfl
    cases b
    · exact .isFalse
    · exact .isTrue

/-- The written line is a line of a table, and no other text is. -/
theorem isTableLine_iff {last line : String} {cells : List String} :
    IsTableLine last cells line ↔ line = tableLine cells last := by
  -- a blank stands behind every cell, also behind the last one
  have hcons : ∀ cell cells, tableLine (cell :: cells) last =
      cell ++ " " ++ tableLine cells last := by
    intro cell cells
    cases cells <;> simp [tableLine, String.append_assoc]
  constructor
  · intro h
    induction h with
    | bar => rfl
    | cell cell h ih => rw [hcons, ih]
  · rintro rfl
    induction cells with
    | nil => exact .bar
    | cons cell cells ih =>
      rw [hcons]
      exact .cell cell ih

/-- A cell is written exactly for a letter with a value, as the mark of the value. -/
theorem cellOf_eq_ok_iff {s : Assignment Letter} {a : Letter} {cell : String} :
    cellOf s a = .ok cell ↔ ∃ b, s.get? a = some b ∧ Marks b cell := by
  unfold cellOf
  cases s.get? a with
  | none => simp
  | some b => simp [marks_iff, eq_comm]

/-- A line is written exactly for a row with a value for each letter. -/
theorem rowLine_eq_ok_iff {letters : List Letter} {row : TruthTable.Row} {line : String} :
    rowLine letters row = .ok line ↔ TellsRow letters row line := by
  rw [rowLine, bind_eq_ok_iff]
  simp only [mapM_eq_ok_iff, cellOf_eq_ok_iff, TellsRow]
  refine exists_congr fun cells => ?_
  constructor
  · rintro ⟨hcells, hline⟩
    cases hline
    exact ⟨mark row.value, hcells, marks_iff.mpr rfl, isTableLine_iff.mpr rfl⟩
  · rintro ⟨last, hcells, hlast, hline⟩
    rw [isTableLine_iff.mp hline, marks_iff.mp hlast]
    exact ⟨hcells, rfl⟩

/-- A table with a value for each of its letters on each of its lines has a summary. -/
theorem exists_ofTruthTable {t : TruthTable}
    (h : ∀ row ∈ t.rows, ∀ a ∈ t.letters, (row.assignment.get? a).isSome = true) :
    ∃ lines, ofTruthTable t = .ok lines := by
  have hcell : ∀ row ∈ t.rows, ∀ a ∈ t.letters, ∃ cell, cellOf row.assignment a = .ok cell := by
    intro row hrow a ha
    obtain ⟨b, hb⟩ := Option.isSome_iff_exists.mp (h row hrow a ha)
    exact ⟨mark b, by rw [cellOf, hb]⟩
  have hline : ∀ row ∈ t.rows, ∃ line, rowLine t.letters row = .ok line := by
    intro row hrow
    obtain ⟨cells, hcells⟩ := exists_mapM_eq_ok (hcell row hrow)
    exact ⟨_, bind_eq_ok_iff.mpr ⟨cells, hcells, rfl⟩⟩
  obtain ⟨rows, hrows⟩ := exists_mapM_eq_ok hline
  exact ⟨_, bind_eq_ok_iff.mpr ⟨rows, hrows, rfl⟩⟩

/-! ## Outcomes -/

/-- The words for the three statuses. -/
def statusWords : List (Satisfiability.Status × String) :=
  [(.unsatisfiable, "unsatisfiable"), (.satisfiable, "satisfiable"), (.valid, "valid")]

/-- The words for the polarities. -/
def polarityWords : List (Polarity × String) :=
  [(.positive, "positive"), (.negative, "negative"), (.mixed, "mixed")]

/-- The lines that tell a reader the outcome of an analysis. -/
inductive Tells : Outcome → List String → Prop
  -- A heading with the letters and the formula, then a line for each assignment.
  | truthTable {t : TruthTable} {heading : String} {rows : List String}
      (hheading : IsTableLine t.formula (t.letters.map Letter.name) heading)
      (hrows : List.Forall₂ (TellsRow t.letters) t.rows rows) :
      Tells (.truthTable t) (heading :: rows)
  -- The status, and the first model if there is one.
  | noModel {s : Satisfiability} {word : String} (hword : (s.status, word) ∈ statusWords)
      (hmodel : s.model = none) :
      Tells (.satisfiability s)
        ["Status: " ++ word ++ " (" ++ toString s.trueCount ++ "/" ++ toString s.total ++ ")"]
  | model {s : Satisfiability} {word : String} {m : Assignment Letter}
      (hword : (s.status, word) ∈ statusWords) (hmodel : s.model = some m) :
      Tells (.satisfiability s)
        ["Status: " ++ word ++ " (" ++ toString s.trueCount ++ "/" ++ toString s.total ++ ")",
          "First model: " ++ ", ".intercalate
            (m.entries.map fun (a, b) => a.name ++ if b then "=T" else "=F")]
  | subformula (s : Subformula) :
      Tells (.subformula s) ["Subformula at " ++ s.position ++ ": " ++ s.subformula.text]
  -- The steps with the clauses before and after them, and what is left.
  | propagation (p : Propagation) :
      Tells (.unitPropagation p)
        ((p.run.steps.map fun step =>
          "Propagate " ++ step.literal.text ++ ": " ++
            " ; ".intercalate (step.before.map Clause.text) ++ " → " ++
            " ; ".intercalate (step.after.map Clause.text)) ++ ["Result: " ++ p.canonical])
  | holds {t : Interpretation} (h : t.isValid = true) :
      Tells (.interpretation t)
        ["Formula under " ++ t.interpretation ++ ": " ++ t.simplified.result.text,
          "Statement body: " ++ t.body, "Statement holds"]
  | fails {t : Interpretation} (h : t.isValid = false) :
      Tells (.interpretation t)
        ["Formula under " ++ t.interpretation ++ ": " ++ t.simplified.result.text,
          "Statement body: " ++ t.body, "Statement does not hold"]
  | polarity {p : PolarityReport} {word : String} (hword : (p.polarity, word) ∈ polarityWords) :
      Tells (.polarity p) ["Polarity of " ++ p.subformula.text ++ ": " ++ word, p.tree.drawing]
  -- The explanation, and the statements with their numbers and a mark at the right one.
  | determinism (d : Determinism) :
      Tells (.determinism d)
        (Determinism.explain d.verdict d.variant ::
          ((Determinism.statements d.variant).zipIdx 1).map fun (statement, number) =>
            (if number = Determinism.correctStatement d.verdict d.variant then "✅ " else "   ") ++
              toString number ++ ". " ++ statement)
  | pureAtoms {p : PureAtom} (h : p.atoms.keys ≠ []) :
      Tells (.pureAtom p)
        ["Pure atoms: " ++ ", ".intercalate (p.atoms.keys.map Letter.name),
          "Simplified: " ++ p.simplified.text]
  | noPureAtom {p : PureAtom} (h : p.atoms.keys = []) :
      Tells (.pureAtom p) ["Pure atoms: (none)", "Simplified: " ++ p.simplified.text]
  -- What the new names stand for, and the clauses.
  | tseytin (t : Tseytin) :
      Tells (.tseytin t)
        ((t.encoding.definitions.map fun d => d.name ++ " := " ++ d.formula.text) ++
          ["Result: " ++ Tseytin.clausesText t.encoding.clauses])

variable {lines : List String}

theorem mem_statusWords {status : Satisfiability.Status} {word : String} :
    (status, word) ∈ statusWords ↔ word = status.name := by
  cases status <;> simp [statusWords, Satisfiability.Status.name]

theorem mem_polarityWords {polarity : Polarity} {word : String} :
    (polarity, word) ∈ polarityWords ↔ word = polarity.name := by
  cases polarity <;> simp [polarityWords, Polarity.name]

/-- The summary of a truth table is found exactly when it can be told. -/
theorem tells_truthTable_iff {t : TruthTable} :
    Tells (.truthTable t) lines ↔ ofTruthTable t = .ok lines := by
  rw [ofTruthTable, bind_eq_ok_iff]
  simp only [mapM_eq_ok_iff, rowLine_eq_ok_iff]
  constructor
  · rintro ⟨hheading, hrows⟩
    rw [isTableLine_iff.mp hheading]
    exact ⟨_, hrows, rfl⟩
  · rintro ⟨rows, hrows, hlines⟩
    cases hlines
    exact .truthTable (isTableLine_iff.mpr rfl) hrows

/-- The counts are told in one way, with and without a model. -/
theorem tells_satisfiability_iff {s : Satisfiability} :
    Tells (.satisfiability s) lines ↔ lines = ofSatisfiability s := by
  -- the texts are put together in another order
  have hwords : ∀ word, "Status: " ++ word ++ s!" ({s.trueCount}/{s.total})" =
      "Status: " ++ word ++ " (" ++ toString s.trueCount ++ "/" ++ toString s.total ++ ")" := by
    intro word
    simp only [String.append_assoc]
    rfl
  have hvalue : ∀ b : Bool, (if b then "=T" else "=F") = "=" ++ mark b := by decide
  rw [ofSatisfiability, hwords]
  constructor
  · rintro (_ | ⟨hword, hmodel⟩ | ⟨hword, hmodel⟩ | _ | _ | _ | _ | _ | _ | _ | _ | _)
    · rw [hmodel, mem_statusWords.mp hword]
    · rw [hmodel, mem_statusWords.mp hword]
      simp only [hvalue, String.append_assoc]
  · rintro rfl
    have hword : (s.status, s.status.name) ∈ statusWords := mem_statusWords.mpr rfl
    cases hmodel : s.model with
    | none => exact .noModel hword hmodel
    | some m =>
      have h := Tells.model hword hmodel
      simp only [hvalue, ← String.append_assoc] at h ⊢
      exact h

/-- A tested statement is told in one way, whether or not it holds. -/
theorem tells_interpretation_iff {t : Interpretation} :
    Tells (.interpretation t) lines ↔ lines = ofInterpretation t := by
  rw [ofInterpretation]
  constructor
  · intro h
    cases h with
    | holds h => rw [if_pos h]; rfl
    | fails h => rw [if_neg (Bool.not_eq_true _ ▸ h)]; rfl
  · rintro rfl
    cases h : t.isValid with
    | true => exact .holds h
    | false => exact .fails h

/-- A polarity is told in one way. -/
theorem tells_polarity_iff {p : PolarityReport} :
    Tells (.polarity p) lines ↔ lines = ofPolarity p := by
  constructor
  · intro h
    cases h with
    | polarity hword => rw [mem_polarityWords.mp hword, ofPolarity]
  · rintro rfl
    exact .polarity (mem_polarityWords.mpr rfl)

/-- A determinism check is told in one way: the right statement is the marked one. -/
theorem tells_determinism_iff {d : Determinism} :
    Tells (.determinism d) lines ↔ lines = ofDeterminism d := by
  -- numbers from one are places from zero, increased
  have hnumbers : ∀ statements : List String,
      statements.zipIdx 1 = statements.zipIdx.map fun (statement, place) =>
        (statement, place + 1) := by
    intro statements
    simp only [List.zipIdx_eq_map_add (i := 1), Nat.add_comm]
  have hlines : ofDeterminism d = Determinism.explain d.verdict d.variant ::
      ((Determinism.statements d.variant).zipIdx 1).map fun (statement, number) =>
        (if number = Determinism.correctStatement d.verdict d.variant then "✅ " else "   ") ++
          toString number ++ ". " ++ statement := by
    rw [ofDeterminism, hnumbers, List.map_map]
    refine congrArg _ (List.map_congr_left fun (statement, place) _ => ?_)
    dsimp only [Function.comp_apply]
    split <;>
    · rw [← String.toList_inj]
      simp only [String.toList_append, List.append_assoc]
      rfl
  rw [hlines]
  constructor
  · rintro ⟨⟩
    rfl
  · rintro rfl
    exact .determinism d

/-- The pure atoms are told in one way, also where there are none. -/
theorem tells_pureAtom_iff {p : PureAtom} :
    Tells (.pureAtom p) lines ↔ lines = ofPureAtom p := by
  -- no name is empty, so the list of names is empty only without any name
  have hempty : (", ".intercalate (p.atoms.keys.map Letter.name)).isEmpty = true ↔
      p.atoms.keys = [] := by
    rw [String.isEmpty_iff, ← String.toList_inj, String.toList_intercalate]
    cases p.atoms.keys with
    | nil => simp
    | cons a keys => cases keys <;> simp [Letter.name]
  dsimp only [ofPureAtom]
  constructor
  · intro h
    cases h with
    | pureAtoms h => rw [if_neg (mt hempty.mp h)]
    | noPureAtom h => rw [if_pos (hempty.mpr h)]; rfl
  · rintro rfl
    by_cases h : p.atoms.keys = []
    · rw [if_pos (hempty.mpr h)]
      exact .noPureAtom h
    · rw [if_neg (mt hempty.mp h)]
      exact .pureAtoms h

/-- The summary of an outcome tells it, and nothing else does. -/
theorem tells_iff {outcome : Outcome} : Tells outcome lines ↔ ofOutcome outcome = .ok lines := by
  -- all but the tables have summaries whatever is in them
  have hok : ∀ {told : List String}, lines = told ↔ Except.ok (ε := Error) told = .ok lines :=
    fun {told} => by rw [Except.ok.injEq, eq_comm]
  cases outcome with
  | truthTable t => exact tells_truthTable_iff
  | satisfiability s => exact tells_satisfiability_iff.trans hok
  | subformula s =>
    constructor
    · rintro ⟨⟩
      rfl
    · rintro ⟨⟩
      exact .subformula s
  | unitPropagation p =>
    constructor
    · rintro ⟨⟩
      rfl
    · rintro ⟨⟩
      exact .propagation p
  | interpretation t => exact tells_interpretation_iff.trans hok
  | polarity p => exact tells_polarity_iff.trans hok
  | determinism d => exact tells_determinism_iff.trans hok
  | pureAtom p => exact tells_pureAtom_iff.trans hok
  | tseytin t =>
    constructor
    · rintro ⟨⟩
      rfl
    · rintro ⟨⟩
      exact .tseytin t

end Propositional.Summary
