import Propositional.CommandLine
import Propositional.Proofs.Failures
import Propositional.Proofs.Report
import Propositional.Proofs.Summary

/-!
# How a command line is answered

A command line that asks for one analysis is answered with the result and exit code 0, with the
reason why a formula cannot be read and exit code 2, or with another refusal and exit code 3.  The
exit code for everything else does not occur: whatever the words of a command line are, they leave a
type of check that is known, and then an analysis fails by refusing its inputs only.

* `CommandLine.knownType_of_read` — the settings of every command line have a known type of check;
* `CommandLine.Settings.Asks`     — settings that ask for one analysis and nothing else;
* `CommandLine.Printed`           — what is printed of a result, as JSON or for a reader;
* `CommandLine.Answered`          — the three ways in which an analysis is answered;
* `CommandLine.no_unexpected_error` — analyses, the look-ups in them, and the command line.
-/

namespace Propositional.CommandLine

open Analysis (Kind Outcome Refusal)

/-! ## The type of check -/

section Reading

variable {s t : Settings} {opt : Opt}

/-- A switch leaves the named type of clauses a known one. -/
theorem Settings.knownType_turnOn (hs : s.inputs.KnownType) (h : s.turnOn opt = .ok t) :
    t.inputs.KnownType := by
  unfold turnOn at h
  split at h <;> cases h <;> exact hs

/-- Of the texts for the type of check only those are taken that are known. -/
theorem Settings.knownType_giveText {text : String} (hs : s.inputs.KnownType)
    (h : s.giveText opt text = .ok t) : t.inputs.KnownType := by
  cases opt with
  | algorithm =>
    rw [giveText] at h
    split at h <;> cases h
    exact hs
  | checkType =>
    rw [giveText] at h
    split at h
    · next htext =>
      cases h
      exact Or.inr htext
    · cases h
  | formula | position | interpretation | statement | visualize =>
    cases h
    exact hs
  | help | json | list | verbose | debug => cases h

theorem Settings.knownType_leaveVoid (hs : s.inputs.KnownType) (h : s.leaveVoid opt = .ok t) :
    t.inputs.KnownType := by
  cases opt with
  | checkType =>
    cases h
    exact Or.inl rfl
  | algorithm | formula | position | interpretation | statement | visualize =>
    cases h
    exact hs
  | help | json | list | verbose | debug => cases h

/-- So does an option with its value behind it. -/
theorem Settings.knownType_giveAttached {text : List Char} (hs : s.inputs.KnownType)
    (h : s.giveAttached opt text = .ok t) : t.inputs.KnownType := by
  unfold giveAttached at h
  split at h
  · exact knownType_leaveVoid hs h
  · exact knownType_giveText hs h

theorem knownType_turnOnAll {opts : List Opt} (hs : s.inputs.KnownType)
    (h : turnOnAll s opts = .ok t) : t.inputs.KnownType := by
  induction opts generalizing s with
  | nil =>
    cases h
    exact hs
  | cons opt rest ih =>
    rw [turnOnAll] at h
    split at h
    · next _ hnext => exact ih (Settings.knownType_turnOn hs hnext) h
    · cases h

/-- Word by word, the type of check stays a known one. -/
theorem knownType_readFrom {excess : Bool} {words : List Word} (hs : s.inputs.KnownType)
    (h : readFrom s excess words = .ok t) : t.inputs.KnownType := by
  fun_induction readFrom s excess words with
  -- the words make no sense
  | case1 | case5 | case6 | case8 | case10 | case11 | case13 => cases h
  | case2 =>
    cases h
    exact hs
  -- a word that is left over
  | case3 _ _ _ _ ih | case4 _ _ _ ih => exact ih hs h
  -- options without a value, perhaps with a value attached to the last one
  | case7 _ _ _ _ _ _ _ _ _ _ hflags _ ih => exact ih (knownType_turnOnAll hs hflags) h
  | case9 _ _ _ _ _ _ _ _ _ _ hflags _ _ _ _ hvalue ih =>
    exact ih (Settings.knownType_giveAttached (knownType_turnOnAll hs hflags) hvalue) h
  -- a value in the next word
  | case12 _ _ _ _ _ _ _ _ _ _ _ _ hflags _ hvalue ih =>
    exact ih (Settings.knownType_giveText (knownType_turnOnAll hs hflags) hvalue) h

/-- The settings of a command line have a known type of check. -/
theorem knownType_of_read {arguments : List String} (h : Settings.read arguments = .ok s) :
    s.inputs.KnownType := by
  unfold Settings.read at h
  split at h
  · exact knownType_readFrom (Or.inr (Or.inl rfl)) h
  · cases h

end Reading

/-! ## The printed result -/

/-- What is printed of a result: the JSON text of the report on it if the settings ask for that, and
otherwise the lines that tell it. -/
inductive Printed (s : Settings) (outcome : Outcome) : List String → Prop
  | report {fields : List (String × Report.Value)} {text : String} (hjson : s.json = true)
      (hfields : Report.Reports outcome fields)
      (htext : Report.Value.Writes 0 (.record fields) text.toList) : Printed s outcome [text]
  | summary {lines : List String} (hjson : s.json = false) (h : Summary.Tells outcome lines) :
      Printed s outcome lines

section Printing

variable {s : Settings} {outcome : Outcome} {lines : List String}

theorem printed_iff : Printed s outcome lines ↔ resultLines s outcome = .ok lines := by
  rw [resultLines]
  constructor
  · intro h
    cases h with
    | report hjson hfields htext =>
      have hpretty := (Report.Value.writes_iff _ _ _).mp htext
      rw [if_pos hjson, Report.reports_iff.mp hfields, String.toList_inj.mp hpretty]
      rfl
    | summary hjson h => rw [hjson, if_neg Bool.false_ne_true, Summary.tells_iff.mp h]
  · intro h
    cases hjson : s.json with
    | true =>
      rw [hjson, if_pos rfl] at h
      cases h
      obtain ⟨fields, hfields⟩ := Report.exists_reports outcome
      refine .report hjson hfields ((Report.Value.writes_iff _ _ _).mpr ?_)
      rw [Report.reports_iff.mp hfields]
      rfl
    | false =>
      rw [hjson, if_neg Bool.false_ne_true] at h
      exact .summary hjson (Summary.tells_iff.mpr h)

/-- Something is printed of every result. -/
theorem Printed.ne_nil (h : Printed s outcome lines) : lines ≠ [] := by
  cases h with
  | report => exact List.cons_ne_nil _ _
  | summary hjson h => cases h <;> simp

/-- A result is printed in one way. -/
theorem Printed.unique {lines' : List String} (h : Printed s outcome lines)
    (h' : Printed s outcome lines') : lines' = lines :=
  Except.ok.inj ((printed_iff.mp h').symm.trans (printed_iff.mp h))

/-- Every result of an analysis can be printed: the look-ups in a truth table succeed. -/
theorem exists_printed {kind : Kind} {inputs : Inputs} {threshold : Level}
    (h : ((Analysis.run kind inputs).run threshold).2 = .ok outcome) (s : Settings) :
    ∃ lines, resultLines s outcome = .ok lines := by
  have hsummary : ∃ lines, Summary.ofOutcome outcome = .ok lines := by
    cases outcome with
    | truthTable t =>
      have ht := Analysis.run_truthTable h
      exact Summary.exists_ofTruthTable (TruthTable.isSome_get?_of_run ht)
    | satisfiability | subformula | unitPropagation | interpretation | polarity | determinism
    | pureAtom | tseytin => exact ⟨_, rfl⟩
  rw [resultLines]
  split
  · exact ⟨_, rfl⟩
  · exact hsummary

end Printing

/-! ## One analysis -/

/-- The settings ask for an analysis of the given kind, and neither for a picture nor for the
list. -/
structure Settings.Asks (s : Settings) (kind : Kind) : Prop where
  kind : s.kind = some kind
  formula : s.formula ≠ .missing
  list : s.list = false
  visualize : s.visualize = none

/-- The threshold of messages that settings choose. -/
def Settings.level (s : Settings) : Level :=
  .ofSwitches s.verbose s.debug

/-- What is logged before an analysis begins. -/
def opening (s : Settings) (kind : Kind) : List Record :=
  ((Logged.emit .info ("Running " ++ kind.name ++ " on " ++ s.formula.shown)).run s.level).1

/-- The log of an analysis on a command line, and what the analysis ends with. -/
def course (s : Settings) (kind : Kind) : List Record × Except Error Outcome :=
  let analysis := (Analysis.run kind s.inputs).run s.level
  (opening s kind ++ analysis.1, analysis.2)

/-- How an analysis with the given log is answered: the exit code and the printed lines.  Behind an
error nothing is printed but the log and what the error is. -/
inductive Answered (s : Settings) (log : List Record) :
    Except Error Outcome → Nat → List String → Prop
  | result {outcome : Outcome} {printed : List String} (h : Printed s outcome printed) :
      Answered s log (.ok outcome) 0 (linesOf log ++ printed)
  | unreadable (reason : SyntaxError) :
      Answered s log (.error (.formula reason)) 2
        (linesOf (log ++ [⟨.error, "Formula parsing error: " ++ reason.message⟩]))
  | refused {e : Error} (he : e.isInput = true) :
      Answered s log (.error e) 3 (linesOf (log ++ [⟨.error, "Input error: " ++ e.message⟩]))

variable {s : Settings} {kind : Kind}

/-- The lines of two logs after each other are those of the first and those of the second. -/
theorem linesOf_append (first second : List Record) :
    linesOf (first ++ second) = linesOf first ++ linesOf second :=
  List.map_append

/-- Errors reach every reader. -/
theorem run_emit_error (message : String) (threshold : Level) :
    ((Logged.emit .error message).run threshold).1 = [⟨.error, message⟩] := by
  cases threshold <;> rfl

/-- Bad input is told with exit code 3. -/
theorem failure_of_isInput {e : Error} (he : e.isInput = true) :
    failure e = (3, "Input error: " ++ e.message) := by
  unfold failure
  split
  · cases he
  · rw [if_pos he]

theorem run_eq_respond {setting : Rendering.Setting} {threshold : Level} {arguments : List String}
    (hread : Settings.read arguments = .ok s) (hasks : s.Asks kind) :
    run setting threshold arguments = respond setting s.level s kind := by
  unfold run
  rw [hread]
  show (if s.list then _ else _) = _
  rw [hasks.list, if_neg Bool.false_ne_true, hasks.kind]
  cases hformula : s.formula with
  | missing => exact absurd hformula hasks.formula
  | void => rfl
  | text content => rfl

/-- What an analysis comes to is answered with the exit code and the lines that belong to it, and
without a picture nothing is drawn. -/
theorem answered_respond (setting : Rendering.Setting) (hknown : s.inputs.KnownType)
    (hasks : s.Asks kind) :
    Answered s (course s kind).1 (course s kind).2 (respond setting s.level s kind).exitCode
        (respond setting s.level s kind).lines ∧
      (respond setting s.level s kind).rendering.drawn = [] := by
  have hfails : Checked.FailsOnly s.level (Refusal s.inputs kind) (Analysis.run kind s.inputs) :=
    Analysis.failsOnly_run kind hknown
  have hprints : ∀ outcome, ((Analysis.run kind s.inputs).run s.level).2 = .ok outcome →
      ∃ printed, resultLines s outcome = .ok printed :=
    fun _ houtcome => exists_printed houtcome s
  unfold Checked.FailsOnly at hfails
  unfold course respond
  rw [hasks.visualize]
  -- from here on only what the analysis ends with matters
  generalize (Analysis.run kind s.inputs).run s.level = analysis at hfails hprints
  obtain ⟨records, result⟩ := analysis
  cases result with
  | ok outcome =>
    obtain ⟨printed, hprinted⟩ := hprints outcome rfl
    dsimp only
    rw [hprinted]
    refine ⟨?_, rfl⟩
    show Answered s (opening s kind ++ records) _ 0
      (linesOf (opening s kind) ++ linesOf records ++ printed)
    rw [← linesOf_append]
    exact .result (printed_iff.mpr hprinted)
  | error e =>
    refine ⟨?_, rfl⟩
    show Answered s (opening s kind ++ records) _ (failure e).1
      (linesOf (opening s kind) ++ linesOf records ++
        linesOf ((Logged.emit .error (failure e).2).run s.level).1)
    rw [run_emit_error, ← linesOf_append, ← linesOf_append]
    -- an analysis fails by refusing its inputs, and there are two kinds of refusals
    rcases (hfails e rfl).formula_or_isInput with ⟨reason, rfl⟩ | hinput
    · exact .unreadable reason
    · rw [failure_of_isInput hinput]
      exact .refused hinput

/-- **Nothing unexpected happens.**  An analysis with a known type of check ends with a result or
refuses its inputs.  The look-ups behind its checks succeed: where a formula has a sign, the
annotated tree has a node; a truth table has a value for each letter on each line, so its lines can
be written; and when names are handed out one after another, every definition finds the names that
it needs.  So a command line that asks for one analysis and no picture is answered with the printed
result and exit code 0, with the reason why a formula cannot be read and exit code 2, or with
another refusal and exit code 3; behind an error nothing is printed of a result, and nothing is
drawn.  A result is printed in just one way, and something is printed of it. -/
theorem no_unexpected_error :
    (∀ (kind : Kind) (inputs : Inputs) (threshold : Level), inputs.KnownType →
      (∃ outcome, ((Analysis.run kind inputs).run threshold).2 = .ok outcome) ∨
        ∃ e, ((Analysis.run kind inputs).run threshold).2 = .error e ∧ Refusal inputs kind e) ∧
    (∀ (f : Formula Letter) (position : String) (sign : Int),
      f.signAtText (some position) = .ok sign →
        ∃ g, PolarityReport.nodeAt f.annotated position = .ok g) ∧
    (∀ (inputs : Inputs) (threshold : Level) (t : TruthTable),
      ((TruthTable.analyse inputs).run threshold).2 = .ok t →
        (∀ row ∈ t.rows, ∀ a ∈ t.letters, (row.assignment.get? a).isSome = true) ∧
          ∃ lines, Summary.ofTruthTable t = .ok lines) ∧
    (∀ f : Formula Letter, ∃ ds,
      Tseytin.definitionsInTurn f = .ok ds ∧ Tseytin.definitions f = .ok ds) ∧
    (∀ (setting : Rendering.Setting) (threshold : Level) (arguments : List String) (s : Settings)
      (kind : Kind), Settings.read arguments = .ok s → s.Asks kind →
        Answered s (course s kind).1 (course s kind).2 (run setting threshold arguments).exitCode
            (run setting threshold arguments).lines ∧
          (run setting threshold arguments).rendering.drawn = []) ∧
    ∀ (s : Settings) (outcome : Outcome) (lines : List String), Printed s outcome lines →
      lines ≠ [] ∧ ∀ lines', Printed s outcome lines' → lines' = lines := by
  refine ⟨fun kind inputs threshold hknown => ?_, fun f position sign => ?_,
    fun inputs threshold t ht => ?_, fun f => ?_,
    fun setting threshold arguments s kind hread hasks => ?_,
    fun s outcome lines h => ⟨h.ne_nil, fun _ => h.unique⟩⟩
  · cases hresult : ((Analysis.run kind inputs).run threshold).2 with
    | ok outcome => exact Or.inl ⟨outcome, rfl⟩
    | error e => exact Or.inr ⟨e, rfl, Analysis.failsOnly_run kind hknown e hresult⟩
  · exact PolarityReport.exists_nodeAt
  · have hvalues := TruthTable.isSome_get?_of_run ht
    exact ⟨hvalues, Summary.exists_ofTruthTable hvalues⟩
  · obtain ⟨ds, hds⟩ := Tseytin.definitions_eq_ok f
    exact ⟨ds, (Tseytin.definitionsInTurn_eq f).trans hds, hds⟩
  · rw [run_eq_respond hread hasks]
    exact answered_respond setting (knownType_of_read hread) hasks

/-- One command line for each way of being answered.  At position `2` of `a∧¬b` there is `¬b`, and
at position `2.2` there is nothing.  Under `I⊨p` the formula `p∧q` becomes `q`; the body `A∧` of the
statement then is `(q)∧`, which is no formula. -/
theorem no_unexpected_error_three_answers :
    let respond := run ⟨false, none, none⟩ .warning
    let found := respond ["-a", "subformula", "-f", "a∧¬b", "-p", "2"]
    let absent := respond ["-a", "subformula", "-f", "a∧¬b", "-p", "2.2"]
    let unreadable := respond ["-a", "interpretation", "-f", "p∧q", "-i", "I⊨p", "-s", "I⊨A∧"]
    (found.exitCode = 0 ∧ found.lines = ["Subformula at 2: ¬b"]) ∧
      (absent.exitCode = 3 ∧ absent.lines = ["Input error: Invalid position: \x222.2\x22"]) ∧
      (unreadable.exitCode = 2 ∧
        unreadable.lines = ["Formula parsing error: Unexpected end of formula"]) := by
  intro respond found absent unreadable
  obtain ⟨-, -, -, -, hanswered, -⟩ := no_unexpected_error
  refine ⟨?_, ?_, ?_⟩
  · obtain ⟨s, result, hread, hasks, hcourse, hjson, hposition, htext⟩ : ∃ s result,
        Settings.read ["-a", "subformula", "-f", "a∧¬b", "-p", "2"] = .ok s ∧
        s.Asks .subformula ∧ course s .subformula = ([], .ok (.subformula result)) ∧
        s.json = false ∧ result.position = "2" ∧ result.subformula.text = "¬b" :=
      ⟨_, _, rfl, ⟨rfl, Input.noConfusion, rfl, rfl⟩, rfl, rfl, rfl, rfl⟩
    have hanswer : Answered s _ _ found.exitCode found.lines :=
      (hanswered _ _ _ s .subformula hread hasks).1
    rw [hcourse] at hanswer
    generalize found.exitCode = code at hanswer ⊢
    generalize found.lines = lines at hanswer ⊢
    cases hanswer with
    | result hprinted =>
      cases hprinted with
      | report hjson' => cases hjson.symm.trans hjson'
      | summary _ htells =>
        cases htells
        rw [hposition, htext]
        exact ⟨rfl, rfl⟩
  · obtain ⟨s, hread, hasks, hcourse⟩ : ∃ s,
        Settings.read ["-a", "subformula", "-f", "a∧¬b", "-p", "2.2"] = .ok s ∧
        s.Asks .subformula ∧ course s .subformula = ([], .error (.position "2.2")) :=
      ⟨_, rfl, ⟨rfl, Input.noConfusion, rfl, rfl⟩, rfl⟩
    have hanswer : Answered s _ _ absent.exitCode absent.lines :=
      (hanswered _ _ _ s .subformula hread hasks).1
    rw [hcourse] at hanswer
    generalize absent.exitCode = code at hanswer ⊢
    generalize absent.lines = lines at hanswer ⊢
    cases hanswer with
    | refused => exact ⟨rfl, rfl⟩
  · obtain ⟨s, hread, hasks, hcourse⟩ : ∃ s,
        Settings.read ["-a", "interpretation", "-f", "p∧q", "-i", "I⊨p", "-s", "I⊨A∧"] = .ok s ∧
        s.Asks .interpretation ∧
        course s .interpretation = ([], .error (.formula .unexpectedEnd)) :=
      ⟨_, rfl, ⟨rfl, Input.noConfusion, rfl, rfl⟩, rfl⟩
    have hanswer : Answered s _ _ unreadable.exitCode unreadable.lines :=
      (hanswered _ _ _ s .interpretation hread hasks).1
    rw [hcourse] at hanswer
    generalize unreadable.exitCode = code at hanswer ⊢
    generalize unreadable.lines = lines at hanswer ⊢
    cases hanswer with
    | unreadable => exact ⟨rfl, rfl⟩
    | refused he => cases he

end Propositional.CommandLine
