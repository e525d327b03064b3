import Propositional.Analysis.Report
import Propositional.Analysis.Summary
import Propositional.CommandLine.Options
import Propositional.Diagram
import Propositional.Diagram.Rendering

/-!
# The command line

What the program prints for the words of a command line, and how it ends.

* `Response`       — exit code, printed lines, and what is left behind for a later run;
* `CommandLine.run` — the response to a command line.

The exit code is 0 for a result, 2 for a formula that cannot be read and for words that make no
sense, 3 for any other input that an analysis cannot use, and 1 for everything else.
-/

namespace Propositional.CommandLine

/-- What comes of a command line. -/
structure Response where
  exitCode : Nat
  lines : List String
  -- The threshold of messages that the run leaves behind.
  threshold : Level
  -- The pictures drawn, and whether their folder is there afterwards.
  rendering : Rendering.Result

/-- The lines of records. -/
def linesOf (records : List Record) : List String :=
  records.map Record.line

/-- What is printed when help is asked for. -/
def helpLines : List String :=
  ["Analyses of propositional formulas", "",
    "  -a, --algorithm KIND       the analysis to run",
    "  -f, --formula TEXT         the formula",
    "  -p, --position TEXT        a position such as 1.2.1",
    "  -i, --interpretation TEXT  an interpretation such as I⊨¬p",
    "  -s, --statement TEXT       a statement such as I⊭A",
    "  --type cnf|general         the type of determinism check",
    "  --json                     print the result as JSON",
    "  --visualize NAME           draw the tree of the formula",
    "  --list                     list the analyses",
    "  -v, --verbose              print progress",
    "  --debug                    print every step"]

/-- The inputs of the analysis that the settings ask for. -/
def Settings.inputs (s : Settings) : Inputs :=
  { formula := s.formula, position := s.position, interpretation := s.interpretation,
    statement := s.statement, checkType := s.checkType }

/-- The exit code and the printed form of an error. -/
def failure (e : Error) : Nat × String :=
  match e with
  | .formula reason => (2, "Formula parsing error: " ++ reason.message)
  | e =>
    if e.isInput then (3, "Input error: " ++ e.message)
    else (1, "Unexpected error: " ++ e.message)

/-- The printed form of a result. -/
def resultLines (s : Settings) (outcome : Analysis.Outcome) : Except Error (List String) :=
  if s.json then .ok [(Report.ofOutcome outcome).pretty] else Summary.ofOutcome outcome

/-- Draws the tree of the formula under a name.  The formula is read anew. -/
def draw (setting : Rendering.Setting) (formula : Input) (name : String) :
    Checked Rendering.Result := do
  let _ ← Checked.readFormula formula
  ExceptT.lift (Rendering.render setting name Rendering.defaultFormat)

/-- The response to settings with a formula for an analysis of the given kind. -/
def respond (setting : Rendering.Setting) (threshold : Level) (s : Settings)
    (kind : Analysis.Kind) : Response :=
  let opening := Logged.emit .info ("Running " ++ kind.name ++ " on " ++ s.formula.shown)
  let begun := linesOf (opening.run threshold).1
  let idle : Rendering.Result := ⟨[], setting.folderExists⟩
  let fail (lines : List String) (e : Error) (rendering : Rendering.Result) : Response :=
    let (code, message) := failure e
    ⟨code, lines ++ linesOf ((Logged.emit .error message).run threshold).1, threshold, rendering⟩
  let (records, result) := (Analysis.run kind s.inputs).run threshold
  match result with
  | .error e => fail (begun ++ linesOf records) e idle
  | .ok outcome =>
    match resultLines s outcome with
    | .error e => fail (begun ++ linesOf records) e idle
    | .ok printed =>
      let lines := begun ++ linesOf records ++ printed
      match s.visualize.filter fun name => !name.isEmpty with
      | none => ⟨0, lines, threshold, idle⟩
      | some name =>
        let (more, drawn) := (draw setting s.formula name).run threshold
        match drawn with
        | .ok rendering => ⟨0, lines ++ linesOf more, threshold, rendering⟩
        | .error e => fail (lines ++ linesOf more) e idle

/-- The response to a command line, for a program that so far prints messages from the given
threshold on. -/
def run (setting : Rendering.Setting) (threshold : Level) (arguments : List String) : Response :=
  let idle : Rendering.Result := ⟨[], setting.folderExists⟩
  match Settings.read arguments with
  | .error .help => ⟨0, helpLines, threshold, idle⟩
  | .error .usage => ⟨2, [], threshold, idle⟩
  | .ok s =>
    let chosen := Level.ofSwitches s.verbose s.debug
    if s.list then ⟨0, Analysis.Kind.all.map (·.name), chosen, idle⟩
    else
      match s.kind, s.formula with
      | none, _ => ⟨2, [], chosen, idle⟩
      | _, .missing => ⟨2, [], chosen, idle⟩
      | some kind, _ => respond setting chosen s kind

end Propositional.CommandLine
