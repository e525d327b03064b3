/-!
# Keeping a log

Messages of four levels, and computations that write some while they run.  A computation knows the
threshold of its reader and writes only what reaches it.

* `Level`, `Record`  — the levels in ascending severity, and a message with its level;
* `Record.line`      — how a record is printed;
* `Logged`           — a value together with the records written on the way to it;
* `Logged.emit`, `Logged.emitAll` — writing one message, or several of one level;
* `startMessage`, `stepMessage`, `passMessage`, `resultMessage` — the wording of what analyses note.
-/

namespace Propositional

/-- The levels of messages. -/
inductive Level where
  | debug
  | info
  | warning
  | error
deriving DecidableEq, Repr

namespace Level

/-- The severity of a level. -/
def severity : Level → Nat
  | .debug => 10
  | .info => 20
  | .warning => 30
  | .error => 40

/-- The level with the given name. -/
def ofName? (name : String) : Option Level :=
  if name = "DEBUG" then some .debug
  else if name = "INFO" then some .info
  else if name = "WARNING" then some .warning
  else if name = "ERROR" then some .error
  else none

/-- The threshold asked for by two switches: everything, progress messages, or only what is out of
the ordinary. -/
def ofSwitches (verbose debug : Bool) : Level :=
  if debug then .debug else if verbose then .info else .warning

/-- A message of this level passes the threshold. -/
def passes (level threshold : Level) : Bool :=
  threshold.severity ≤ level.severity

end Level

/-- The name of a severity below the one of progress messages. -/
def lowSeverityName (severity : Int) : String :=
  if severity = 10 then "DEBUG" else if severity = 0 then "NOTSET" else s!"Level {severity}"

/-- The printed form of a message: progress messages and all above them stand alone, the others
follow the name of their severity. -/
def lineOf (severity : Int) (message : String) : String :=
  if 20 ≤ severity then message else "[" ++ lowSeverityName severity ++ "] " ++ message

/-- A message with its level. -/
structure Record where
  level : Level
  message : String
deriving DecidableEq, Repr

/-- The printed form of a record. -/
def Record.line (r : Record) : String :=
  lineOf r.level.severity r.message

/-! ## Logged computations -/

/-- A computation that writes records.  It is given the threshold and returns the records that
pass it, in order, with its value. -/
def Logged (α : Type) : Type :=
  Level → List Record × α

namespace Logged

variable {α β : Type}

/-- Runs a computation for a reader with the given threshold. -/
def run (x : Logged α) (threshold : Level) : List Record × α :=
  x threshold

/-- Computations follow each other, and so do their messages. -/
instance : Monad Logged where
  pure a := fun _ => ([], a)
  bind x f := fun threshold =>
    let (first, a) := x threshold
    let (second, b) := f a threshold
    (first ++ second, b)

/-- Writes one message. -/
def emit (level : Level) (message : String) : Logged Unit := fun threshold =>
  (if level.passes threshold then [⟨level, message⟩] else [], ())

/-- Writes several messages of one level, in order. -/
def emitAll (level : Level) (messages : List String) : Logged Unit := fun threshold =>
  (if level.passes threshold then messages.map fun m => ⟨level, m⟩ else [], ())

end Logged

/-! ## Messages about the course of an analysis -/

/-- An analysis begins: its name, the formula text, and the further inputs that are given. -/
def startMessage (analysis formula : String) (inputs : List (String × String)) : String :=
  let given := ", ".intercalate (inputs.map fun i => i.1 ++ "=" ++ i.2)
  let suffix := if given.isEmpty then "" else " (" ++ given ++ ")"
  "🔧 " ++ analysis ++ ": " ++ formula ++ suffix

/-- A literal has been propagated. -/
def stepMessage (literal before after : String) : String :=
  "    🔍 propagate " ++ literal ++ ": " ++ before ++ " → " ++ after

/-- A pass of the simplifier has ended. -/
def passMessage (pass : Int) (formula : String) : String :=
  s!"    ✂️  pass {pass}: {formula}"

/-- An analysis has its result. -/
def resultMessage (analysis summary : String) : String :=
  "🎉 " ++ analysis ++ " result: " ++ summary

end Propositional
