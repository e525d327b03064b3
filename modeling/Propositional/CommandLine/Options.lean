import Propositional.Analysis
import Propositional.Text.DecimalDigit

/-!
# Options of the command line

Reading the words of a command line into settings.

* `Opt`       — the options, with their spellings and whether they take a value;
* `Word`      — what a word of the command line is by itself;
* `Settings`  — what the options amount to;
* `Stop`      — why reading ends early: help was asked for, or the words make no sense;
* `Settings.read` — the settings of a command line.

A long option may be shortened as long as it stays unambiguous.  A value follows its option in the
next word, or in the same word: behind an equals sign, or directly behind a short option.  Short
options without a value can share a word.  A word that looks like an option is never taken as a
value.  Of several values for an option the last one counts.

Two dashes alone are the mark after which no options follow.  In the same word as an option the mark
stands where its value would be, and leaves the option void.
-/

namespace Propositional.CommandLine

/-! ## Options -/

/-- The options, in the order in which their spellings are tried. -/
inductive Opt where
  | help
  | algorithm
  | formula
  | position
  | interpretation
  | statement
  | checkType
  | json
  | visualize
  | list
  | verbose
  | debug
deriving DecidableEq, Repr

namespace Opt

/-- The long spellings, without the two dashes. -/
def longNames : List (String × Opt) :=
  [("help", .help), ("algorithm", .algorithm), ("formula", .formula), ("position", .position),
    ("interpretation", .interpretation), ("statement", .statement), ("type", .checkType),
    ("json", .json), ("visualize", .visualize), ("list", .list), ("verbose", .verbose),
    ("debug", .debug)]

/-- The option with the given short spelling. -/
def ofShort? : Char → Option Opt
  | 'h' => some .help
  | 'a' => some .algorithm
  | 'f' => some .formula
  | 'p' => some .position
  | 'i' => some .interpretation
  | 's' => some .statement
  | 'v' => some .verbose
  | _ => none

/-- Whether an option takes a value. -/
def takesValue : Opt → Bool
  | .help | .json | .list | .verbose | .debug => false
  | _ => true

/-- The options whose long spelling begins with the given letters; a full spelling means just its
own option. -/
def ofLong (letters : List Char) : List Opt :=
  match longNames.lookup (String.ofList letters) with
  | some opt => [opt]
  | none => (longNames.filter fun e => letters.isPrefixOf e.1.toList).map (·.2)

end Opt

/-! ## Words -/

/-- What a word of the command line is by itself. -/
inductive Word where
  -- A word that can serve as a value.
  | value (text : String)
  -- An option, spelled short or long, perhaps with a text attached to it.  An equals sign between
  -- the two is no part of the text.
  | option (opt : Opt) (short : Bool) (attached : Option (List Char))
  -- Something that looks like an option but is none.
  | unknown

/-- Whether characters are decimal digits, at least one. -/
def areDigits (chars : List Char) : Bool :=
  (Text.decimal? chars).isSome

/-- Whether the characters behind a dash make it a negative number: digits, with or without a
decimal point in front of some of them. -/
def isNumber (chars : List Char) : Bool :=
  let digits := if chars.getLast? = some '\n' then chars.dropLast else chars
  areDigits digits ||
    match digits.dropWhile fun c => (Text.digitValue? c).isSome with
    | '.' :: fraction => areDigits fraction
    | _ => false

/-- A word with a dash that is the spelling of no option. -/
def unspelled (chars : List Char) : Word :=
  if isNumber chars.tail || chars.contains ' ' then .value (String.ofList chars) else .unknown

/-- Cuts characters at the first equals sign. -/
def cutAtEquals (chars : List Char) : List Char × Option (List Char) :=
  match chars.dropWhile (· ≠ '=') with
  | [] => (chars, none)
  | _ :: rest => (chars.takeWhile (· ≠ '='), some rest)

/-- A word that begins with two dashes, or nothing when it can be several options. -/
def longWord (chars : List Char) : Option Word :=
  let (letters, text) := cutAtEquals (chars.drop 2)
  match Opt.ofLong letters with
  | [] => some (unspelled chars)
  | [opt] => some (.option opt false text)
  | _ => none

/-- A word that begins with one dash. -/
def shortWord (chars : List Char) : Word :=
  match chars with
  | _ :: c :: rest =>
    match Opt.ofShort? c, rest with
    | some opt, [] => .option opt true none
    | some opt, '=' :: text => .option opt true (some text)
    | some opt, text => .option opt true (some text)
    | none, _ => unspelled chars
  | _ => .value (String.ofList chars)

/-- What a word is, or nothing when it can be several options. -/
def wordOf (text : String) : Option Word :=
  match text.toList with
  | '-' :: '-' :: rest => longWord ('-' :: '-' :: rest)
  | '-' :: rest => some (shortWord ('-' :: rest))
  | _ => some (.value text)

/-- The words of a command line.  Behind the mark that ends the options nothing is looked at. -/
def wordsOf : List String → Option (List Word)
  | [] => some []
  | "--" :: _ => some [.unknown]
  | text :: rest =>
    match wordOf text, wordsOf rest with
    | some word, some words => some (word :: words)
    | _, _ => none

/-! ## Settings -/

/-- What a command line asks for. -/
structure Settings where
  kind : Option Analysis.Kind := none
  formula : Input := .missing
  position : Input := .missing
  interpretation : Input := .missing
  statement : Input := .missing
  checkType : Input := .text "cnf"
  json : Bool := false
  -- The name under which the tree is drawn.
  visualize : Option String := none
  list : Bool := false
  verbose : Bool := false
  debug : Bool := false

/-- Why reading a command line ends without settings. -/
inductive Stop where
  | help
  | usage
deriving DecidableEq, Repr

namespace Settings

/-- The settings after an option that takes no value. -/
def turnOn (s : Settings) : Opt → Except Stop Settings
  | .help => .error .help
  | .json => .ok { s with json := true }
  | .list => .ok { s with list := true }
  | .verbose => .ok { s with verbose := true }
  | .debug => .ok { s with debug := true }
  | _ => .error .usage

/-- The settings after an option with a text as its value. -/
def giveText (s : Settings) (opt : Opt) (text : String) : Except Stop Settings :=
  match opt with
  | .algorithm =>
    match Analysis.Kind.ofName? text with
    | some kind => .ok { s with kind := some kind }
    | none => .error .usage
  | .formula => .ok { s with formula := .text text }
  | .position => .ok { s with position := .text text }
  | .interpretation => .ok { s with interpretation := .text text }
  | .statement => .ok { s with statement := .text text }
  | .checkType =>
    if text = "cnf" ∨ text = "general" then .ok { s with checkType := .text text }
    else .error .usage
  | .visualize => .ok { s with visualize := some text }
  | _ => .error .usage

/-- The settings after an option that is left void.  Where only certain values are allowed, this is
as good as no value. -/
def leaveVoid (s : Settings) (opt : Opt) : Except Stop Settings :=
  match opt with
  | .algorithm => .ok { s with kind := none }
  | .formula => .ok { s with formula := .void }
  | .position => .ok { s with position := .void }
  | .interpretation => .ok { s with interpretation := .void }
  | .statement => .ok { s with statement := .void }
  | .checkType => .ok { s with checkType := .void }
  | .visualize => .ok { s with visualize := none }
  | _ => .error .usage

/-- The settings after an option with the text that is attached to it as its value. -/
def giveAttached (s : Settings) (opt : Opt) (text : List Char) : Except Stop Settings :=
  if text = ['-', '-'] then s.leaveVoid opt else s.giveText opt (String.ofList text)

end Settings

/-! ## Options that share a word -/

/-- What one word with an option in it amounts to. -/
structure Reading where
  flags : List Opt
  -- The option with the text attached to it as its value, if the word ends with one.
  valued : Option (Opt × List Char)
  -- The option that takes the next word as its value, if the word ends with one.
  pending : Option Opt

/-- Puts an option without a value in front. -/
def Reading.after (opt : Opt) (r : Reading) : Reading :=
  { r with flags := opt :: r.flags }

/-- An option at the end of its word. -/
def readBare (opt : Opt) : Reading :=
  if opt.takesValue then ⟨[], none, some opt⟩ else ⟨[opt], none, none⟩

/-- An option with a text attached.  The text is the value of an option that takes one; behind a
short option that takes none it is a row of further short options, in which an equals sign is a
character like any other. -/
def readAttached (opt : Opt) (short : Bool) (text : List Char) : Except Stop Reading :=
  if opt.takesValue then .ok ⟨[], some (opt, text), none⟩
  else if !short then .error .usage
  else
    match text with
    | [] => .error .usage
    | c :: rest =>
      match Opt.ofShort? c with
      | none => .error .usage
      | some next =>
        if rest.isEmpty then .ok ((readBare next).after opt)
        else (readAttached next true rest).map (·.after opt)

/-- The option in a word with everything that shares the word. -/
def readWord (opt : Opt) (short : Bool) (attached : Option (List Char)) : Except Stop Reading :=
  match attached with
  | none => .ok (readBare opt)
  | some text => readAttached opt short text

/-- The settings after some options without values. -/
def turnOnAll (s : Settings) : List Opt → Except Stop Settings
  | [] => .ok s
  | opt :: rest =>
    match s.turnOn opt with
    | .ok next => turnOnAll next rest
    | .error stop => .error stop

/-! ## The whole command line -/

/-- The settings after some words; `excess` says whether a word has been left over. -/
def readFrom (s : Settings) (excess : Bool) : List Word → Except Stop Settings
  | [] => if excess then .error .usage else .ok s
  | .value _ :: rest => readFrom s true rest
  | .unknown :: rest => readFrom s true rest
  | .option opt short attached :: rest =>
    match readWord opt short attached with
    | .error stop => .error stop
    | .ok reading =>
      match reading.pending, rest with
      | none, rest =>
        match turnOnAll s reading.flags with
        | .error stop => .error stop
        | .ok next =>
          match reading.valued with
          | none => readFrom next excess rest
          | some (o, text) =>
            match next.giveAttached o text with
            | .error stop => .error stop
            | .ok final => readFrom final excess rest
      | some o, .value text :: tail =>
        match turnOnAll s reading.flags with
        | .error stop => .error stop
        | .ok next =>
          match next.giveText o text with
          | .error stop => .error stop
          | .ok final => readFrom final excess tail
      | some _, _ => .error .usage

/-- The settings of a command line. -/
def Settings.read (arguments : List String) : Except Stop Settings :=
  match wordsOf arguments with
  | some words => readFrom {} false words
  | none => .error .usage

end Propositional.CommandLine
