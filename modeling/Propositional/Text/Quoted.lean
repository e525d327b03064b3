import Propositional.Text.Printable

/-!
# Quoted texts and listings

How a text, a truth value, a list or a table is shown inside a message: texts stand in quotes with
escapes for what cannot be printed, lists in brackets, tables in braces.

* `quoted`  — a text in quotes;
* `truth`   — a truth value;
* `listed`  — a list of items that are already written;
* `braced`  — the same between braces;
* `entry`   — one line of a table.
-/

namespace Propositional.Text

/-- The apostrophe, which is the quote of first choice. -/
def apostrophe : Char := '\x27'

/-- The quotation mark, which is used when the text itself holds an apostrophe and no quotation
mark. -/
def quotationMark : Char := '\x22'

/-- The quote that is put around a text. -/
def quoteFor (text : List Char) : Char :=
  if text.contains apostrophe && !text.contains quotationMark then quotationMark else apostrophe

/-- The digits of a code point in base sixteen, filled up with zeros to the given width. -/
def hexDigits (width : Nat) (code : Nat) : List Char :=
  let digits := Nat.toDigits 16 code
  List.replicate (width - digits.length) '0' ++ digits

/-- One character as it stands between quotes: the quote and the backslash get a backslash in
front, the three common control characters have letters, and any other character that cannot be
printed is given by its code point in two, four or eight digits. -/
def escaped (quote c : Char) : List Char :=
  if c = quote ∨ c = '\\' then ['\\', c]
  else if c = '\n' then ['\\', 'n']
  else if c = '\r' then ['\\', 'r']
  else if c = '\t' then ['\\', 't']
  else if isPrintable c then [c]
  else if c.toNat < 0x100 then '\\' :: 'x' :: hexDigits 2 c.toNat
  else if c.toNat < 0x10000 then '\\' :: 'u' :: hexDigits 4 c.toNat
  else '\\' :: 'U' :: hexDigits 8 c.toNat

/-- A text in quotes. -/
def quoted (text : String) : String :=
  let quote := quoteFor text.toList
  String.ofList (quote :: text.toList.flatMap (escaped quote) ++ [quote])

/-- A text in quotes, or `None` when there is no text. -/
def quotedOrNone : Option String → String
  | some text => quoted text
  | none => "None"

/-- A truth value. -/
def truth : Bool → String
  | true => "True"
  | false => "False"

/-- Items between brackets. -/
def listed (items : List String) : String :=
  "[" ++ ", ".intercalate items ++ "]"

/-- Items between braces. -/
def braced (items : List String) : String :=
  "\x7b" ++ ", ".intercalate items ++ "\x7d"

/-- One entry of a table: its key in quotes and its value. -/
def entry (key value : String) : String :=
  quoted key ++ ": " ++ value

end Propositional.Text
