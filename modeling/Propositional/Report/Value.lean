/-!
# Report values

The data of which reports are made: nothing, truth values, whole numbers, texts, lists, and
records whose fields keep their order.  They are printed as indented JSON.

* `Value`        — the data;
* `Value.pretty` — a value as JSON, two blanks deeper for each level of nesting.
-/

namespace Propositional.Report

/-- A value in a report. -/
inductive Value where
  | null
  | bool (value : Bool)
  | int (value : Int)
  | text (value : String)
  | list (items : List Value)
  | record (fields : List (String × Value))
deriving Inhabited

namespace Value

/-- A list of texts. -/
def texts (items : List String) : Value :=
  .list (items.map .text)

/-- A truth value, or nothing. -/
def bool? : Option Bool → Value
  | some value => .bool value
  | none => .null

/-- One character inside a JSON string: the quotation mark, the backslash and the control
characters are escaped, everything else stands for itself. -/
def escaped (c : Char) : List Char :=
  if c = '\x22' then ['\\', '\x22']
  else if c = '\\' then ['\\', '\\']
  else if c = '\n' then ['\\', 'n']
  else if c = '\r' then ['\\', 'r']
  else if c = '\t' then ['\\', 't']
  else if c = '\x08' then ['\\', 'b']
  else if c = '\x0c' then ['\\', 'f']
  else if c.toNat < 0x20 then
    let digits := Nat.toDigits 16 c.toNat
    '\\' :: 'u' :: (List.replicate (4 - digits.length) '0' ++ digits)
  else [c]

/-- A JSON string. -/
def quoted (text : String) : String :=
  String.ofList ('\x22' :: (text.toList.flatMap escaped ++ ['\x22']))

/-- A new line at the given depth. -/
def lineBreak (depth : Nat) : String :=
  "\n" ++ String.ofList (List.replicate (2 * depth) ' ')

/-- The lines between two brackets, or nothing between them when there are none. -/
def enclosed (left right : String) (depth : Nat) (items : List String) : String :=
  match items with
  | [] => left ++ right
  | items =>
    left ++ lineBreak (depth + 1) ++ ("," ++ lineBreak (depth + 1)).intercalate items ++
      lineBreak depth ++ right

mutual

/-- A value as JSON at the given depth. -/
def prettyAt (depth : Nat) : Value → String
  | .null => "null"
  | .bool true => "true"
  | .bool false => "false"
  | .int value => toString value
  | .text value => quoted value
  | .list items => enclosed "[" "]" depth (prettyItems (depth + 1) items)
  | .record fields => enclosed "\x7b" "\x7d" depth (prettyFields (depth + 1) fields)

/-- The items of a list. -/
def prettyItems (depth : Nat) : List Value → List String
  | [] => []
  | item :: rest => prettyAt depth item :: prettyItems depth rest

/-- The fields of a record. -/
def prettyFields (depth : Nat) : List (String × Value) → List String
  | [] => []
  | (name, value) :: rest =>
    (quoted name ++ ": " ++ prettyAt depth value) :: prettyFields depth rest

end

/-- A value as JSON. -/
def pretty (value : Value) : String :=
  value.prettyAt 0

end Value

end Propositional.Report
