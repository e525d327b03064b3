/-!
# Decimal digits

The decimal digits of every script (general category `Nd`).  They come in runs of ten code points
in ascending value, so a digit is known by the run that it lies in.

* `zeros`        — the digit zero of each run;
* `digitValue?`  — the value of a digit;
* `decimal?`     — the number that a non-empty row of digits denotes, whatever their scripts;
* `digitLimit`   — how many digits a number may have to be read.
-/

namespace Propositional.Text

/-- The code point of the digit zero of every run of ten decimal digits, in ascending order. -/
def zeros : List Nat :=
  [0x30, 0x660, 0x6F0, 0x7C0, 0x966, 0x9E6, 0xA66, 0xAE6, 0xB66, 0xBE6, 0xC66, 0xCE6, 0xD66,
    0xDE6, 0xE50, 0xED0, 0xF20, 0x1040, 0x1090, 0x17E0, 0x1810, 0x1946, 0x19D0, 0x1A80, 0x1A90,
    0x1B50, 0x1BB0, 0x1C40, 0x1C50, 0xA620, 0xA8D0, 0xA900, 0xA9D0, 0xA9F0, 0xAA50, 0xABF0,
    0xFF10, 0x104A0, 0x10D30, 0x11066, 0x110F0, 0x11136, 0x111D0, 0x112F0, 0x11450, 0x114D0,
    0x11650, 0x116C0, 0x11730, 0x118E0, 0x11950, 0x11C50, 0x11D50, 0x11DA0, 0x16A60, 0x16AC0,
    0x16B50, 0x1D7CE, 0x1D7D8, 0x1D7E2, 0x1D7EC, 0x1D7F6, 0x1E140, 0x1E2F0, 0x1E950, 0x1FBF0]

/-- The value of a decimal digit: its distance from the zero of its run. -/
def digitValue? (c : Char) : Option Nat :=
  (zeros.find? fun start => start ≤ c.toNat && c.toNat < start + 10).map (c.toNat - ·)

/-- The number written by a row of decimal digits, most significant first. -/
def decimalFrom? (value : Nat) : List Char → Option Nat
  | [] => some value
  | c :: rest => (digitValue? c).bind fun digit => decimalFrom? (10 * value + digit) rest

/-- The number written by a row of decimal digits; the empty row writes none. -/
def decimal? (digits : List Char) : Option Nat :=
  if digits.isEmpty then none else decimalFrom? 0 digits

/-- The largest number of digits, leading zeros among them, with which a number is read. -/
def digitLimit : Nat := 4300

/-- The ten ASCII digits have their usual values. -/
theorem digitValue?_ascii :
    ("0123456789".toList.map digitValue?) = (List.range 10).map some := by decide

end Propositional.Text
