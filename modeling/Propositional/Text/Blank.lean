/-!
# White space

The white-space characters of Unicode text, and cutting them off the two ends of a text.

* `isBlank` — the class: the characters of bidirectional class `WS`, `B` or `S` or of category `Zs`;
* `strip`   — a text without the white space at its ends.
-/

namespace Propositional.Text

/-- The white-space code points as inclusive ranges, in ascending order. -/
def blankRanges : List (Nat × Nat) :=
  [(0x9, 0xD), (0x1C, 0x20), (0x85, 0x85), (0xA0, 0xA0), (0x1680, 0x1680), (0x2000, 0x200A),
    (0x2028, 0x2029), (0x202F, 0x202F), (0x205F, 0x205F), (0x3000, 0x3000)]

/-- A character is blank when one of the white-space ranges contains it. -/
def isBlank (c : Char) : Bool :=
  blankRanges.any fun (low, high) => low ≤ c.toNat && c.toNat ≤ high

/-- The text without its leading white space. -/
def stripLeft (text : List Char) : List Char :=
  text.dropWhile isBlank

/-- The text without its trailing white space. -/
def stripRight (text : List Char) : List Char :=
  (text.reverse.dropWhile isBlank).reverse

/-- The text without the white space at its two ends. -/
def strip (text : List Char) : List Char :=
  stripRight (stripLeft text)

/-- Every ASCII white-space character is blank. -/
theorem isBlank_of_isWhitespace {c : Char} (h : c.isWhitespace = true) : isBlank c = true := by
  simp only [Char.isWhitespace, Bool.or_eq_true, decide_eq_true_eq] at h
  rcases h with ((rfl | rfl) | rfl) | rfl <;> decide

end Propositional.Text
