/-!
# Letters

Propositional variables are single lower-case letters `a` to `z`.  The bound is part of the type,
so every `Letter` is a variable that can be written and read back.

* `Letter`          — a character together with the proof that it is a lower-case letter;
* `Letter.ofChar?`  — the letter that a character is, if it is one;
* `Letter.name`     — the letter as a text of length one.
-/

namespace Propositional

/-- A propositional variable: one of the characters `a` to `z`. -/
structure Letter where
  char : Char
  -- Only lower-case letters name variables.
  isLower : char.isLower = true
deriving DecidableEq

namespace Letter

/-- Two letters with the same character are the same letter. -/
@[ext]
theorem ext {a b : Letter} (h : a.char = b.char) : a = b := by
  cases a
  cases b
  cases h
  rfl

/-- The letter that a character is, if it is a lower-case letter. -/
def ofChar? (c : Char) : Option Letter :=
  if h : c.isLower = true then some ⟨c, h⟩ else none

/-- The letter as a text. -/
def name (a : Letter) : String :=
  String.ofList [a.char]

/-- The letter that a text names, if the text is a single lower-case letter. -/
def ofName? (text : String) : Option Letter :=
  match text.toList with
  | [c] => ofChar? c
  | _ => none

/-- Alphabetical order. -/
def before (a b : Letter) : Bool :=
  a.char.toNat ≤ b.char.toNat

/-- A character reads as the letter that is written with it, and as no other. -/
theorem ofChar?_eq_some_iff {c : Char} {a : Letter} : ofChar? c = some a ↔ a.char = c := by
  constructor
  · intro h
    unfold ofChar? at h
    split at h
    · cases h
      rfl
    · cases h
  · rintro rfl
    simp [ofChar?, a.isLower]

/-- A variable is written as an ASCII letter. -/
theorem isAlpha_char (a : Letter) : a.char.isAlpha = true := by
  show (a.char.isUpper || a.char.isLower) = true
  rw [a.isLower, Bool.or_true]

theorem isLower_iff {c : Char} : c.isLower = true ↔ 'a' ≤ c ∧ c ≤ 'z' := by
  rw [show c.isLower = (decide (c.val ≥ 'a'.val) && decide (c.val ≤ 'z'.val)) from rfl,
    Bool.and_eq_true, decide_eq_true_eq, decide_eq_true_eq]
  rfl

theorem char_ne (a : Letter) {c : Char} (hc : c.isLower = false) : a.char ≠ c := by
  rintro rfl
  cases a.isLower.symm.trans hc

/-- The text of a letter reads as that letter. -/
@[simp]
theorem ofName?_name (a : Letter) : ofName? a.name = some a := by
  simp [ofName?, name, ofChar?_eq_some_iff]

end Letter

end Propositional
