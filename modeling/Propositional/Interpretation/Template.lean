import Propositional.Formula

/-!
# Templates

The body of a statement may mention the formula under discussion by the letter `A`.

* `placeholder`        — the letter;
* `Template`           — formulas in which `A` may stand as an atom;
* `Formula.fill`       — a template with a formula in all those places;
* `splice`             — the same on texts: the letter is replaced by the formula's text in
  parentheses.
-/

namespace Propositional

/-- The letter that stands for the formula under discussion. -/
def placeholder : Char := 'A'

/-- Lower-case letters and the placeholder as atoms. -/
instance : Atom (Option Letter) where
  glyph
    | some a => a.char
    | none => placeholder
  ofGlyph? c := if c = placeholder then some none else (Letter.ofChar? c).map some
  ofGlyph?_eq_some_iff := by
    intro c a
    cases a with
    | none =>
      by_cases h : c = placeholder
      · simp [h]
      · simp [h, Ne.symm h]
    | some a =>
      by_cases h : c = placeholder
      · have hne : a.char ≠ c := by
          intro e
          have := a.isLower
          rw [e, h] at this
          exact absurd this (by decide)
        simp [h]
        exact fun e => hne (e.trans h.symm)
      · simp [h, Letter.ofChar?_eq_some_iff]
  isAlpha_glyph
    | some a => a.isAlpha_char
    | none => by decide

/-- Formulas in which the placeholder may stand as an atom. -/
abbrev Template : Type :=
  Formula (Option Letter)

/-- A template with a formula in place of every placeholder. -/
def Formula.fill (s : Formula Letter) : Template → Formula Letter
  | .var (some a) => .var a
  | .var none => s
  | .const b => .const b
  | .neg f => .neg (fill s f)
  | .bin op l r => .bin op (fill s l) (fill s r)

/-- One character of a body, or the text of a formula in parentheses for the placeholder. -/
def spliceChar (s : Formula Letter) (c : Char) : List Char :=
  if c = placeholder then '(' :: (s.glyphs ++ [')']) else [c]

/-- A body with the text of a formula in parentheses for every placeholder. -/
def splice (body : String) (s : Formula Letter) : String :=
  String.ofList (body.toList.flatMap (spliceChar s))

end Propositional
