import Propositional.Formula.Latex
import Propositional.Proofs.Tokens

/-!
# LaTeX texts read in one way only

No LaTeX text of a formula begins another one, so a text tells of which formula it is, also when
more text follows.

The opening characters tell the outermost construction: an atom is a letter, a binary formula opens
a parenthesis, and the commands for truth values and negation differ at the first or second letter.
What stands behind the opening is compared in turn, and for that it does not matter what follows:
so the statement for the induction is about texts with anything behind them.

* `Connective.latexCommand_append_inj`, `truthCommand_append_inj` — commands with text behind them;
* `Formula.latexGlyphs_append_inj` — formulas with text behind them;
* `Formula.latex_prefix_iff`       — the main result.
-/

namespace Propositional

variable {α : Type} [Atom α] {x y : List Char}

/-- Atoms that are written alike are equal. -/
theorem Atom.glyph_injective : Function.Injective (Atom.glyph : α → Char) := by
  intro a b h
  have ha : Atom.ofGlyph? (Atom.glyph a) = some a := Atom.ofGlyph?_eq_some_iff.mpr rfl
  have hb : Atom.ofGlyph? (Atom.glyph a) = some b := Atom.ofGlyph?_eq_some_iff.mpr h.symm
  exact Option.some.inj (ha.symm.trans hb)

/-! ## Commands -/

/-- A command ends at the blank behind it.  Two of them begin with the same letter, so the blank is
needed to tell that neither goes on. -/
theorem Connective.latexCommand_append_inj {op op' : Connective}
    (h : op.latexCommand.toList ++ ' ' :: x = op'.latexCommand.toList ++ ' ' :: y) :
    op = op' ∧ x = y := by
  cases op <;> cases op' <;> simp_all [latexCommand]

theorem truthCommand_append_inj {b b' : Bool}
    (h : (truthCommand b).toList ++ x = (truthCommand b').toList ++ y) : b = b' ∧ x = y := by
  cases b <;> cases b' <;> simp_all [truthCommand]

/-- A truth value is not taken for a negation, whatever follows. -/
theorem truthCommand_append_ne (b : Bool) :
    (truthCommand b).toList ++ x ≠ negationCommand.toList ++ y := by
  cases b <;> simp [truthCommand, negationCommand]

namespace Formula

/-! ## Formulas -/

/-- The character with which the LaTeX text of a formula opens. -/
def latexOpening : Formula α → Char
  | .var a => Atom.glyph a
  | .const _ => '\\'
  | .neg _ => '\\'
  | .bin _ _ _ => '('

/-- The first character of a formula is its opening. -/
theorem latexGlyphs_eq_cons (f : Formula α) : ∃ rest, f.latexGlyphs = f.latexOpening :: rest := by
  cases f with
  | var a => exact ⟨[], rfl⟩
  | const b => cases b <;> exact ⟨_, rfl⟩
  | neg f => exact ⟨_, rfl⟩
  | bin op l r => exact ⟨_, rfl⟩

/-- Formulas with a common beginning have the same opening. -/
theorem latexOpening_eq {s t : Formula α} (h : s.latexGlyphs ++ x = t.latexGlyphs ++ y) :
    s.latexOpening = t.latexOpening := by
  obtain ⟨rest, hs⟩ := s.latexGlyphs_eq_cons
  obtain ⟨rest', ht⟩ := t.latexGlyphs_eq_cons
  rw [hs, ht] at h
  exact (List.cons.inj h).1

/-- A text that begins with the LaTeX texts of two formulas has only one formula at its beginning,
and the same text behind it. -/
theorem latexGlyphs_append_inj {s t : Formula α} (h : s.latexGlyphs ++ x = t.latexGlyphs ++ y) :
    s = t ∧ x = y := by
  have hopening := latexOpening_eq h
  have hparen : '(' ≠ '\\' := by decide
  -- formulas with different constructions at the root differ in the opening, except for `\top`,
  -- `\bot` and `\neg`
  induction s generalizing t x y with
  | var a =>
    have hatom : ∀ {c : Char}, c.isAlpha = false → Atom.glyph a ≠ c := Symbol.glyph_atom_ne a
    cases t with
    | var b =>
      obtain ⟨hglyph, hrest⟩ := List.cons.inj h
      exact ⟨by rw [Atom.glyph_injective hglyph], hrest⟩
    | const b => exact absurd hopening (hatom rfl)
    | neg g => exact absurd hopening (hatom rfl)
    | bin op l r => exact absurd hopening (hatom rfl)
  | const b =>
    cases t with
    | var a => exact absurd hopening.symm (Symbol.glyph_atom_ne a rfl)
    | const b' =>
      obtain ⟨rfl, hrest⟩ := truthCommand_append_inj h
      exact ⟨rfl, hrest⟩
    | neg g =>
      rw [latexGlyphs, latexGlyphs, List.append_assoc] at h
      exact absurd h (truthCommand_append_ne b)
    | bin op l r => exact absurd hopening.symm hparen
  | neg f ih =>
    cases t with
    | var a => exact absurd hopening.symm (Symbol.glyph_atom_ne a rfl)
    | const b =>
      rw [latexGlyphs, latexGlyphs, List.append_assoc] at h
      exact absurd h.symm (truthCommand_append_ne b)
    | neg g =>
      have hoperand : f.latexGlyphs ++ '\x7d' :: x = g.latexGlyphs ++ '\x7d' :: y := by
        simpa [latexGlyphs] using h
      obtain ⟨rfl, hrest⟩ := ih hoperand (latexOpening_eq hoperand)
      exact ⟨rfl, (List.cons.inj hrest).2⟩
    | bin op l r => exact absurd hopening.symm hparen
  | bin op l r ihl ihr =>
    cases t with
    | var a => exact absurd hopening.symm (Symbol.glyph_atom_ne a rfl)
    | const b => exact absurd hopening hparen
    | neg g => exact absurd hopening hparen
    | bin op' l' r' =>
      have hleft : l.latexGlyphs ++ ' ' :: (op.latexCommand.toList ++ ' ' ::
            (r.latexGlyphs ++ ')' :: x)) =
          l'.latexGlyphs ++ ' ' :: (op'.latexCommand.toList ++ ' ' ::
            (r'.latexGlyphs ++ ')' :: y)) := by
        simpa [latexGlyphs] using h
      -- the left sides are equal, then the commands, then the right sides
      obtain ⟨rfl, hcommand⟩ := ihl hleft (latexOpening_eq hleft)
      obtain ⟨rfl, hright⟩ := Connective.latexCommand_append_inj (List.cons.inj hcommand).2
      obtain ⟨rfl, hrest⟩ := ihr hright (latexOpening_eq hright)
      exact ⟨rfl, (List.cons.inj hrest).2⟩

theorem format_latex (f : Formula α) :
    (f.format (.ofName (some "latex"))).toList = f.latexGlyphs :=
  String.toList_ofList

/-- **LaTeX texts are uniquely readable.**  The LaTeX text of a formula begins that of another one
only if the two are the same formula; in particular different formulas have different texts. -/
theorem latex_prefix_iff (s t : Formula α) :
    ((s.format (.ofName (some "latex"))).toList <+: (t.format (.ofName (some "latex"))).toList ↔
        s = t) ∧
      (s.format (.ofName (some "latex")) = t.format (.ofName (some "latex")) ↔ s = t) := by
  have hbegins : (s.format (.ofName (some "latex"))).toList <+:
      (t.format (.ofName (some "latex"))).toList → s = t := by
    rw [format_latex, format_latex]
    rintro ⟨rest, hrest⟩
    rw [← List.append_nil t.latexGlyphs] at hrest
    exact (latexGlyphs_append_inj hrest).1
  refine ⟨⟨hbegins, ?_⟩, ⟨fun h => hbegins ?_, congrArg _⟩⟩
  · rintro rfl
    exact List.prefix_refl _
  · exact ⟨[], (List.append_nil _).trans (congrArg String.toList h)⟩

end Formula

end Propositional
