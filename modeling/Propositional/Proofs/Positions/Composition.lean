import Propositional.Proofs.Positions

/-!
# Positions within subformulas

A position of a subformula is written behind the position of the subformula itself, with a dot
between the two texts unless one of them is that of the root.  What is found at the joined text is
what is found from the subformula on, and signs are multiplied.

For rows of steps all this is about lists that are appended.  The texts are brought down to it: the
joined texts of two rows are the text of the appended rows, and the texts that begin with the text
of a row and a dot are those of longer rows that begin with it.

* `Position.joined`, `Position.joined_text` — texts behind each other, and rows of steps;
* `Position.LiesUnder`, `Position.liesUnder_text` — texts that lead through another one;
* `Formula.exists_joined_iff` — the positions under that of a subformula are its own, joined to it;
* `Formula.positions_compose` — the main result.
-/

namespace Propositional

namespace Position

variable {p q : Position}

/-- The text of a position and behind it the text of a position from there on: with a dot between
them, unless one of them is empty. -/
def joined (p q : String) : String :=
  if p.isEmpty then q else if q.isEmpty then p else p ++ "." ++ q

/-- The texts that lead through a position: its own text, and what begins with it and a dot.  All
texts lead through the root. -/
def LiesUnder (text above : String) : Prop :=
  above = "" ∨ text = above ∨ (above ++ ".").toList <+: text.toList

/-- The texts of two rows of steps are joined to the text of both rows after each other. -/
theorem joined_text (p q : Position) : joined p.text q.text = (p ++ q).text := by
  cases p with
  | nil => rfl
  | cons s p =>
    have hp : s :: p ≠ [] := List.cons_ne_nil s p
    cases q with
    | nil =>
      rw [joined, isEmpty_text hp, if_neg Bool.false_ne_true, List.append_nil]
      rfl
    | cons t q =>
      have hq : t :: q ≠ [] := List.cons_ne_nil t q
      rw [joined, isEmpty_text hp, isEmpty_text hq, if_neg Bool.false_ne_true,
        if_neg Bool.false_ne_true, text, text, text, glyphs_append hp hq, String.ofList_append,
        ← List.singleton_append (l := glyphs (t :: q)), String.ofList_append, ← String.append_assoc]

/-- A row of steps with a dot behind its digits begins only what leads through it. -/
theorem isPrefix_of_glyphs (h : p.glyphs ++ ['.'] <+: q.glyphs) : p <+: q := by
  induction p generalizing q with
  | nil => exact List.nil_prefix
  | cons s rest ih =>
    cases q with
    | nil => exact absurd (List.prefix_nil.mp h) (by simp)
    | cons t q =>
      -- the first digits are equal, and behind them a dot stands on both sides
      have hdigit : s.digit = t.digit := by
        cases rest <;> cases q <;> simp_all [glyphs]
      obtain rfl : s = t := Option.some.inj (by
        rw [← s.ofDigit?_digit, ← t.ofDigit?_digit, hdigit])
      refine List.cons_prefix_cons.mpr ⟨rfl, ?_⟩
      cases rest with
      | nil => exact List.nil_prefix
      | cons u rest =>
        have hne : u :: rest ≠ [] := List.cons_ne_nil u rest
        cases q with
        | nil => simp [glyphs] at h
        | cons v q =>
          rw [glyphs_cons s hne, glyphs_cons s (List.cons_ne_nil v q)] at h
          exact ih (by simpa using h)

/-- The text of a row of steps leads through the texts of its first steps. -/
theorem liesUnder_text : LiesUnder q.text p.text ↔ p <+: q := by
  -- a dot behind a position, so that the next step is not taken for a part of its last one
  have htoList : (p.text ++ ".").toList = p.glyphs ++ ['.'] := by
    rw [String.toList_append, text, String.toList_ofList]
    rfl
  constructor
  · rintro (hroot | heq | hbegins)
    · rw [text_injective (hroot.trans (show "" = text [] from rfl))]
      exact List.nil_prefix
    · obtain rfl : q = p := text_injective heq
      exact List.prefix_refl q
    · rw [htoList, text, String.toList_ofList] at hbegins
      exact isPrefix_of_glyphs hbegins
  · rintro ⟨r, rfl⟩
    by_cases hp : p = []
    · subst hp
      exact Or.inl rfl
    by_cases hr : r = []
    · subst hr
      rw [List.append_nil]
      exact Or.inr (Or.inl rfl)
    · refine Or.inr (Or.inr ?_)
      rw [htoList, text, String.toList_ofList, glyphs_append hp hr]
      exact ⟨glyphs r, by rw [List.append_assoc, List.singleton_append]⟩

end Position

namespace Formula

variable {α : Type} {f g : Formula α} {p : Position}

/-- The positions under that of a subformula are those of the subformula, joined to it. -/
theorem exists_joined_iff (hp : f.at? p = some g) {text : String} :
    text ∈ f.positionTexts ∧ Position.LiesUnder text p.text ↔
      ∃ q ∈ g.positionTexts, Position.joined p.text q = text := by
  have hbelow : ∀ q, f.at? (p ++ q) = g.at? q := by
    intro q
    rw [at?_append, hp, Option.bind_some]
  constructor
  · rintro ⟨htext, hunder⟩
    obtain ⟨r, hr, rfl⟩ := mem_positionTexts.mp htext
    obtain ⟨q, rfl⟩ := Position.liesUnder_text.mp hunder
    rw [mem_positions, hbelow] at hr
    exact ⟨Position.text q, text_mem_positionTexts.mpr hr, Position.joined_text p q⟩
  · rintro ⟨_, htext, rfl⟩
    obtain ⟨q, hq, rfl⟩ := mem_positionTexts.mp htext
    rw [Position.joined_text, text_mem_positionTexts, hbelow]
    exact ⟨mem_positions.mp hq, Position.liesUnder_text.mpr (List.prefix_append p q)⟩

/-- **Positions compose.**  At the text of a position the annotated tree has the annotated tree of
the subformula, with this text and with the sign of the occurrence at its root.  A position of the
subformula joined to it is a position of the formula, at which the same subformula is found and the
product of the two signs.  Every position of the formula that leads through it arises this way. -/
theorem positions_compose {text : String} (h : f.atText? (some text) = some g) :
    ∃ sign, f.signAtText (some text) = .ok sign ∧
      (Position.read text).bind f.annotated.at? = some (g.annotate sign text) ∧
      (∀ q ∈ g.positionTexts,
        Position.joined text q ∈ f.positionTexts ∧
        f.atText? (some (Position.joined text q)) = g.atText? (some q) ∧
        ∃ sign', g.signAtText (some q) = .ok sign' ∧
          f.signAtText (some (Position.joined text q)) = .ok (sign * sign')) ∧
      ∀ other, other ∈ f.positionTexts ∧ Position.LiesUnder other text ↔
        ∃ q ∈ g.positionTexts, Position.joined text q = other := by
  -- the text is that of a position, and everything is said of the rows of steps
  obtain ⟨p, rfl, hp⟩ := atText?_eq_some_iff.mp h
  obtain ⟨sign, hsign, htree⟩ := at?_annotated hp
  have hread : Position.read p.text = some p := Position.read_eq_some_iff.mpr rfl
  refine ⟨sign, signAtText_text.mpr hsign, ?_, ?_, fun _ => exists_joined_iff hp⟩
  · rw [hread, Option.bind_some, htree]
  · intro _ htext
    refine ⟨((exists_joined_iff hp).mpr ⟨_, htext, rfl⟩).1, ?_⟩
    obtain ⟨sign', hsign'⟩ := exists_signAtText_iff.mpr htext
    obtain ⟨q, rfl, hq⟩ := signAtText_eq_ok_iff.mp hsign'
    rw [Position.joined_text, atText?_text, atText?_text, at?_append, hp, Option.bind_some]
    refine ⟨rfl, sign', hsign', signAtText_text.mpr ?_⟩
    rw [signAt?_append hp hsign, hq, Option.map_some]

/-- The left side of an implication below a negation is positive again, and the right side is found
among the positions of the implication. -/
theorem positions_compose_below_negation :
    let a : Formula Letter := .var ⟨'a', rfl⟩
    let b : Formula Letter := .var ⟨'b', rfl⟩
    let g : Formula Letter := .bin .implies a b
    let f : Formula Letter := .bin .and (.neg g) b
    f.atText? (some "1.1") = some g ∧
      (Position.read "1.1").bind f.annotated.at? = some (g.annotate (-1) "1.1") ∧
      f.atText? (some "1.1.1") = g.atText? (some "1") ∧
      g.signAtText (some "1") = .ok (-1) ∧
      f.signAtText (some "1.1.1") = .ok 1 ∧
      ∃ q ∈ g.positionTexts, Position.joined "1.1" q = "1.1.2" := by
  intro a b g f
  have hg : f.atText? (some "1.1") = some g := by decide +kernel
  obtain ⟨sign, hsign, htree, hjoined, hunder⟩ := positions_compose hg
  have hnegative : f.signAtText (some "1.1") = .ok (-1) := by decide +kernel
  obtain rfl : sign = -1 := Except.ok.inj (hsign.symm.trans hnegative)
  have hleft : "1" ∈ g.positionTexts := mem_positionTexts.mpr ⟨[.first], by decide, rfl⟩
  obtain ⟨-, hsame, sign', hsign', hproduct⟩ := hjoined "1" hleft
  have hflipped : g.signAtText (some "1") = .ok (-1) := by decide +kernel
  obtain rfl : sign' = -1 := Except.ok.inj (hsign'.symm.trans hflipped)
  have hright : "1.1.2" ∈ f.positionTexts :=
    mem_positionTexts.mpr ⟨[.first, .first, .second], by decide, rfl⟩
  have hbelow : Position.LiesUnder "1.1.2" "1.1" := Or.inr (Or.inr (by decide +kernel))
  exact ⟨hg, htree, hsame, hflipped, hproduct, (hunder "1.1.2").mp ⟨hright, hbelow⟩⟩

end Formula

end Propositional
