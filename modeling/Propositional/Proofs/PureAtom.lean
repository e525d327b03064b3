import Propositional.Proofs.Checked
import Propositional.Proofs.Folding
import Propositional.Proofs.PureAtom.Walks

/-!
# Eliminating pure atoms keeps satisfiability

A formula is monotone in the atoms that occur positively only and antitone in those that occur
negatively only.  Giving every pure atom its polarity as its value can therefore only help, and the
elimination is the formula under exactly these values.

* `Formula.favours_eval`  — changes of atoms in favour of their polarities are in favour of the
  formula;
* `PureAtom.favours_settle` — settling the pure atoms is such a change;
* `PureAtom.elimination_preserves_satisfiability` — the elimination on the text of a formula.
-/

namespace Propositional

/-! ## Changes of atoms -/

namespace Formula

variable {f : Formula Letter} {a : Letter} {v w : Letter → Bool}

/-- A change of atoms that is in favour of the polarities with which they occur is in favour of the
polarities with which the formula occurs. -/
theorem favours_eval {signs : Signs} (h : ∀ a, (f.signsOf signs a).Favours (v a) (w a)) :
    signs.Favours (f.eval v) (f.eval w) := by
  induction f generalizing signs with
  | var b =>
    have hb := h b
    rw [signsOf, if_pos rfl] at hb
    exact hb
  | const b => exact signs.favours_refl b
  | neg f ih => exact Signs.favours_not (ih h)
  | bin op l r ihl ihr =>
    have hsides := fun a => Signs.favours_union.mp (signsOf_bin signs op l r ▸ h a)
    exact op.favours_apply (ihl fun a => (hsides a).1) (ihr fun a => (hsides a).2)

end Formula

/-! ## Pure atoms -/

namespace PureAtom

variable {f : Formula Letter} {a : Letter} {b : Bool}

/-- The pure atoms are those that a table lists with one polarity. -/
theorem get?_find_eq_some_iff (t : Table Letter Signs) :
    (find t).get? a = some b ↔ ∃ s, t.get? a = some s ∧ s.only? = some b := by
  -- leaving out entries repeats no key
  have hkeys : ((t.entries.filterMap fun p => p.2.only?.map fun b => (p.1, b)).map
      Prod.fst).Sublist (t.entries.map Prod.fst) := by
    generalize t.entries = entries
    induction entries with
    | nil => exact List.Sublist.refl _
    | cons entry rest ih =>
      obtain ⟨k, s⟩ := entry
      cases hs : s.only? with
      | none => simpa [hs] using ih.cons k
      | some b => simpa [hs] using ih.cons_cons k
  refine (Table.get?_ofList_eq_some_iff (t.nodup.sublist hkeys)).trans
    (List.mem_filterMap.trans ?_)
  constructor
  · rintro ⟨⟨k, s⟩, hmem, hs⟩
    obtain ⟨c, hc, heq⟩ := Option.map_eq_some_iff.mp hs
    cases heq
    exact ⟨s, t.get?_eq_some_iff.mpr hmem, hc⟩
  · rintro ⟨s, hs, hb⟩
    exact ⟨(a, s), t.get?_eq_some_iff.mp hs, Option.map_eq_some_iff.mpr ⟨b, hb, rfl⟩⟩

/-- Giving the pure atoms of a formula their polarities is in favour of the formula. -/
theorem favours_settle (f : Formula Letter) (v : Letter → Bool) (a : Letter) :
    (f.signsOf .plus a).Favours (v a) (Formula.settle (find f.signs).get? v a) := by
  unfold Formula.settle
  cases hpure : (find f.signs).get? a with
  | none => exact Signs.favours_refl _ _
  | some b =>
    obtain ⟨s, hs, hb⟩ := (get?_find_eq_some_iff _).mp hpure
    have hsigns : f.signsOf .plus a = s := by rw [← Formula.getD_get?_signs, hs, Option.getD_some]
    rw [hsigns, Option.getD_some]
    obtain ⟨positive, negative⟩ := s
    cases positive <;> cases negative <;> simp_all [Signs.only?, Signs.Favours]

/-- A formula that is true stays true when its pure atoms get their polarities. -/
theorem eval_settle_of_eval {v : Letter → Bool} (h : f.eval v = true) :
    f.eval (Formula.settle (find f.signs).get? v) = true :=
  (Formula.favours_eval (favours_settle f v)).1 rfl h

/-- The elimination answers on every text that is a formula. -/
theorem run_analyse {inputs : Inputs} (h : Formula.read inputs.formula.content = .ok f)
    (threshold : Level) :
    ((analyse inputs).run threshold).2 =
      .ok ⟨inputs.formulaText, f.signs, f.eliminate (find f.signs).get?⟩ := by
  rw [analyse, Checked.run_note_bind, Checked.run_bind_snd,
    (Checked.run_readFormula_eq_ok_iff threshold).mpr h]
  rfl

/-- **Eliminating pure atoms keeps satisfiability.**  On every text that is a formula, the
elimination answers; what it leaves is satisfiable exactly when the formula is.  Under every
assignment of the formula's letters, a true formula stays true when its pure atoms get their
polarities, and what is left has the value that the formula then has. -/
theorem elimination_preserves_satisfiability {inputs : Inputs} {f : Formula Letter}
    (hread : Formula.read inputs.formula.content = .ok f) (threshold : Level) :
    ∃ p : PureAtom, ((analyse inputs).run threshold).2 = .ok p ∧
      p.atoms = find f.signs ∧ p.simplified = f.eliminate p.atoms.get? ∧
      (f.Satisfiable ↔ p.simplified.Satisfiable) ∧
      ∀ r : Letter → Option Bool, (∀ a ∈ f.atoms, (r a).isSome = true) →
        (f.evaluate r = .ok true →
          f.evaluate (fun a => (p.atoms.get? a).or (r a)) = .ok true) ∧
        ∃ x, p.simplified.evaluate r = .ok x ∧
          f.evaluate (fun a => (p.atoms.get? a).or (r a)) = .ok x := by
  refine ⟨_, run_analyse hread threshold, rfl, rfl, ?_, ?_⟩
  · constructor
    · rintro ⟨v, hv⟩
      exact ⟨v, by rw [Formula.eval_eliminate]; exact eval_settle_of_eval hv⟩
    · rintro ⟨v, hv⟩
      exact ⟨_, by rw [← Formula.eval_eliminate]; exact hv⟩
  · intro r hr
    let v : Letter → Bool := fun a => (r a).getD false
    have hcover : ∀ a ∈ f.atoms, r a = some (v a) := fun a ha => Formula.eq_some_getD (hr a ha)
    have hbefore : f.evaluate r = .ok (f.eval v) := Formula.evaluate_of_isSome hr
    -- the pure atoms have their polarities, the other letters what they had
    have hsettled : f.evaluate (fun a => ((find f.signs).get? a).or (r a)) =
        .ok (f.eval (Formula.settle (find f.signs).get? v)) := by
      apply Formula.evaluate_eq_ok
      intro a ha
      rw [hcover a ha, Formula.settle]
      cases (find f.signs).get? a <;> rfl
    refine ⟨?_, _, ?_, hsettled⟩
    · -- settling is in favour of the formula, so truth is kept
      intro htrue
      rw [hbefore] at htrue
      exact hsettled.trans (by rw [eval_settle_of_eval (Except.ok.inj htrue)])
    · -- what is left has no letters of its own, so the same assignment covers it
      rw [← Formula.eval_eliminate]
      exact Formula.evaluate_eq_ok fun a ha => hcover a (Formula.mem_atoms_eliminate ha).1

/-- The letter `a` occurs negatively only, the others with both polarities. -/
theorem elimination_of_one_pure_atom :
    ∃ p : PureAtom, ((analyse { formula := .text "(a→b)∧(c↔b)" }).run .info).2 = .ok p ∧
      p.simplified.text = "(c↔b)" ∧ p.simplified.evaluate (fun _ => some true) = .ok true := by
  let a : Letter := ⟨'a', rfl⟩
  let b : Letter := ⟨'b', rfl⟩
  let c : Letter := ⟨'c', rfl⟩
  let f : Formula Letter :=
    .bin .and (.bin .implies (.var a) (.var b)) (.bin .iff (.var c) (.var b))
  have hread : Formula.read "(a→b)∧(c↔b)" = .ok f := rfl
  have hleft : f.eliminate (find f.signs).get? = .bin .iff (.var c) (.var b) := by decide +kernel
  obtain ⟨p, hp, hatoms, hsimplified, -, hvalues⟩ :=
    @elimination_preserves_satisfiability { formula := .text "(a→b)∧(c↔b)" } f hread .info
  obtain ⟨hkept, x, hx, hsettled⟩ := hvalues (fun _ => some true) fun _ _ => rfl
  rw [hatoms, hleft] at hsimplified
  refine ⟨p, hp, by rw [hsimplified]; rfl, ?_⟩
  rw [hkept rfl] at hsettled
  rw [hx, hsettled]

end PureAtom

end Propositional
