import Propositional.Proofs.Evaluation
import Propositional.Proofs.Positions
import Propositional.Proofs.Signs

/-!
# What the sign of an occurrence means

A formula grows with what stands at a positive position and shrinks with what stands at a negative
one, as long as no biconditional stands above: putting something weaker there makes the formula
weaker in the first case and stronger in the second.

The sign is a number that is negated on the way down.  Beside it the set of polarities is followed
along the same way, from any set at the root; this set says which changes at a position are in
favour of the whole, also below a biconditional, where only no change is.

* `Formula.signAt?_eq_one_or` — a sign is one or minus one;
* `Formula.BelowIff`       — a biconditional stands above a position;
* `Formula.signsAt`        — the polarities of the occurrence at a position;
* `Formula.signsAt_of_belowIff`, `Formula.signsAt_eq_under` — both polarities below a biconditional,
  elsewhere those of the root, exchanged where the sign is negative;
* `Formula.favours_replaceAt` — a change at a position in favour of its polarities;
* `Formula.replaceAt_monotone` — the main result.
-/

namespace Propositional

/-- The polarities of an occurrence of the given sign in a formula that occurs with the given
ones. -/
def Signs.under (sign : Int) (s : Signs) : Signs :=
  if sign = -1 then s.flip else s

theorem Signs.under_under {sign : Int} (h : sign = 1 ∨ sign = -1) (s : Signs) :
    (s.under sign).under sign = s := by
  rcases h with rfl | rfl
  · rfl
  · rfl

namespace Formula

variable {α : Type} {f g l r u v : Formula α} {op : Connective} {p : Position} {s : Step}
  {signs : Signs} {sign : Int}

/-! ## Signs -/

/-- A position has the sign 1 or -1. -/
theorem signAt?_eq_one_or (h : f.signAt? p = some sign) : sign = 1 ∨ sign = -1 := by
  induction p generalizing f sign with
  | nil =>
    cases h
    exact Or.inl rfl
  | cons s rest ih =>
    obtain ⟨g, sign', -, hsign', rfl⟩ := signAt?_cons_eq_some_iff.mp h
    have hbelow := ih hsign'
    -- a step keeps the sign of what is below it or negates it
    unfold signBelow
    split <;> omega

/-! ## Biconditionals above a position -/

/-- A biconditional stands strictly above the position. -/
def BelowIff (f : Formula α) (p : Position) : Prop :=
  ∃ q s rest, p = q ++ s :: rest ∧ ∃ l r, f.at? q = some (.bin .iff l r)

/-- Nothing stands above the root, so no biconditional does. -/
@[simp]
theorem not_belowIff_nil : ¬ f.BelowIff [] := by
  rintro ⟨q, s, rest, hp, -⟩
  exact List.append_ne_nil_of_right_ne_nil q (List.cons_ne_nil s rest) hp.symm

/-- Either the root is a biconditional, or one stands above the position within a child. -/
theorem belowIff_cons (hs : f.child? s = some g) :
    f.BelowIff (s :: p) ↔ (∃ l r, f = .bin .iff l r) ∨ g.BelowIff p := by
  have hat (q : Position) : f.at? (s :: q) = g.at? q := by rw [at?, hs]
  constructor
  · rintro ⟨q, t, rest, hp, l, r, hq⟩
    cases q with
    | nil => exact Or.inl ⟨l, r, Option.some.inj hq⟩
    | cons s' q =>
      obtain ⟨rfl, rfl⟩ := List.cons_eq_cons.mp hp
      exact Or.inr ⟨q, t, rest, rfl, l, r, (hat q).symm.trans hq⟩
  · rintro (⟨l, r, rfl⟩ | ⟨q, t, rest, rfl, l, r, hq⟩)
    · exact ⟨[], s, p, rfl, l, r, rfl⟩
    · exact ⟨s :: q, t, rest, rfl, l, r, (hat q).trans hq⟩

@[simp]
theorem belowIff_neg : (neg f).BelowIff (.first :: p) ↔ f.BelowIff p := by
  simp [belowIff_cons (show (neg f).child? .first = some f from rfl)]

@[simp]
theorem belowIff_first : (bin op l r).BelowIff (.first :: p) ↔ op = .iff ∨ l.BelowIff p := by
  simp [belowIff_cons (show (bin op l r).child? .first = some l from rfl)]

@[simp]
theorem belowIff_second : (bin op l r).BelowIff (.second :: p) ↔ op = .iff ∨ r.BelowIff p := by
  simp [belowIff_cons (show (bin op l r).child? .second = some r from rfl)]

/-! ## Polarities along the way -/

/-- The polarities one step below a formula that occurs with the given ones. -/
def signsBelow (f : Formula α) (step : Step) (signs : Signs) : Signs :=
  match f with
  | .neg _ => signs.flip
  | .bin op _ _ => op.signsBelow step signs
  | _ => signs

/-- The polarities of the occurrence at a position in a formula that occurs with the given ones; a
position outside the tree has none. -/
def signsAt (signs : Signs) (f : Formula α) : Position → Signs
  | [] => signs
  | s :: rest =>
    match f.child? s with
    | some g => g.signsAt (f.signsBelow s signs) rest
    | none => .none

/-- The polarities at a position are handed down one step at a time. -/
theorem signsAt_cons (hs : f.child? s = some g) (p : Position) :
    f.signsAt signs (s :: p) = g.signsAt (f.signsBelow s signs) p := by
  rw [signsAt, hs]

/-- A step that is not taken from a biconditional exchanges the polarities when it flips. -/
theorem signsBelow_of_ne_iff (h : ¬ ∃ l r, f = .bin .iff l r) :
    f.signsBelow s signs = if f.flips s then signs.flip else signs := by
  cases f with
  | var a => rfl
  | const b => rfl
  | neg f => rfl
  | bin op l r =>
    cases op with
    | and => rfl
    | or => rfl
    | implies => cases s <;> rfl
    | iff => exact absurd ⟨l, r, rfl⟩ h

theorem signsBelow_both : f.signsBelow s .both = .both := by
  cases f with
  | var a => rfl
  | const b => rfl
  | neg f => rfl
  | bin op l r => exact op.signsBelow_both s

/-- Below both polarities there are both. -/
theorem signsAt_both (hp : f.at? p = some g) : f.signsAt .both p = .both := by
  induction p generalizing f with
  | nil => rfl
  | cons s rest ih =>
    obtain ⟨k, hk, hrest⟩ := at?_cons_eq_some_iff.mp hp
    rw [signsAt_cons hk, signsBelow_both, ih hrest]

/-- Everything below a biconditional occurs with both polarities. -/
theorem signsAt_of_belowIff (hp : f.at? p = some g) (h : f.BelowIff p) :
    f.signsAt signs p = .both := by
  induction p generalizing f signs with
  | nil => exact absurd h not_belowIff_nil
  | cons s rest ih =>
    obtain ⟨k, hk, hrest⟩ := at?_cons_eq_some_iff.mp hp
    rw [signsAt_cons hk]
    rcases (belowIff_cons hk).mp h with ⟨l, r, rfl⟩ | hbelow
    · -- from the biconditional on, both polarities are handed down
      exact signsAt_both hrest
    · exact ih hrest hbelow

/-- Elsewhere the sign says whether the polarities are those of the root or the opposite ones. -/
theorem signsAt_eq_under (hsign : f.signAt? p = some sign) (h : ¬ f.BelowIff p) :
    f.signsAt signs p = signs.under sign := by
  induction p generalizing f signs sign with
  | nil =>
    cases hsign
    rfl
  | cons s rest ih =>
    obtain ⟨k, sign', hk, hsign', rfl⟩ := signAt?_cons_eq_some_iff.mp hsign
    rw [belowIff_cons hk, not_or] at h
    rw [signsAt_cons hk, ih hsign' h.2, signsBelow_of_ne_iff h.1, signBelow]
    -- the flip of the set is the change of the sign, which is one or minus one
    split
    · rcases signAt?_eq_one_or hsign' with rfl | rfl
      · rfl
      · rfl
    · rfl

/-! ## Replacing what stands at a position -/

/-- A change of what stands at a position that is in favour of its polarities is in favour of those
of the whole formula. -/
theorem favours_replaceAt {w : α → Bool} (h : (f.signsAt signs p).Favours (u.eval w) (v.eval w)) :
    signs.Favours ((replaceAt u f p).eval w) ((replaceAt v f p).eval w) := by
  induction p generalizing f signs with
  | nil =>
    rw [replaceAt, replaceAt]
    exact h
  | cons s rest ih =>
    -- a step that leads outside the tree changes nothing, any other one leads to a side
    cases f with
    | var a => cases s <;> exact signs.favours_refl _
    | const b => cases s <;> exact signs.favours_refl _
    | neg f =>
      cases s with
      | first => exact Signs.favours_not (ih h)
      | second => exact signs.favours_refl _
    | bin op l r =>
      cases s with
      | first => exact op.favours_apply (ih h) (Signs.favours_refl _ _)
      | second => exact op.favours_apply (Signs.favours_refl _ _) (ih h)

/-- The atoms of a child are atoms of the formula. -/
theorem atoms_subset_of_child? (hs : f.child? s = some g) : g.atoms ⊆ f.atoms := by
  cases f with
  | var a => cases hs
  | const b => cases hs
  | neg f =>
    cases s with
    | first =>
      cases hs
      exact List.Subset.refl _
    | second => cases hs
  | bin op l r =>
    cases s with
    | first =>
      cases hs
      exact List.subset_append_left _ _
    | second =>
      cases hs
      exact List.subset_append_right _ _

/-- A subformula has no atoms of its own. -/
theorem atoms_subset_of_at? (h : f.at? p = some g) : g.atoms ⊆ f.atoms := by
  induction p generalizing f with
  | nil =>
    cases h
    exact List.Subset.refl _
  | cons s rest ih =>
    obtain ⟨k, hk, hrest⟩ := at?_cons_eq_some_iff.mp h
    exact List.Subset.trans (ih hrest) (atoms_subset_of_child? hk)

/-- **The sign of an occurrence says how the formula depends on it.**  At a position without a
biconditional above it the sign is one or minus one.  Under every valuation of the atoms under which
`u` implies `v`, the formula with `u` at this position implies the one with `v` there if the sign is
one, and is implied by it if the sign is minus one. -/
theorem replaceAt_monotone {value? : α → Option Bool} (hp : p ∈ f.positions)
    (hiff : ¬ f.BelowIff p)
    (hu : ∀ a ∈ (replaceAt u f p).atoms, (value? a).isSome = true)
    (hv : ∀ a ∈ (replaceAt v f p).atoms, (value? a).isSome = true)
    (huv : u.evaluate value? = .ok true → v.evaluate value? = .ok true) :
    ∃ sign x y, f.signAtText (some p.text) = .ok sign ∧
      (replaceAt u f p).evaluate value? = .ok x ∧ (replaceAt v f p).evaluate value? = .ok y ∧
      (sign = 1 ∧ (x = true → y = true) ∨ sign = -1 ∧ (y = true → x = true)) := by
  let w : α → Bool := fun a => (value? a).getD false
  have hthere := mem_positions.mp hp
  obtain ⟨sign, hsign⟩ := Option.isSome_iff_exists.mp (signAt?_isSome.mpr hthere)
  refine ⟨sign, _, _, signAtText_text.mpr hsign, evaluate_of_isSome hu, evaluate_of_isSome hv, ?_⟩
  -- the atoms of what is put in have values, so the implication is one of truth values
  have hvalueu : u.evaluate value? = .ok (u.eval w) :=
    evaluate_of_isSome fun a ha => hu a (atoms_subset_of_at? (at?_replaceAt hthere) ha)
  have hvaluev : v.evaluate value? = .ok (v.eval w) :=
    evaluate_of_isSome fun a ha => hv a (atoms_subset_of_at? (at?_replaceAt hthere) ha)
  have himplies : u.eval w = true → v.eval w = true := by
    rw [hvalueu, hvaluev, Except.ok.injEq, Except.ok.injEq] at huv
    exact huv
  -- the polarity of the whole is chosen such that the one of the position is positive
  have hchange : (f.signsAt (Signs.plus.under sign) p).Favours (u.eval w) (v.eval w) := by
    rw [signsAt_eq_under hsign hiff, Signs.under_under (signAt?_eq_one_or hsign)]
    exact ⟨fun _ => himplies, fun h => nomatch h⟩
  have hwhole := favours_replaceAt hchange
  rcases signAt?_eq_one_or hsign with rfl | rfl
  · exact Or.inl ⟨rfl, hwhole.1 rfl⟩
  · exact Or.inr ⟨rfl, hwhole.2 rfl⟩

/-- In `¬(a→b)→c` the left `a` occurs negatively and `b` positively.  Where `a` and `e` alone are
true, putting `d∨e` for `d` in the place of `a` makes the formula false, in the place of `b`
true. -/
theorem replaceAt_monotone_both_signs :
    let a : Letter := ⟨'a', rfl⟩
    let e : Letter := ⟨'e', rfl⟩
    let d : Formula Letter := .var ⟨'d', rfl⟩
    let f : Formula Letter := .bin .implies
      (.neg (.bin .implies (.var a) (.var ⟨'b', rfl⟩))) (.var ⟨'c', rfl⟩)
    let value? : Letter → Option Bool := fun x => some (x = a || x = e)
    (f.signAtText (some "1.1.1") = .ok (-1) ∧
      (replaceAt d f [.first, .first, .first]).evaluate value? = .ok true ∧
      (replaceAt (.bin .or d (.var e)) f [.first, .first, .first]).evaluate value? = .ok false) ∧
    f.signAtText (some "1.1.2") = .ok 1 ∧
      (replaceAt d f [.first, .first, .second]).evaluate value? = .ok false ∧
      (replaceAt (.bin .or d (.var e)) f [.first, .first, .second]).evaluate value? = .ok true := by
  intro a e d f value?
  have himplies : d.evaluate value? = .ok true →
      (bin .or d (.var e)).evaluate value? = .ok true := fun h => nomatch h
  constructor
  · obtain ⟨sign, x, y, hsign, hx, hy, hor⟩ :=
      @replaceAt_monotone _ f d (.bin .or d (.var e)) [.first, .first, .first] value?
        (by decide) (by simp [f]) (fun _ _ => rfl) (fun _ _ => rfl) himplies
    obtain rfl : true = x := Except.ok.inj hx
    obtain rfl : false = y := Except.ok.inj hy
    rcases hor with ⟨-, hgrows⟩ | ⟨rfl, -⟩
    · cases hgrows rfl
    · exact ⟨hsign, hx, hy⟩
  · obtain ⟨sign, x, y, hsign, hx, hy, hor⟩ :=
      @replaceAt_monotone _ f d (.bin .or d (.var e)) [.first, .first, .second] value?
        (by decide) (by simp [f]) (fun _ _ => rfl) (fun _ _ => rfl) himplies
    obtain rfl : false = x := Except.ok.inj hx
    obtain rfl : true = y := Except.ok.inj hy
    rcases hor with ⟨rfl, -⟩ | ⟨-, hshrinks⟩
    · exact ⟨hsign, hx, hy⟩
    · cases hshrinks rfl

end Formula

end Propositional
