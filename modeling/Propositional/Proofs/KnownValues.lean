import Propositional.Proofs.Folding.NormalForm
import Propositional.Proofs.Simplification.NormalForm

/-!
# Values that are known

When only some atoms have values, the value of a formula can be known all the same: one false side
settles a conjunction, whatever the other side is.  A biconditional is never settled by one side.

Evaluation wants the values of all atoms, folding replaces atoms and folds on the way up, and
simplification goes over a formula in which the atoms have been replaced before.  All three find the
values that are known.  Folding finds no others, because it looks at nothing but constants.  A pass
of simplification may find more, as it compares sides; but where it negates a constant, it leaves
the value to the next pass: `⊥↔⊤` becomes `¬⊤`, which only that one evaluates.

* `Connective.known?`, `Formula.known?` — values as far as they are known;
* `Formula.known?_of_evaluate`          — a value found by evaluation is known;
* `Formula.eliminate_eq_const_iff`      — folding finds exactly the known values;
* `Formula.known?_simplifyOnce`         — a pass loses no known value;
* `Formula.simplifyOnce_of_known?`, `Formula.simplify_of_known?` — one pass finds it, unless a
  constant is negated on the way, and two passes always do;
* `Formula.simplify_of_closed`          — so formulas without atoms come out as constants;
* `Formula.evaluations_agree`           — all ways together.
-/

namespace Propositional

/-- The value of a connective on sides of which not both need to be known: the one that it has
whatever the missing side is. -/
def Connective.known? (op : Connective) : Option Bool → Option Bool → Option Bool
  | some x, some y => some (op.apply x y)
  | some x, none => if op.apply x true = op.apply x false then some (op.apply x true) else none
  | none, some y => if op.apply true y = op.apply false y then some (op.apply true y) else none
  | none, none => none

/-- What is known about the sides may grow, and what is known about the whole stays. -/
theorem Connective.known?_mono {op : Connective} {k k' m m' : Option Bool} {b : Bool}
    (hk : ∀ x, k = some x → k' = some x) (hm : ∀ y, m = some y → m' = some y)
    (h : op.known? k m = some b) : op.known? k' m' = some b := by
  -- a side that has become known was not needed before, so its value does not matter
  cases k with
  | some x =>
    cases hk x rfl
    cases m with
    | some y =>
      cases hm y rfl
      exact h
    | none =>
      cases m' with
      | none => exact h
      | some y => cases op <;> cases x <;> cases y <;> simp_all [known?, apply]
  | none =>
    cases m with
    | none => cases h
    | some y =>
      cases hm y rfl
      cases k' with
      | none => exact h
      | some x => cases op <;> cases x <;> cases y <;> simp_all [known?, apply]

theorem Connective.known?_self (op : Connective) (k : Option Bool) :
    op.known? k k = k.map fun x => op.apply x x := by
  cases k <;> rfl

theorem Connective.known?_not_self (op : Connective) (k : Option Bool) :
    op.known? (k.map not) k = k.map fun x => op.apply (!x) x := by
  cases k <;> rfl

namespace Formula

variable {α : Type} {value? : α → Option Bool} {f g l r : Formula α} {b : Bool}

/-- The truth value of a formula, as far as the values of some atoms settle it. -/
def known? (value? : α → Option Bool) : Formula α → Option Bool
  | .var a => value? a
  | .const b => some b
  | .neg f => (f.known? value?).map not
  | .bin op l r => op.known? (l.known? value?) (r.known? value?)

/-! ## Evaluation -/

/-- Evaluation gives a value only when that of every atom is there, and then it is known. -/
theorem known?_of_evaluate (h : f.evaluate value? = .ok b) : f.known? value? = some b := by
  induction f generalizing b with
  | var a =>
    rw [evaluate] at h
    rw [known?]
    cases hvalue : value? a with
    | none =>
      rw [hvalue] at h
      cases h
    | some c =>
      rw [hvalue] at h
      cases h
      rfl
  | const c =>
    cases h
    rfl
  | neg f ih =>
    rw [evaluate] at h
    cases hf : f.evaluate value? with
    | error a =>
      rw [hf] at h
      cases h
    | ok c =>
      rw [hf] at h
      cases h
      rw [known?, ih hf, Option.map_some]
  | bin op l r ihl ihr =>
    rw [evaluate] at h
    -- evaluation fails with either side, so both sides have values
    cases hl : l.evaluate value? with
    | error a =>
      rw [hl] at h
      cases h
    | ok x =>
      cases hr : r.evaluate value? with
      | error a =>
        rw [hl, hr] at h
        cases h
      | ok y =>
        rw [hl, hr] at h
        cases h
        rw [known?, ihl hl, ihr hr, Connective.known?]

/-- Replacing the atoms that have values leaves no less and no more to know. -/
theorem known?_assign (f : Formula α) :
    (f.assign value?).known? (fun _ => none) = f.known? value? := by
  induction f with
  | var a =>
    rw [assign, known?]
    cases value? a <;> rfl
  | const b => rfl
  | neg f ih => rw [assign, known?, ih, known?]
  | bin op l r ihl ihr => rw [assign, known?, ihl, ihr, known?]

/-! ## Folding -/

theorem constant?_eq_none (h : ∀ b, f = .const b → False) : f.constant? = none := by
  cases f with
  | const b => exact (h b rfl).elim
  | var a => rfl
  | neg f => rfl
  | bin op l r => rfl

/-- What is left of a connective beside a constant is a constant when the one value settles it. -/
theorem constant?_onLeft (op : Connective) (x : Bool) (hr : r.constant? = none) :
    (onLeft op x r).constant? = op.known? (some x) none := by
  cases op <;> cases x <;> first | exact hr | rfl

theorem constant?_onRight (op : Connective) (y : Bool) (hl : l.constant? = none) :
    (onRight op l y).constant? = op.known? none (some y) := by
  cases op <;> cases y <;> first | exact hl | rfl

/-- A folded connective is a constant when the constants among its sides settle it. -/
theorem constant?_fold (op : Connective) (l r : Formula α) :
    (fold op l r).constant? = op.known? l.constant? r.constant? := by
  unfold fold
  split
  · rfl
  · next x hr =>
    rw [constant?_onLeft op x (constant?_eq_none hr), constant?_eq_none hr]
    rfl
  · next y hl =>
    rw [constant?_onRight op y (constant?_eq_none hl), constant?_eq_none hl]
    rfl
  · next hl hr _ =>
    rw [constant?_eq_none hl, constant?_eq_none hr]
    rfl

theorem constant?_negated (f : Formula α) : f.negated.constant? = f.constant?.map not := by
  cases f <;> rfl

/-- A formula is folded to the constant that is its known value, if it has one. -/
theorem constant?_foldAssigned (f : Formula α) :
    (f.foldAssigned value?).constant? = f.known? value? := by
  induction f with
  | var a =>
    rw [foldAssigned, known?]
    cases value? a <;> rfl
  | const b => rfl
  | neg f ih => rw [foldAssigned, constant?_negated, ih, known?]
  | bin op l r ihl ihr => rw [foldAssigned, constant?_fold, ihl, ihr, known?]

/-- Once the constants have been folded away, a further pass finds no new one. -/
theorem constant?_foldOnce (h : f.Reduced false) : f.foldOnce.constant? = f.constant? := by
  rcases h with ⟨b, rfl⟩ | hclear
  · rfl
  · have hconst : ∀ b, f = .const b → False := by
      rintro b rfl
      exact hclear
    rw [(isFolded_foldOnce hclear).constant?, constant?_eq_none hconst]

/-- Folding leaves a constant exactly when the value is known. -/
theorem eliminate_eq_const_iff : f.eliminate value? = .const b ↔ f.known? value? = some b := by
  have hconstant : (f.eliminate value?).constant? = f.known? value? := by
    rw [eliminate, constant?_foldOnce (reduced_foldAssigned f), constant?_foldAssigned]
  rw [← hconstant]
  constructor
  · intro h
    rw [h]
    rfl
  · exact eq_const_of_constant?

/-! ## The rules of simplification -/

/-- The rules for a negation keep what is known. -/
theorem known?_simplifyNot (f : Formula α) :
    (simplifyNot f).known? value? = (f.known? value?).map not := by
  cases f with
  | var a => rfl
  | const b => rfl
  | neg g =>
    simp only [simplifyNot, known?]
    cases g.known? value? <;> simp
  | bin op l r =>
    -- once the sides are values or unknown, each dual is checked for all of them
    cases op <;> simp only [simplifyNot, known?] <;>
      rcases l.known? value? with _ | _ | _ <;> rcases r.known? value? with _ | _ | _ <;> rfl

theorem known?_onLeft (op : Connective) (x : Bool) (r : Formula α) :
    (onLeft op x r).known? value? = op.known? (some x) (r.known? value?) := by
  cases op <;> cases x <;> simp only [onLeft, known?] <;>
    rcases r.known? value? with _ | _ | _ <;> rfl

theorem known?_onRight (op : Connective) (l : Formula α) (y : Bool) :
    (onRight op l y).known? value? = op.known? (l.known? value?) (some y) := by
  cases op <;> cases y <;> simp only [onRight, known?] <;>
    rcases l.known? value? with _ | _ | _ <;> rfl

variable [DecidableEq α]

/-- Complementary sides have opposite values, if any is known. -/
theorem known?_of_complementary (h : complementary l r = true) :
    l.known? value? = (r.known? value?).map not := by
  rw [complementary, Bool.or_eq_true, decide_eq_true_eq, decide_eq_true_eq] at h
  rcases h with rfl | rfl
  · rfl
  · rw [known?]
    cases l.known? value? <;> simp

/-- The rules for a connective without constant sides lose no known value.  Equal and complementary
sides can settle it even where their own values are not known. -/
theorem known?_simplifySides (op : Connective)
    (h : op.known? (l.known? value?) (r.known? value?) = some b) :
    (simplifySides op l r).known? value? = some b := by
  -- two equal sides have one value, and two complementary sides have opposite ones
  have hequal (heq : l = r) : ∃ x, l.known? value? = some x ∧ op.apply x x = b := by
    rw [← heq, Connective.known?_self] at h
    exact Option.map_eq_some_iff.mp h
  have hopposite (hcompl : complementary l r = true) : ∃ x, op.apply (!x) x = b := by
    rw [known?_of_complementary hcompl, Connective.known?_not_self] at h
    obtain ⟨x, -, hx⟩ := Option.map_eq_some_iff.mp h
    exact ⟨x, hx⟩
  unfold simplifySides
  cases op with
  | and =>
    dsimp only
    split
    · next heq =>
      obtain ⟨x, hx, rfl⟩ := hequal heq
      rw [hx, Connective.apply, Bool.and_self]
    split
    · next hcompl =>
      obtain ⟨x, rfl⟩ := hopposite hcompl
      rw [known?, Connective.apply, Bool.not_and_self]
    · exact h
  | or =>
    dsimp only
    split
    · next heq =>
      obtain ⟨x, hx, rfl⟩ := hequal heq
      rw [hx, Connective.apply, Bool.or_self]
    split
    · next hcompl =>
      obtain ⟨x, rfl⟩ := hopposite hcompl
      rw [known?, Connective.apply, Bool.not_or_self]
    · exact h
  | implies =>
    dsimp only
    split
    · next heq =>
      obtain ⟨x, -, rfl⟩ := hequal heq
      rw [known?, Connective.apply, Bool.not_or_self]
    · rw [← h]
      simp only [known?]
      -- the rule for other sides writes the implication with `¬` and `∨`
      rcases l.known? value? with _ | _ | _ <;> rcases r.known? value? with _ | _ | _ <;> rfl
  | iff =>
    dsimp only
    split
    · next heq =>
      obtain ⟨x, -, rfl⟩ := hequal heq
      rw [known?, Connective.apply, beq_self_eq_true]
    split
    · next hcompl =>
      obtain ⟨x, rfl⟩ := hopposite hcompl
      rw [known?, Connective.apply, Bool.not_beq_self]
    · rw [← h]
      simp only [known?]
      rcases l.known? value? with _ | _ | _ <;> rcases r.known? value? with _ | _ | _ <;> rfl

/-- The rules for a connective lose no known value. -/
theorem known?_simplifyBin (op : Connective)
    (h : op.known? (l.known? value?) (r.known? value?) = some b) :
    (simplifyBin op l r).known? value? = some b := by
  unfold simplifyBin
  split
  · next x hx =>
    rw [known?_onLeft, ← h, eq_const_of_constant? hx, known?]
  · next y _ hy =>
    rw [known?_onRight, ← h, eq_const_of_constant? hy, known?]
  · exact known?_simplifySides op h

/-! ## Passes -/

/-- A pass loses no known value. -/
theorem known?_simplifyOnce (h : f.known? value? = some b) :
    f.simplifyOnce.known? value? = some b := by
  induction f generalizing b with
  | var a => exact h
  | const c => exact h
  | neg f ih =>
    obtain ⟨x, hx, rfl⟩ := Option.map_eq_some_iff.mp h
    rw [simplifyOnce, known?_simplifyNot, ih hx, Option.map_some]
  | bin op l r ihl ihr =>
    exact known?_simplifyBin op (Connective.known?_mono (fun _ => ihl) (fun _ => ihr) h)

omit [DecidableEq α] in
/-- Of two constants, only `⊥` on the left of a biconditional does not give a constant at once. -/
theorem onLeft_const {op : Connective} {x : Bool} (y : Bool) (h : op = .iff → x = true) :
    onLeft op x (.const y : Formula α) = .const (op.apply x y) := by
  cases op <;> cases x <;> cases y <;> first | rfl | cases h rfl

omit [DecidableEq α] in
theorem onLeft_of_known? {op : Connective} {x : Bool} (h : op.known? (some x) none = some b) :
    onLeft op x r = .const b := by
  cases op <;> cases x <;> cases h <;> rfl

/-- A constant on the right that settles the connective does so beside any left side. -/
theorem simplifyBin_of_known? {op : Connective} {y : Bool}
    (h : op.known? none (some y) = some b) : simplifyBin op l (.const y) = .const b := by
  have hiff : op ≠ .iff := by
    rintro rfl
    cases y <;> cases h
  unfold simplifyBin
  split
  · next x _ =>
    -- the right side has settled the value, so it is that of both sides together
    have hboth : op.known? (some x) (some y) = some b :=
      Connective.known?_mono (by rintro _ ⟨⟩) (fun _ hsome => hsome) h
    rw [onLeft_const y fun hop => absurd hop hiff]
    exact congrArg _ (Option.some.inj hboth)
  · next z _ hz =>
    cases hz
    cases op <;> cases y <;> cases h <;> rfl
  · next hnone => cases hnone

/-- One pass finds a value that is known without any atom, unless it negates a constant. -/
theorem simplifyOnce_of_known? (h : f.known? (fun _ => none) = some b)
    (hneg : ¬ f.NegatesConstant) : f.simplifyOnce = .const b := by
  induction f generalizing b with
  | var a => cases h
  | const c =>
    cases h
    rfl
  | neg f ih =>
    obtain ⟨x, hx, rfl⟩ := Option.map_eq_some_iff.mp h
    rw [simplifyOnce, ih hx fun hf => hneg hf.neg]
    rfl
  | bin op l r ihl ihr =>
    have hleft {x : Bool} (hx : l.known? (fun _ => none) = some x) : l.simplifyOnce = .const x :=
      ihl hx fun hl => hneg hl.left
    have hright {y : Bool} (hy : r.known? (fun _ => none) = some y) : r.simplifyOnce = .const y :=
      ihr hy fun hr => hneg hr.right
    rw [known?] at h
    rw [simplifyOnce]
    cases hl : l.known? fun _ => none with
    | none =>
      cases hr : r.known? fun _ => none with
      | none =>
        rw [hl, hr] at h
        cases h
      | some y =>
        rw [hl, hr] at h
        rw [hright hr, simplifyBin_of_known? h]
    | some x =>
      cases hr : r.known? fun _ => none with
      | none =>
        rw [hl, hr] at h
        rw [hleft hl]
        exact onLeft_of_known? h
      | some y =>
        rw [hl, hr] at h
        cases h
        rw [hleft hl, hright hr]
        refine onLeft_const y fun hop => ?_
        -- otherwise the pass negates the constant on the right
        rw [← Bool.not_eq_false]
        rintro rfl
        exact hneg ⟨[], l, r, hop ▸ rfl, hleft hl, y, hright hr⟩

/-- Two passes find every value that is known without any atom: the first one removes the
biconditionals. -/
theorem simplifyOnce_twice_of_known? (h : f.known? (fun _ => none) = some b) :
    f.simplifyOnce.simplifyOnce = .const b :=
  simplifyOnce_of_known? (known?_simplifyOnce h) (isBasic_simplifyOnce f).not_negatesConstant

/-- A constant that the second pass leaves is the result: the passes after it keep the constant. -/
theorem simplify_of_second_pass {limit : Int} (hlimit : 2 ≤ limit)
    (h : f.simplifyOnce.simplifyOnce = .const b) : (f.simplify limit).result = .const b := by
  obtain ⟨n, hn⟩ : ∃ n, limit.toNat = n + 2 := ⟨limit.toNat - 2, by omega⟩
  have htwice : simplifyOnce^[2] f = .const b := h
  have hconst : simplifyOnce (.const b : Formula α) = .const b := rfl
  rw [simplify_result, hn, Function.iterate_add_apply, htwice, Function.iterate_fixed hconst]

/-- A course of at least two passes finds every value that is known without any atom.  A third pass
is there to see that nothing changes any more, if not the second one has seen it. -/
theorem simplify_of_known? {limit : Int} (hlimit : 2 ≤ limit)
    (h : f.known? (fun _ => none) = some b) :
    (f.simplify limit).result = .const b ∧
      ((f.simplify limit).converged = true ↔ 3 ≤ limit ∨ f.simplifyOnce = .const b) := by
  have htwice := simplifyOnce_twice_of_known? h
  refine ⟨simplify_of_second_pass hlimit htwice, ?_⟩
  -- the passes stop at the constant, which is there after the first or after the second pass
  obtain ⟨n, hn⟩ := exists_stopsAt f
  have hsecond : n ≤ 2 := by
    have hfixed : f.simplifyOnce.simplifyOnce.simplifyOnce = f.simplifyOnce.simplifyOnce := by
      rw [htwice]
      rfl
    exact hn.le_iff.mpr hfixed
  have hfirst : n ≤ 1 ↔ f.simplifyOnce = .const b := by
    have hfixed : n ≤ 1 ↔ f.simplifyOnce.simplifyOnce = f.simplifyOnce := hn.le_iff
    rw [hfixed, htwice]
    exact eq_comm
  rw [hn.converged_iff, ← hfirst]
  omega

/-- Two passes decide a formula without atoms. -/
theorem simplify_of_closed {v : α → Bool} {limit : Int} (hlimit : 2 ≤ limit)
    (hclosed : f.atoms = []) : (f.simplify limit).result = .const (f.eval v) := by
  have hevaluate : f.evaluate (fun _ => none) = .ok (f.eval v) := by
    apply evaluate_eq_ok
    rw [hclosed]
    nofun
  exact (simplify_of_known? hlimit (known?_of_evaluate hevaluate)).1

/-! ## All ways together -/

/-- **The ways of evaluating agree.**  What folding finds with the values of some atoms, the passes
of simplification find after these atoms have been replaced: the first pass if it negates no
constant, and the second pass in any case.  With the values of all atoms, evaluation gives a truth
value, folding leaves it as a constant, and so does every course of at least two passes.  The course
has converged if the first pass had found the value already, or if there could be a third one. -/
theorem evaluations_agree (value? : α → Option Bool) (f : Formula α) :
    (∀ b, f.eliminate value? = .const b →
        (¬ (f.assign value?).NegatesConstant → (f.assign value?).simplifyOnce = .const b) ∧
          (f.assign value?).simplifyOnce.simplifyOnce = .const b) ∧
      ((∀ a ∈ f.atoms, (value? a).isSome = true) →
        ∃ b, f.evaluate value? = .ok b ∧ f.eliminate value? = .const b ∧
          (¬ (f.assign value?).NegatesConstant → (f.assign value?).simplifyOnce = .const b) ∧
          ∀ limit : Int, 2 ≤ limit →
            ((f.assign value?).simplify limit).result = .const b ∧
              (((f.assign value?).simplify limit).converged = true ↔
                3 ≤ limit ∨ (f.assign value?).simplifyOnce = .const b)) := by
  constructor
  · intro b hb
    -- what the elimination leaves is the known value, which two passes of the other rules find
    have hknown : (f.assign value?).known? (fun _ => none) = some b :=
      (known?_assign f).trans (eliminate_eq_const_iff.mp hb)
    exact ⟨simplifyOnce_of_known? hknown, simplifyOnce_twice_of_known? hknown⟩
  · intro hvalues
    -- with all values known, the evaluated one is the known one
    have hevaluate := evaluate_of_isSome hvalues
    have hknown := known?_of_evaluate hevaluate
    refine ⟨_, hevaluate, eliminate_eq_const_iff.mpr hknown, ?_⟩
    rw [← known?_assign] at hknown
    exact ⟨simplifyOnce_of_known? hknown, fun limit hlimit => simplify_of_known? hlimit hknown⟩

/-- In `p∧(q↔r)` a false `p` is enough; a true one is not, and the biconditional needs both its
sides. -/
theorem evaluations_agree_conjunction :
    let p : Letter := ⟨'p', rfl⟩
    let q : Letter := ⟨'q', rfl⟩
    let r : Letter := ⟨'r', rfl⟩
    let f : Formula Letter := .bin .and (.var p) (.bin .iff (.var q) (.var r))
    let some? : Letter → Option Bool := fun a => if a = p then some false else none
    let all? : Letter → Option Bool := fun a => some (decide (a ≠ r))
    f.eliminate some? = .const false ∧ (f.assign some?).simplifyOnce = .const false ∧
      f.evaluate all? = .ok false ∧ ((f.assign all?).simplify 3).result = .const false ∧
      ((f.assign all?).simplify 3).converged = true := by
  intro p q r f some? all?
  have hfound : f.eliminate some? = .const false := rfl
  have hneg : ¬ (f.assign some?).NegatesConstant := by
    -- the only biconditional has an atom on its left
    rintro ⟨_ | ⟨_ | _, _ | ⟨_ | _, _ | _⟩⟩, l, r, hp, hl, -⟩ <;> cases hp
    cases hl
  obtain ⟨b, hevaluate, -, -, hcourse⟩ := (evaluations_agree all? f).2 fun _ _ => rfl
  have hvalue : f.evaluate all? = .ok false := rfl
  cases hvalue.symm.trans hevaluate
  obtain ⟨hresult, hconverged⟩ := hcourse 3 (by decide)
  exact ⟨hfound, ((evaluations_agree some? f).1 false hfound).1 hneg, hevaluate, hresult,
    hconverged.mpr (Or.inl (by decide))⟩

/-- With `p` false and `q` true, evaluation and folding give `⊥` for `p↔q`.  A pass over `⊥↔⊤`
leaves `¬⊤`, and a limit of two passes does not let the course converge. -/
theorem negated_constant_keeps_value_open :
    let p : Letter := ⟨'p', rfl⟩
    let q : Letter := ⟨'q', rfl⟩
    let f : Formula Letter := .bin .iff (.var p) (.var q)
    let value? : Letter → Option Bool := fun a => some (decide (a = q))
    Formula.read "p↔q" = .ok f ∧ (∀ a ∈ f.atoms, (value? a).isSome = true) ∧
      f.evaluate value? = .ok false ∧ f.eliminate value? = .const false ∧
      (f.assign value?).simplifyOnce = .neg (.const true) ∧
      ((f.assign value?).simplify 2).result = .const false ∧
      ((f.assign value?).simplify 2).converged = false :=
  ⟨rfl, fun _ _ => rfl, rfl, rfl, rfl, rfl, rfl⟩

end Formula

end Propositional
