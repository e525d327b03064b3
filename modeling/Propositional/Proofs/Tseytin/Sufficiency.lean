import Propositional.Proofs.Positions
import Propositional.Proofs.Tseytin.Extension

/-!
# Formulas for which one direction suffices

A name for `∧` is only made true by its definition, a name for `∨` or `→` only makes something
true.  This is enough where the sign of the occurrence asks for no more: a conjunction may be
replaced by something weaker where it counts negatively, a disjunction or an implication by
something stronger where it counts positively.  Below `↔` a subformula counts both ways, so nothing
but `↔` and `¬` may stand there, whose definitions go in both directions.

Names are shared by equal subformulas, so nothing can be said about a name from one occurrence
alone.  The induction runs over occurrences and compares the value of the literal of a subformula
with the value of the subformula, in the one direction that the sign of the occurrence asks for.

* `Formula.OneSided`             — the signs of all occurrences suit the definitions;
* `Tseytin.sortClause_mem_deduplicate`, `Tseytin.models_of_deduplicate` — clauses left out repeat
  clauses that are kept;
* `Tseytin.Respects`, `Tseytin.respects_of_models` — valuations under which all definitions hold;
* `Tseytin.literalValue`         — the value of the literal that stands for a subformula;
* `Tseytin.literalValue_of_iff`  — below `↔` it is the value of the subformula;
* `Tseytin.literalValue_of_sign` — elsewhere it bounds this value on the side of the sign;
* `Tseytin.definitions_suffice`  — the main result.
-/

namespace Propositional

/-! ## Occurrences of connectives -/

namespace Formula

variable {α : Type} {f g : Formula α} {p : Position}

/-- The connective that joins the two sides of the subformula at a position. -/
def connectiveAt? (f : Formula α) (p : Position) : Option Connective :=
  match f.at? p with
  | some (.bin op _ _) => some op
  | _ => none

/-- Every `∧` occurs negatively, every `∨` and every `→` positively, and none of the three below a
`↔`. -/
structure OneSided (f : Formula α) : Prop where
  and : ∀ p, f.connectiveAt? p = some .and → f.signAt? p = some (-1)
  or : ∀ p, f.connectiveAt? p = some .or → f.signAt? p = some 1
  implies : ∀ p, f.connectiveAt? p = some .implies → f.signAt? p = some 1
  -- Without further steps the second position is that of the `↔` itself.
  iff : ∀ p q op, f.connectiveAt? p = some .iff → f.connectiveAt? (p ++ q) = some op → op = .iff

theorem connectiveAt?_eq (hp : f.at? p = some g) (q : Position) :
    f.connectiveAt? (p ++ q) = g.connectiveAt? q := by
  rw [connectiveAt?, at?_append, hp, Option.bind_some, connectiveAt?]

theorem mem_positions_of_connectiveAt? {op : Connective} (h : f.connectiveAt? p = some op) :
    p ∈ f.positions := by
  rw [mem_positions]
  unfold connectiveAt? at h
  split at h
  · next hp => rw [hp]; rfl
  · cases h

/-- Whether a formula is one-sided can be seen from its positions. -/
theorem oneSided_iff :
    f.OneSided ↔ ∀ p ∈ f.positions,
      (f.connectiveAt? p = some .and → f.signAt? p = some (-1)) ∧
      (f.connectiveAt? p = some .or → f.signAt? p = some 1) ∧
      (f.connectiveAt? p = some .implies → f.signAt? p = some 1) ∧
      (f.connectiveAt? p = some .iff →
        ∀ q ∈ f.positions, p.isPrefixOf q = true → ∀ op ∈ f.connectiveAt? q, op = .iff) := by
  constructor
  · intro h p _
    refine ⟨h.and p, h.or p, h.implies p, ?_⟩
    intro hiff q _ hpq op hop
    obtain ⟨rest, rfl⟩ := List.isPrefixOf_iff_prefix.mp hpq
    exact h.iff p rest op hiff hop
  · -- connectives are found at listed positions only
    intro h
    refine ⟨?_, ?_, ?_, ?_⟩
    · intro p hp
      exact (h p (mem_positions_of_connectiveAt? hp)).1 hp
    · intro p hp
      exact (h p (mem_positions_of_connectiveAt? hp)).2.1 hp
    · intro p hp
      exact (h p (mem_positions_of_connectiveAt? hp)).2.2.1 hp
    · intro p q op hp hq
      have hpq : p.isPrefixOf (p ++ q) = true :=
        List.isPrefixOf_iff_prefix.mpr (List.prefix_append p q)
      exact (h p (mem_positions_of_connectiveAt? hp)).2.2.2 hp _
        (mem_positions_of_connectiveAt? hq) hpq op hq

instance (f : Formula α) : Decidable f.OneSided :=
  decidable_of_iff _ oneSided_iff.symm

theorem mem_children_of_child? {s : Step} (hs : f.child? s = some g) : g ∈ f.children := by
  cases f with
  | var a => cases hs
  | const b => cases hs
  | neg f =>
    cases s with
    | first => cases hs; exact List.mem_singleton_self _
    | second => cases hs
  | bin op l r =>
    cases s with
    | first => cases hs; exact List.mem_pair.mpr (Or.inl rfl)
    | second => cases hs; exact List.mem_pair.mpr (Or.inr rfl)

end Formula

namespace Tseytin

variable {f g : Formula Letter} {w : String → Bool} {clauses : List Clause}

/-- The subformula at a position is a subformula. -/
theorem mem_rightToLeft_of_at? {p : Position} (hp : f.at? p = some g) : g ∈ rightToLeft f := by
  induction p generalizing f with
  | nil =>
    cases hp
    exact mem_rightToLeft_self _
  | cons s rest ih =>
    obtain ⟨h, hchild, hrest⟩ := Formula.at?_cons_eq_some_iff.mp hp
    exact mem_rightToLeft_trans (mem_rightToLeft_of_mem_children (mem_rightToLeft_self f)
      (Formula.mem_children_of_child? hchild)) (ih hrest)

/-! ## Clauses that are written alike -/

/-- Clauses about letters, constants and names are equal when they are written alike: no comma
belongs to a literal. -/
theorem eq_of_clauseText_eq {c d : Clause} (hc : ∀ l ∈ c, Canonical l) (hd : ∀ l ∈ d, Canonical l)
    (hcne : c ≠ []) (hdne : d ≠ []) (h : clauseText c = clauseText d) : c = d := by
  -- splitting the text at its commas gives the texts of the literals back
  have hsplit : ∀ {e : Clause}, (∀ l ∈ e, Canonical l) → e ≠ [] →
      (clauseText e).toList.splitOn ',' = e.map fun l => l.text.toList := by
    intro e he hne
    rw [toList_clauseText]
    refine List.splitOn_intercalate ',' ?_ (by simpa using hne)
    intro cs hcs
    obtain ⟨l, hl, rfl⟩ := List.mem_map.mp hcs
    exact comma_notMem_text (he l hl)
  have hlists : (c.map fun l => l.text.toList) = d.map fun l => l.text.toList := by
    rw [← hsplit hc hcne, ← hsplit hd hdne, h]
  -- and a text reads as one literal only
  have hread : Function.Injective fun l : Literal => l.text.toList := by
    intro l m hlm
    have htext : l.text = m.text := String.toList_injective hlm
    rw [← Signed.read_text l, htext, Signed.read_text]
  exact List.map_injective_iff.mpr hread hlists

/-- What is left out repeats a clause that is kept, so sorted clauses are all there. -/
theorem sortClause_mem_deduplicate (hcanonical : ∀ c ∈ clauses, ∀ l ∈ c, Canonical l)
    (hne : ∀ c ∈ clauses, c ≠ []) {c : Clause} (hc : c ∈ clauses) :
    sortClause c ∈ deduplicate clauses := by
  have hsorted : ∀ c ∈ clauses, (∀ l ∈ sortClause c, Canonical l) ∧ sortClause c ≠ [] :=
    fun c hc => ⟨fun m hm => hcanonical c hc m (mem_sortClause.mp hm),
      sortClause_ne_nil (hne c hc)⟩
  have hmem : sortClause c ∈ clauses.map sortClause := List.mem_map.mpr ⟨c, hc, rfl⟩
  obtain ⟨d, hd, htext⟩ : ∃ d ∈ deduplicate clauses,
      (clauseText (sortClause c) == clauseText d) = true :=
    exists_mem_eraseDupsBy (fun e => beq_self_eq_true (clauseText e)) _ hmem
  -- the clause that is kept comes from the row, too, so being written alike makes it the same
  obtain ⟨e, he, rfl⟩ := List.mem_map.mp (mem_of_mem_eraseDupsBy _ hd)
  obtain ⟨hcc, hcne⟩ := hsorted c hc
  obtain ⟨hec, hene⟩ := hsorted e he
  rw [eq_of_clauseText_eq hcc hec hcne hene (beq_iff_eq.mp htext)]
  exact hd

/-- A model of the clauses that are kept is a model of all: what is left out says nothing new. -/
theorem models_of_deduplicate (hcanonical : ∀ c ∈ clauses, ∀ l ∈ c, Canonical l)
    (hne : ∀ c ∈ clauses, c ≠ []) (h : Models w (deduplicate clauses)) : Models w clauses :=
  fun _ hc => (someHolds_congr fun _ => mem_sortClause).mp
    (h _ (sortClause_mem_deduplicate hcanonical hne hc))

/-! ## Valuations under which the definitions hold -/

/-- A valuation that knows the constants and makes the defining clauses of every name true. -/
structure Respects (f : Formula Letter) (w : String → Bool) : Prop where
  constant : ∀ b, w (constantName b) = b
  defined : ∀ {g k cs}, (namingOrder f)[k]? = some g →
    define (names f) (literal (auxiliary k)) g = .ok cs → Models w cs

/-- A definition is made of canonical literals. -/
theorem canonical_of_define {k : Nat} {cs : List Clause} (hk : (namingOrder f)[k]? = some g)
    (hcs : define (names f) (literal (auxiliary k)) g = .ok cs) :
    ∀ c ∈ cs, ∀ l ∈ c, Canonical l := by
  have hname : Canonical (literal (auxiliary k)) := canonical_literal (.named k)
  have hnot := canonical_opposite hname
  rcases define_cases hk hcs with ⟨h, x, -, -, hx, rfl⟩ | ⟨op, l, r, x, y, -, -, -, hx, hy, rfl⟩
  · have hxnot := canonical_opposite hx
    simp [hname, hnot, hx, hxnot]
  · have hxnot := canonical_opposite hx
    have hynot := canonical_opposite hy
    -- every template is made of the name, the two literals and their opposites
    cases op <;> simp [defineBinary, hname, hnot, hx, hxnot, hy, hynot]

theorem define_of_mem_definitions {ds : List Definition} (hds : definitions f = .ok ds)
    {d : Definition} (hd : d ∈ ds) :
    ∃ k, (namingOrder f)[k]? = some d.formula ∧
      define (names f) (literal (auxiliary k)) d.formula = .ok d.clauses := by
  obtain ⟨k, hk⟩ := List.mem_iff_getElem?.mp hd
  obtain ⟨hformula, -, hdefine⟩ := getElem?_definitions hds hk
  exact ⟨k, hformula, hdefine⟩

/-- The defining clauses are about letters, constants and names, and none is empty. -/
theorem canonical_of_definitions {ds : List Definition} (hds : definitions f = .ok ds) :
    (∀ c ∈ ds.flatMap (·.clauses), ∀ l ∈ c, Canonical l) ∧
      ∀ c ∈ ds.flatMap (·.clauses), c ≠ [] := by
  constructor
  · intro c hc
    obtain ⟨d, hd, hcd⟩ := List.mem_flatMap.mp hc
    obtain ⟨k, hk, hcs⟩ := define_of_mem_definitions hds hd
    exact canonical_of_define hk hcs c hcd
  · intro c hc
    obtain ⟨d, hd, hcd⟩ := List.mem_flatMap.mp hc
    obtain ⟨k, -, -, hlength, -⟩ := of_mem_definitions hds hd
    have hlong := hlength c hcd
    rintro rfl
    cases hlong

/-- Whoever makes the sorted clauses without repetition true respects all definitions. -/
theorem respects_of_models {ds : List Definition} (hconstant : ∀ b, w (constantName b) = b)
    (hds : definitions f = .ok ds) (h : Models w (deduplicate (ds.flatMap (·.clauses)))) :
    Respects f w := by
  obtain ⟨hcanonical, hne⟩ := canonical_of_definitions hds
  have hall := models_of_deduplicate hcanonical hne h
  refine ⟨hconstant, ?_⟩
  intro g k cs hk hcs c hc
  have hdefinition : definitionOf (names f) g k = .ok ⟨auxiliary k, g, cs⟩ := by
    rw [definitionOf, hcs]
  exact hall c (List.mem_flatMap.mpr ⟨_, (mem_definitions hds).mpr ⟨g, k, hk, hdefinition⟩, hc⟩)

/-! ## The value of the literal of a subformula -/

/-- The truth value that a valuation gives the literal of a subformula. -/
def literalValue (f : Formula Letter) (w : String → Bool) (g : Formula Letter) : Bool :=
  match literalFor (names f) g with
  | .ok l => l.holds w
  | .error _ => false

theorem literalValue_of_eq_ok {l : Literal} (hl : literalFor (names f) g = .ok l) :
    literalValue f w g = l.holds w := by
  rw [literalValue, hl]

/-- What needs no name has its own value. -/
theorem literalValue_of_unnamed (hw : Respects f w) (hneeds : needsName g = false) :
    literalValue f w g = g.eval fun a => w a.name := by
  obtain ⟨l, hl, -, hholds⟩ := literalFor_unnamed (f := f) hneeds
  rw [literalValue_of_eq_ok hl, hholds w hw.constant]

/-- The literal of a negation is opposite to that of its operand, with or without a name. -/
theorem literalValue_neg (hw : Respects f w) (hmem : .neg g ∈ rightToLeft f) :
    literalValue f w (.neg g) = !literalValue f w g := by
  cases hneeds : needsName (.neg g) with
  | true =>
    -- the name of a negation is defined in both directions
    obtain ⟨k, hk⟩ := exists_number hmem hneeds
    obtain ⟨x, hx, hxcanonical, -, hdefine⟩ := define_neg hmem (literal (auxiliary k))
    have hdefined := hw.defined hk hdefine
    rw [literalValue_of_eq_ok (literalFor_named hk), literalValue_of_eq_ok hx]
    exact (models_negation_iff hw.constant (canonical_literal (.named k)) hxcanonical).mp hdefined
  | false =>
    -- without a name it is a literal, and so is its operand
    rw [literalValue_of_unnamed hw hneeds, literalValue_of_unnamed hw (needsName_operand hneeds)]
    rfl

/-- The name of a binary subformula has the value that its clauses demand. -/
theorem demanded_literalValue {op : Connective} {l r : Formula Letter} (hw : Respects f w)
    (hmem : .bin op l r ∈ rightToLeft f) :
    Demanded op (literalValue f w (.bin op l r)) (literalValue f w l) (literalValue f w r) := by
  obtain ⟨k, hk⟩ := exists_number hmem rfl
  obtain ⟨x, y, hx, hy, hxcanonical, hycanonical, -, hdefine⟩ :=
    define_bin hmem (literal (auxiliary k))
  have hdefined := hw.defined hk hdefine
  rw [literalValue_of_eq_ok (literalFor_named hk), literalValue_of_eq_ok hx,
    literalValue_of_eq_ok hy]
  exact (models_defineBinary_iff hw.constant (canonical_literal (.named k)) hxcanonical
    hycanonical).mp hdefined

/-! ## Comparison with the value of the subformula -/

/-- A subformula whose only connective is `↔` has a literal with its own value. -/
theorem literalValue_of_iff (hw : Respects f w) (hmem : g ∈ rightToLeft f)
    (honly : ∀ p op, g.connectiveAt? p = some op → op = .iff) :
    literalValue f w g = g.eval fun a => w a.name := by
  -- the definitions of `¬` and `↔` are equations, so equality is carried up from the leaves
  induction g with
  | var a => exact literalValue_of_unnamed hw rfl
  | const b => exact literalValue_of_unnamed hw rfl
  | neg g ih =>
    have hvalue := ih (mem_rightToLeft_operand hmem) fun p => honly (.first :: p)
    rw [literalValue_neg hw hmem, hvalue, Formula.eval]
  | bin op l r ihl ihr =>
    obtain rfl : op = .iff := honly [] op rfl
    obtain ⟨hleft, hright⟩ := mem_rightToLeft_sides hmem
    have hname := demanded_literalValue hw hmem
    rw [ihl hleft fun p => honly (.first :: p), ihr hright fun p => honly (.second :: p)] at hname
    exact hname

/-- Where a subformula occurs positively its literal is not more often true than the subformula,
where it occurs negatively it is not less often true. -/
theorem literalValue_of_sign (h : f.OneSided) (hw : Respects f w) {p : Position} {sign : Int}
    (hp : f.at? p = some g) (hsign : f.signAt? p = some sign) :
    (sign = 1 → literalValue f w g = true → g.eval (fun a => w a.name) = true) ∧
      (sign = -1 → g.eval (fun a => w a.name) = true → literalValue f w g = true) := by
  have hmem : g ∈ rightToLeft f := mem_rightToLeft_of_at? hp
  -- one step down changes position and sign, so the induction has to be about all of them
  induction g generalizing p sign with
  | var a =>
    rw [literalValue_of_unnamed hw rfl]
    exact ⟨fun _ => id, fun _ => id⟩
  | const b =>
    rw [literalValue_of_unnamed hw rfl]
    exact ⟨fun _ => id, fun _ => id⟩
  | neg g ih =>
    have hoperand := (Formula.at?_append_singleton hp .first).trans rfl
    have hbelow : f.signAt? (p ++ [.first]) = some (-sign) :=
      Formula.signAt?_append_singleton hp hsign rfl
    obtain ⟨hpos, hneg⟩ := ih hoperand hbelow (mem_rightToLeft_of_at? hoperand)
    rw [literalValue_neg hw hmem, Formula.eval]
    simp only [Bool.not_eq_true', Bool.eq_false_iff]
    -- what the operand says in one direction the negation says in the other
    constructor
    · intro hs hfalse htrue
      exact hfalse (hneg (by omega) htrue)
    · intro hs hfalse htrue
      exact hfalse (hpos (by omega) htrue)
  | bin op l r ihl ihr =>
    have hop : f.connectiveAt? p = some op := by rw [Formula.connectiveAt?, hp]
    have hleft := (Formula.at?_append_singleton hp .first).trans rfl
    have hright := (Formula.at?_append_singleton hp .second).trans rfl
    have hl := ihl hleft (Formula.signAt?_append_singleton hp hsign rfl)
      (mem_rightToLeft_of_at? hleft)
    have hr := ihr hright (Formula.signAt?_append_singleton hp hsign rfl)
      (mem_rightToLeft_of_at? hright)
    have hname := demanded_literalValue hw hmem
    -- the sign asks for the one direction that the definition of the name gives
    cases op with
    | and =>
      obtain rfl : sign = -1 := Option.some.inj (hsign.symm.trans (h.and p hop))
      refine ⟨by omega, ?_⟩
      intro _ htrue
      obtain ⟨hltrue, hrtrue⟩ := Bool.and_eq_true_iff.mp htrue
      exact hname (hl.2 rfl hltrue) (hr.2 rfl hrtrue)
    | or =>
      obtain rfl : sign = 1 := Option.some.inj (hsign.symm.trans (h.or p hop))
      refine ⟨?_, by omega⟩
      intro _ htrue
      rcases hname htrue with hltrue | hrtrue
      · exact Bool.or_eq_true_iff.mpr (Or.inl (hl.1 rfl hltrue))
      · exact Bool.or_eq_true_iff.mpr (Or.inr (hr.1 rfl hrtrue))
    | implies =>
      obtain rfl : sign = 1 := Option.some.inj (hsign.symm.trans (h.implies p hop))
      refine ⟨?_, by omega⟩
      intro _ htrue
      -- the left side counts negatively, so if it is true then so is its literal
      rw [Formula.eval, Connective.apply]
      cases hleftValue : l.eval fun a => w a.name with
      | false => rfl
      | true =>
        have hltrue := hl.2 rfl hleftValue
        exact hr.1 rfl (hname htrue hltrue)
    | iff =>
      -- either sign is possible, and there is no other connective below
      have honly : ∀ q op, (Formula.bin .iff l r).connectiveAt? q = some op → op = .iff := by
        intro q op hq
        exact h.iff p q op hop (by rw [Formula.connectiveAt?_eq hp, hq])
      rw [literalValue_of_iff hw hmem honly]
      exact ⟨fun _ => id, fun _ => id⟩

/-- A one-sided formula is true under every valuation of letters and names that knows the constants
and makes all its Tseytin clauses true.  So the clauses have a model exactly when the formula has
one. -/
theorem definitions_suffice (h : f.OneSided) :
    ∃ e, transform f = .ok e ∧
      (∀ w, (∀ b, w (constantName b) = b) → Models w e.clauses →
        f.evaluate (fun a => some (w a.name)) = .ok true) ∧
      ((∃ w, (∀ b, w (constantName b) = b) ∧ Models w e.clauses) ↔ f.Satisfiable) := by
  obtain ⟨e, root, htransform, hds, hroot, hclauses⟩ := transform_eq_ok f
  have htrue : ∀ w, (∀ b, w (constantName b) = b) → Models w e.clauses →
      f.eval (fun a => w a.name) = true := by
    intro w hconstant hmodels
    rw [hclauses, models_append, models_cons, someHolds_singleton] at hmodels
    obtain ⟨hdefining, hholds, -⟩ := hmodels
    have hw : Respects f w := respects_of_models hconstant hds hdefining
    -- the formula occurs positively in itself, and its literal is the last clause
    have hvalue : literalValue f w f = true := (literalValue_of_eq_ok hroot).trans hholds
    exact (literalValue_of_sign h hw (p := []) rfl rfl).1 rfl hvalue
  refine ⟨e, htransform, ?_, ?_, ?_⟩
  · intro w hconstant hmodels
    rw [Formula.evaluate_eq_ok fun _ _ => rfl, htrue w hconstant hmodels]
  · rintro ⟨w, hconstant, hmodels⟩
    exact ⟨_, htrue w hconstant hmodels⟩
  · rintro ⟨v, hv⟩
    -- a model of the formula extends to the names, as every assignment does
    obtain ⟨w, hw⟩ := exists_extends (r := fun a => some (v a)) (fun _ _ => rfl) hds
    have hletters : f.eval (fun a => w a.name) = true := by
      rw [Formula.eval_congr fun a _ => hw.letter rfl, hv]
    have hfaithful : Faithful (names f) w := faithful_of_extends (fun _ _ => rfl) hds hw
    refine ⟨w, hw.constant, ?_⟩
    rw [hclauses]
    exact (models_of_faithful hfaithful hds hroot).2.mpr hletters

/-- The formula `¬(a∧⊤)∨(b→(a↔¬(b↔a)))`, in which every connective stands where it may. -/
def everyConnective : Formula Letter :=
  .bin .or (.neg (.bin .and (.var ⟨'a', rfl⟩) (.const true)))
    (.bin .implies (.var ⟨'b', rfl⟩)
      (.bin .iff (.var ⟨'a', rfl⟩) (.neg (.bin .iff (.var ⟨'b', rfl⟩) (.var ⟨'a', rfl⟩)))))

theorem definitions_suffice_everyConnective :
    everyConnective.OneSided ∧ ∃ e w, transform everyConnective = .ok e ∧
      (∀ b, w (constantName b) = b) ∧ Models w e.clauses ∧
      everyConnective.evaluate (fun a => some (w a.name)) = .ok true := by
  have hsided : everyConnective.OneSided := by decide
  obtain ⟨e, htransform, htrue, hequisatisfiable⟩ := definitions_suffice hsided
  obtain ⟨w, hconstant, hmodels⟩ := hequisatisfiable.mpr ⟨fun _ => false, rfl⟩
  exact ⟨hsided, e, w, htransform, hconstant, hmodels, htrue w hconstant hmodels⟩

end Tseytin

end Propositional
