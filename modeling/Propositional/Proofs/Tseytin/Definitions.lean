import Propositional.Proofs.Satisfaction
import Propositional.Proofs.Tseytin.Naming

/-!
# The meaning of Tseytin definitions

A valuation of names is faithful when it gives the constants their truth values and every named
subformula the value that it has under the valuation of letters.  Then every literal says what the
subformula says that it stands for, and the defining clauses of every name have a literal that
holds.

* `Tseytin.Canonical`            — a literal about a letter, a constant or a numbered name;
* `Tseytin.holds_opposite`       — opposite literals say the opposite, the constants included;
* `Tseytin.Faithful`             — names have the values of what they stand for;
* `Tseytin.literalFor_named`, `Tseytin.literalFor_unnamed`, `Tseytin.literalFor_names` — every
  subformula has a literal, which says the same;
* `Tseytin.models_negation_iff`, `Tseytin.models_defineBinary_iff` — what defining clauses demand of
  the values of a name and of what it stands for;
* `Tseytin.define_neg`, `Tseytin.define_bin`, `Tseytin.define_cases` — the defining clauses of a
  name;
* `Tseytin.define_names`         — every named subformula has defining clauses, and they hold.
-/

namespace Propositional.Tseytin

variable {f g : Formula Letter} {l : Literal} {w : String → Bool}

/-! ## Literals and their opposites -/

/-- The literal is about a letter, a constant or a numbered name. -/
def Canonical (l : Literal) : Prop :=
  ∃ s : Subject, l.name = s.text

/-- A canonical literal is marked by its sign alone. -/
theorem Canonical.plain (hl : Canonical l) : l.Plain := by
  obtain ⟨s, hs⟩ := hl
  rw [Signed.Plain, hs]
  exact s.head?_text_ne

theorem literal_text (s : Subject) :
    (literal s.text).negated = false ∧ (literal s.text).name = s.text :=
  Signed.read_of_unmarked s.head?_text_ne

theorem canonical_literal (s : Subject) : Canonical (literal s.text) :=
  ⟨s, (literal_text s).2⟩

theorem holds_literal (s : Subject) : (literal s.text).holds w = w s.text := by
  rw [Signed.holds, (literal_text s).1, (literal_text s).2]
  rfl

theorem eq_literal_of_text {text : String} (h : l.text = text) : l = literal text := by
  rw [literal, ← h, Signed.read_text]

/-- The opposite of a canonical literal is canonical. -/
theorem canonical_opposite (hl : Canonical l) : Canonical (opposite l) := by
  rw [opposite]
  split
  · exact canonical_literal (.constant false)
  split
  · exact canonical_literal (.constant true)
  obtain ⟨s, hs⟩ := hl
  exact ⟨s, (Signed.complement_of_plain (Canonical.plain ⟨s, hs⟩)).1.trans hs⟩

/-- Opposite literals say the opposite, where the constants have their truth values. -/
theorem holds_opposite (hw : ∀ b, w (constantName b) = b) (hl : Canonical l) :
    (opposite l).holds w = !l.holds w := by
  -- a constant is the literal of its name, and not the complement of the other constant
  have hconstant : ∀ b, (literal (constantName b)).holds w = b := by
    intro b
    exact (holds_literal (.constant b)).trans (hw b)
  rw [opposite]
  split
  · next htext =>
    rw [eq_literal_of_text htext, hconstant, hconstant]
    rfl
  split
  · next htext =>
    rw [eq_literal_of_text htext, hconstant, hconstant]
    rfl
  exact Signed.holds_complement hl.plain

/-! ## The literal of a subformula -/

/-- A valuation of names that knows the constants and gives every name the value of the formula
that it stands for. -/
structure Faithful (names : Names) (w : String → Bool) : Prop where
  constant : ∀ b, w (constantName b) = b
  -- A name says what its formula says.
  named : ∀ {g name}, names.get? g = some name → w name = g.eval fun a => w a.name

/-- A subformula with a name has the literal of its name. -/
theorem literalFor_named {k : Nat} (hk : (namingOrder f)[k]? = some g) :
    literalFor (names f) g = .ok (literal (auxiliary k)) := by
  have hname : (names f).get? g = some (auxiliary k) := get?_names.mpr ⟨k, hk, rfl⟩
  unfold literalFor
  rw [hname]

/-- A subformula without a name has a literal that says what the subformula says. -/
theorem literalFor_unnamed (hneeds : needsName g = false) :
    ∃ l, literalFor (names f) g = .ok l ∧ Canonical l ∧
      ∀ w, (∀ b, w (constantName b) = b) → l.holds w = g.eval fun a => w a.name := by
  have hname : (names f).get? g = none := get?_names_eq_none hneeds
  -- without a name it is a leaf or the negation of one
  induction g with
  | var a =>
    refine ⟨literal a.name, ?_, canonical_literal (.letter a), ?_⟩
    · rw [literalFor, hname]
    · intro w _
      exact holds_literal (.letter a)
  | const b =>
    refine ⟨literal (constantName b), ?_, canonical_literal (.constant b), ?_⟩
    · rw [literalFor, hname]
    · intro w hw
      exact (holds_literal (.constant b)).trans (hw b)
  | neg g ih =>
    have hleaf : needsName g = false := needsName_operand hneeds
    -- the literal of the leaf is turned round
    obtain ⟨l, hl, hcanonical, hholds⟩ := ih hleaf (get?_names_eq_none hleaf)
    refine ⟨opposite l, ?_, canonical_opposite hcanonical, ?_⟩
    · rw [literalFor, hname, hl]
    · intro w hw
      rw [holds_opposite hw hcanonical, hholds w hw]
      rfl
  | bin op l r => cases hneeds

/-- Every subformula has a literal, and under a faithful valuation the literal says what the
subformula says. -/
theorem literalFor_names (hg : g ∈ rightToLeft f) :
    ∃ l, literalFor (names f) g = .ok l ∧ Canonical l ∧
      ∀ w, Faithful (names f) w → l.holds w = g.eval fun a => w a.name := by
  cases hneeds : needsName g with
  | true =>
    obtain ⟨k, hk⟩ := exists_number hg hneeds
    refine ⟨literal (auxiliary k), literalFor_named hk, canonical_literal (.named k), ?_⟩
    intro w hw
    exact (holds_literal (.named k)).trans (hw.named (get?_names.mpr ⟨k, hk, rfl⟩))
  | false =>
    obtain ⟨l, hl, hcanonical, hholds⟩ := literalFor_unnamed (f := f) hneeds
    exact ⟨l, hl, hcanonical, fun w hw => hholds w hw.constant⟩

/-! ## Defining clauses -/

section Templates

variable {name x y : Literal}

/-- The clauses that define a name for an opposite literal make it the opposite. -/
theorem models_negation_iff (hw : ∀ b, w (constantName b) = b) (hname : Canonical name)
    (hx : Canonical x) :
    Models w [[opposite name, opposite x], [name, x]] ↔ name.holds w = !x.holds w := by
  have hnotname := holds_opposite hw hname
  have hnotx := holds_opposite hw hx
  simp only [models_cons, someHolds_cons, hnotname, hnotx]
  cases name.holds w <;> cases x.holds w <;> simp

/-- What the clauses of a name demand of its value and of the values of the two sides: one direction
for `∧`, `∨` and `→`, both for `↔`. -/
def Demanded (op : Connective) (name x y : Bool) : Prop :=
  match op with
  | .and => x = true → y = true → name = true
  | .or => name = true → x = true ∨ y = true
  | .implies => name = true → x = true → y = true
  | .iff => name = (x == y)

/-- The clauses that define the name of a connective hold when it has the value demanded of it. -/
theorem models_defineBinary_iff {op : Connective} (hw : ∀ b, w (constantName b) = b)
    (hname : Canonical name) (hx : Canonical x) (hy : Canonical y) :
    Models w (defineBinary name op x y) ↔
      Demanded op (name.holds w) (x.holds w) (y.holds w) := by
  have hnotname := holds_opposite hw hname
  have hnotx := holds_opposite hw hx
  have hnoty := holds_opposite hw hy
  -- once the literals are truth values, each template is checked for all values
  cases op with
  | and =>
    simp only [defineBinary, Demanded, models_cons, someHolds_cons, hnotx, hnoty]
    cases x.holds w <;> cases y.holds w <;> simp
  | or =>
    simp only [defineBinary, Demanded, models_cons, someHolds_cons, hnotname]
    cases name.holds w <;> cases x.holds w <;> simp
  | implies =>
    simp only [defineBinary, Demanded, models_cons, someHolds_cons, hnotname, hnotx]
    cases name.holds w <;> cases x.holds w <;> simp
  | iff =>
    simp only [defineBinary, Demanded, models_cons, someHolds_cons, hnotname, hnotx, hnoty]
    cases name.holds w <;> cases x.holds w <;> cases y.holds w <;> simp

/-- The value of the connective is as the clauses demand it. -/
theorem demanded_apply (op : Connective) (x y : Bool) : Demanded op (op.apply x y) x y := by
  cases op <;> cases x <;> cases y <;> simp [Demanded, Connective.apply]

end Templates

theorem length_of_mem_defineBinary {name x y : Literal} {op : Connective} {c : Clause}
    (hc : c ∈ defineBinary name op x y) : c.length = 3 := by
  cases op with
  | and =>
    rw [defineBinary, List.mem_singleton] at hc
    rw [hc]
    rfl
  | or =>
    rw [defineBinary, List.mem_singleton] at hc
    rw [hc]
    rfl
  | implies =>
    rw [defineBinary, List.mem_singleton] at hc
    rw [hc]
    rfl
  | iff =>
    simp only [defineBinary, List.mem_cons, List.not_mem_nil, or_false] at hc
    rcases hc with rfl | rfl | rfl | rfl <;> rfl

/-- A name for a negation is defined by the literal of the operand. -/
theorem define_neg (hmem : .neg g ∈ rightToLeft f) (name : Literal) :
    ∃ x, literalFor (names f) g = .ok x ∧ Canonical x ∧
      (∀ w, Faithful (names f) w → x.holds w = g.eval fun a => w a.name) ∧
      define (names f) name (.neg g) = .ok [[opposite name, opposite x], [name, x]] := by
  obtain ⟨x, hx, hcanonical, hholds⟩ := literalFor_names (mem_rightToLeft_operand hmem)
  exact ⟨x, hx, hcanonical, hholds, by rw [define, hx]⟩

/-- A name for a binary subformula is defined by the literals of its two sides. -/
theorem define_bin {op : Connective} {l r : Formula Letter} (hmem : .bin op l r ∈ rightToLeft f)
    (name : Literal) :
    ∃ x y, literalFor (names f) l = .ok x ∧ literalFor (names f) r = .ok y ∧
      Canonical x ∧ Canonical y ∧
      (∀ w, Faithful (names f) w →
        (x.holds w = l.eval fun a => w a.name) ∧ y.holds w = r.eval fun a => w a.name) ∧
      define (names f) name (.bin op l r) = .ok (defineBinary name op x y) := by
  obtain ⟨hleft, hright⟩ := mem_rightToLeft_sides hmem
  obtain ⟨x, hx, hxcanonical, hxholds⟩ := literalFor_names hleft
  obtain ⟨y, hy, hycanonical, hyholds⟩ := literalFor_names hright
  exact ⟨x, y, hx, hy, hxcanonical, hycanonical, fun w hw => ⟨hxholds w hw, hyholds w hw⟩,
    by rw [define, hx, hy]⟩

/-- The clauses of a definition are those for a negation or for a connective, made of the name and
of the literals of the operands. -/
theorem define_cases {k : Nat} {cs : List Clause} (hk : (namingOrder f)[k]? = some g)
    (hcs : define (names f) (literal (auxiliary k)) g = .ok cs) :
    (∃ h x, g = .neg h ∧ literalFor (names f) h = .ok x ∧ Canonical x ∧
        cs = [[opposite (literal (auxiliary k)), opposite x], [literal (auxiliary k), x]]) ∨
      ∃ op l r x y, g = .bin op l r ∧ literalFor (names f) l = .ok x ∧
        literalFor (names f) r = .ok y ∧ Canonical x ∧ Canonical y ∧
        cs = defineBinary (literal (auxiliary k)) op x y := by
  obtain ⟨hmem, hneeds⟩ := mem_namingOrder.mp (List.mem_of_getElem? hk)
  cases g with
  | var a => cases hneeds
  | const b => cases hneeds
  | neg h =>
    obtain ⟨x, hx, hcanonical, -, hdefine⟩ := define_neg hmem (literal (auxiliary k))
    exact Or.inl ⟨h, x, rfl, hx, hcanonical, Except.ok.inj (hcs.symm.trans hdefine)⟩
  | bin op l r =>
    obtain ⟨x, y, hx, hy, hxcanonical, hycanonical, -, hdefine⟩ :=
      define_bin hmem (literal (auxiliary k))
    exact Or.inr ⟨op, l, r, x, y, rfl, hx, hy, hxcanonical, hycanonical,
      Except.ok.inj (hcs.symm.trans hdefine)⟩

/-- Every named subformula has defining clauses of two literals at least, and they hold under
faithful valuations. -/
theorem define_names {k : Nat} (hk : (namingOrder f)[k]? = some g) :
    ∃ cs, define (names f) (literal (auxiliary k)) g = .ok cs ∧ (∀ c ∈ cs, 2 ≤ c.length) ∧
      ∀ w, Faithful (names f) w → Models w cs := by
  obtain ⟨hmem, hneeds⟩ := mem_namingOrder.mp (List.mem_of_getElem? hk)
  have hcanonical : Canonical (literal (auxiliary k)) := canonical_literal (.named k)
  -- the new name has the value of the formula it is for
  have hname : ∀ w, Faithful (names f) w →
      (literal (auxiliary k)).holds w = g.eval fun a => w a.name := by
    intro w hw
    exact (holds_literal (.named k)).trans (hw.named (get?_names.mpr ⟨k, hk, rfl⟩))
  cases g with
  | var a => cases hneeds
  | const b => cases hneeds
  | neg g =>
    obtain ⟨x, -, hxcanonical, hxholds, hdefine⟩ := define_neg hmem (literal (auxiliary k))
    refine ⟨_, hdefine, by simp, ?_⟩
    intro w hw
    -- its two clauses make it the opposite of the operand
    rw [models_negation_iff hw.constant hcanonical hxcanonical, hname w hw, hxholds w hw]
    rfl
  | bin op l r =>
    obtain ⟨x, y, -, -, hxcanonical, hycanonical, hholds, hdefine⟩ :=
      define_bin hmem (literal (auxiliary k))
    refine ⟨_, hdefine, ?_, ?_⟩
    · intro c hc
      rw [length_of_mem_defineBinary hc]
      decide
    · intro w hw
      obtain ⟨hx, hy⟩ := hholds w hw
      rw [models_defineBinary_iff hw.constant hcanonical hxcanonical hycanonical, hname w hw, hx,
        hy]
      exact demanded_apply op _ _

end Propositional.Tseytin
