import Mathlib.Data.List.Nodup
import Mathlib.Logic.Function.Basic
import Propositional.Proofs.Evaluation
import Propositional.Proofs.Tables
import Propositional.Tseytin

/-!
# The names in Tseytin clauses

Which subformulas get a name, and how the names are written.  A literal of the clauses is about a
letter, about a constant or about a numbered name.  These three are never written alike, so a
valuation of letters, constants and numbers is as good as a valuation of texts.

* `Tseytin.mem_rightToLeft_iff`, `Tseytin.mem_rightToLeft_trans` — subformulas and their children;
* `Tseytin.mem_namingOrder`, `Tseytin.nodup_namingOrder`  — the named subformulas, each once;
* `Tseytin.get?_names`           — the table of names gives the `k`-th of them the number `k`;
* `Tseytin.Subject`              — what a literal can be about, with its text;
* `Tseytin.Subject.text_injective` — different subjects have different texts;
* `Tseytin.Subject.head?_text_ne`, `Tseytin.Subject.comma_notMem_text` — the minus sign and the
  comma are kept for other uses.
-/

namespace Propositional.Tseytin

variable {f g h : Formula Letter}

/-! ## Subformulas -/

/-- What holds of a formula when it holds of its children holds of all formulas. -/
theorem children_induction {motive : Formula Letter → Prop}
    (step : ∀ f, (∀ c ∈ f.children, motive c) → motive f) (f : Formula Letter) : motive f := by
  induction f with
  | var a => exact step _ fun c hc => absurd hc List.not_mem_nil
  | const b => exact step _ fun c hc => absurd hc List.not_mem_nil
  | neg f ih =>
    refine step _ fun c hc => ?_
    rw [Formula.children, List.mem_singleton] at hc
    exact hc ▸ ih
  | bin op l r ihl ihr =>
    refine step _ fun c hc => ?_
    rw [Formula.children, List.mem_pair] at hc
    rcases hc with rfl | rfl
    · exact ihl
    · exact ihr

/-- The subformulas of a formula are the formula itself and the subformulas of its children. -/
theorem mem_rightToLeft_iff :
    g ∈ rightToLeft f ↔ g = f ∨ ∃ c ∈ f.children, g ∈ rightToLeft c := by
  cases f with
  | var a => simp [rightToLeft, Formula.children]
  | const b => simp [rightToLeft, Formula.children]
  | neg f => simp [rightToLeft, Formula.children, or_comm]
  | bin op l r =>
    simp only [rightToLeft, Formula.children, List.mem_append, List.mem_cons, List.not_mem_nil,
      or_false, exists_eq_or_imp, exists_eq_left]
    -- the same three cases, in the order of the list and with the formula itself in front
    constructor
    · rintro (hr | hl | hself)
      · exact Or.inr (Or.inr hr)
      · exact Or.inr (Or.inl hl)
      · exact Or.inl hself
    · rintro (hself | hl | hr)
      · exact Or.inr (Or.inr hself)
      · exact Or.inr (Or.inl hl)
      · exact Or.inl hr

/-- A formula stands in its own list. -/
theorem mem_rightToLeft_self (f : Formula Letter) : f ∈ rightToLeft f :=
  mem_rightToLeft_iff.mpr (Or.inl rfl)

/-- With a subformula, its subformulas are listed too. -/
theorem mem_rightToLeft_trans (hg : g ∈ rightToLeft f) (hh : h ∈ rightToLeft g) :
    h ∈ rightToLeft f := by
  induction f using children_induction with
  | step f ih =>
    rcases mem_rightToLeft_iff.mp hg with rfl | ⟨c, hc, hgc⟩
    · exact hh
    · exact mem_rightToLeft_iff.mpr (Or.inr ⟨c, hc, ih c hc hgc⟩)

/-- The children of a subformula are subformulas. -/
theorem mem_rightToLeft_of_mem_children (hg : g ∈ rightToLeft f) (hh : h ∈ g.children) :
    h ∈ rightToLeft f :=
  mem_rightToLeft_trans hg (mem_rightToLeft_iff.mpr (Or.inr ⟨h, hh, mem_rightToLeft_self h⟩))

theorem mem_rightToLeft_operand (h : .neg g ∈ rightToLeft f) : g ∈ rightToLeft f :=
  mem_rightToLeft_of_mem_children h (List.mem_singleton_self g)

theorem mem_rightToLeft_sides {op : Connective} {l r : Formula Letter}
    (h : .bin op l r ∈ rightToLeft f) : l ∈ rightToLeft f ∧ r ∈ rightToLeft f :=
  ⟨mem_rightToLeft_of_mem_children h (List.mem_pair.mpr (Or.inl rfl)),
    mem_rightToLeft_of_mem_children h (List.mem_pair.mpr (Or.inr rfl))⟩

theorem atoms_subset_of_mem_children (hg : g ∈ f.children) : g.atoms ⊆ f.atoms := by
  cases f with
  | var a => cases hg
  | const b => cases hg
  | neg f =>
    rw [Formula.children, List.mem_singleton] at hg
    rw [hg, Formula.atoms]
    exact List.Subset.refl _
  | bin op l r =>
    rw [Formula.children, List.mem_pair] at hg
    rw [Formula.atoms]
    rcases hg with rfl | rfl
    · exact List.subset_append_left _ _
    · exact List.subset_append_right _ _

/-- The atoms of a subformula are atoms of the formula. -/
theorem atoms_subset (hg : g ∈ rightToLeft f) : g.atoms ⊆ f.atoms := by
  induction f using children_induction with
  | step f ih =>
    rcases mem_rightToLeft_iff.mp hg with rfl | ⟨c, hc, hgc⟩
    · exact List.Subset.refl _
    · exact List.Subset.trans (ih c hc hgc) (atoms_subset_of_mem_children hc)

/-! ## Subformulas with a name -/

/-- Names go to the subformulas that need one, and to no others. -/
theorem mem_namingOrder : g ∈ namingOrder f ↔ g ∈ rightToLeft f ∧ needsName g = true := by
  rw [namingOrder, List.mem_filter, List.mem_eraseDups]

/-- No subformula is named twice, however often it occurs. -/
theorem nodup_namingOrder (f : Formula Letter) : (namingOrder f).Nodup :=
  (nodup_eraseDups _).filter _

/-- A subformula is called by its place in the order of naming. -/
theorem get?_names {name : String} :
    (names f).get? g = some name ↔ ∃ k, (namingOrder f)[k]? = some g ∧ name = auxiliary k := by
  -- no subformula stands twice in the order of naming, so no entry of the table hides another
  have hkeys : (((namingOrder f).zipIdx.map fun p => (p.1, auxiliary p.2)).map Prod.fst).Nodup := by
    rw [List.map_map]
    show ((namingOrder f).zipIdx.map Prod.fst).Nodup
    rw [List.zipIdx_map_fst]
    exact nodup_namingOrder f
  refine (Table.get?_ofList_eq_some_iff hkeys).trans (List.mem_map.trans ?_)
  constructor
  · rintro ⟨⟨x, k⟩, hmem, heq⟩
    obtain ⟨rfl, rfl⟩ := Prod.mk.inj heq
    exact ⟨k, List.mem_zipIdx_iff_getElem?.mp hmem, rfl⟩
  · rintro ⟨k, hk, rfl⟩
    exact ⟨(g, k), List.mem_zipIdx_iff_getElem?.mpr hk, rfl⟩

/-- A subformula that needs a name has a number. -/
theorem exists_number (hmem : g ∈ rightToLeft f) (hneeds : needsName g = true) :
    ∃ k : Nat, (namingOrder f)[k]? = some g :=
  List.mem_iff_getElem?.mp (mem_namingOrder.mpr ⟨hmem, hneeds⟩)

/-- Atoms, constants and literals have no name of their own. -/
theorem get?_names_eq_none (hneeds : needsName g = false) : (names f).get? g = none := by
  rw [Option.eq_none_iff_forall_ne_some]
  intro name hsome
  obtain ⟨k, hk, -⟩ := get?_names.mp hsome
  have hnamed := (mem_namingOrder.mp (List.mem_of_getElem? hk)).2
  rw [hneeds] at hnamed
  cases hnamed

/-- A negation without a name is that of a leaf, which has no name either. -/
theorem needsName_operand (h : needsName (.neg g) = false) : needsName g = false := by
  cases g with
  | var a => rfl
  | const b => rfl
  | neg g => cases h
  | bin op l r => cases h

/-! ## How names are written -/

theorem toList_auxiliary (k : Nat) : (auxiliary k).toList = 'n' :: Nat.toDigits 10 k := by
  simp [auxiliary]

/-- Different numbers make different names. -/
theorem auxiliary_injective : Function.Injective auxiliary := by
  intro j k hjk
  have hlists := congrArg String.toList hjk
  rw [toList_auxiliary, toList_auxiliary] at hlists
  have hdigits : Nat.toDigits 10 j = Nat.toDigits 10 k := (List.cons.inj hlists).2
  -- the number can be read off its digits
  have hnumbers := congrArg (fun digits => Nat.ofDigitChars 10 digits 0) hdigits
  simpa using hnumbers

theorem constantName_injective : Function.Injective constantName := by
  unfold Function.Injective
  decide

/-- What a literal of the clauses is about. -/
inductive Subject where
  | letter (a : Letter)
  | constant (b : Bool)
  | named (number : Nat)

namespace Subject

/-- The name that a literal has for its subject. -/
def text : Subject → String
  | letter a => a.name
  | constant b => constantName b
  | named number => auxiliary number

/-- Letters and constants are written with one character, names with two at least. -/
theorem auxiliary_ne_ofList (k : Nat) (c : Char) : auxiliary k ≠ String.ofList [c] := by
  intro heq
  have hlists := congrArg String.toList heq
  rw [toList_auxiliary, String.toList_ofList] at hlists
  exact Nat.toDigits_ne_nil (List.cons.inj hlists).2

/-- No letter is called like a constant. -/
theorem name_ne_constantName (a : Letter) (b : Bool) : a.name ≠ constantName b := by
  intro heq
  have hchar : a.char = truthGlyph b := by
    simpa [Letter.name, constantName] using congrArg String.toList heq
  have hlower := a.isLower
  rw [hchar] at hlower
  cases b <;> exact absurd hlower (by decide)

/-- Different subjects are written differently. -/
theorem text_injective : Function.Injective text := by
  intro s t hst
  cases s with
  | letter a =>
    cases t with
    | letter b =>
      -- a name reads as one letter only
      have hread : some a = some b := by
        rw [← Letter.ofName?_name a, ← Letter.ofName?_name b]
        exact congrArg Letter.ofName? hst
      rw [Option.some.inj hread]
    | constant b => exact absurd hst (name_ne_constantName a b)
    | named k => exact absurd hst.symm (auxiliary_ne_ofList k a.char)
  | constant b =>
    cases t with
    | letter a => exact absurd hst.symm (name_ne_constantName a b)
    | constant c => rw [constantName_injective hst]
    | named k => exact absurd hst.symm (auxiliary_ne_ofList k (truthGlyph b))
  | named k =>
    cases t with
    | letter a => exact absurd hst (auxiliary_ne_ofList k a.char)
    | constant b => exact absurd hst (auxiliary_ne_ofList k (truthGlyph b))
    | named j => rw [auxiliary_injective hst]

/-- The characters of a name are letters, digits and the glyphs of the constants. -/
theorem mem_text {s : Subject} {c : Char} (hc : c ∈ s.text.toList) :
    c.isLower = true ∨ c.isDigit = true ∨ ∃ b, c = truthGlyph b := by
  cases s with
  | letter a =>
    left
    rw [text, Letter.name, String.toList_ofList, List.mem_singleton] at hc
    rw [hc]
    exact a.isLower
  | constant b =>
    rw [text, constantName, String.toList_ofList, List.mem_singleton] at hc
    exact Or.inr (Or.inr ⟨b, hc⟩)
  | named k =>
    rw [text, toList_auxiliary, List.mem_cons] at hc
    rcases hc with rfl | hc
    · exact Or.inl (by decide)
    · exact Or.inr (Or.inl (Nat.isDigit_of_mem_toDigits (by decide) (by decide) hc))

/-- Names consist of lower-case letters, digits and the signs of the constants. -/
theorem notMem_text (s : Subject) {c : Char} (hlower : c.isLower = false)
    (hdigit : c.isDigit = false) (hglyph : ∀ b, c ≠ truthGlyph b) : c ∉ s.text.toList := by
  intro hc
  rcases mem_text hc with h | h | ⟨b, hb⟩
  · rw [hlower] at h
    cases h
  · rw [hdigit] at h
    cases h
  · exact hglyph b hb

theorem comma_notMem_text (s : Subject) : ',' ∉ s.text.toList :=
  s.notMem_text (by decide) (by decide) (by decide)

/-- No name begins with the sign of negated literals. -/
theorem head?_text_ne (s : Subject) : s.text.toList.head? ≠ some '-' := by
  intro hhead
  exact s.notMem_text (c := '-') (by decide) (by decide) (by decide) (List.mem_of_mem_head? hhead)

/-- A valuation of subjects is a valuation of names. -/
theorem exists_valuation_text (value : Subject → Bool) :
    ∃ w : String → Bool, ∀ s : Subject, w s.text = value s :=
  ⟨Function.extend text value fun _ => false, fun s => text_injective.extend_apply value _ s⟩

end Subject

end Propositional.Tseytin
