import Propositional.Proofs.ClauseForm
import Propositional.Proofs.Grammar
import Propositional.UnitPropagation.Analysis

/-!
# Reading the canonical rendering of clauses

The canonical rendering of a propagation has a minus sign for negation, commas between literals and
semicolons between clauses.  With the signs of formulas in their places it is the text of a formula
in clause form, and the clauses of this formula are those that were rendered.

Joining goes from left to right, as reading does: the parts are joined one by one, and each time
the formula so far becomes the left side of the next connective.

* `Propagation.asFormula`  — the rendering with the signs of formulas;
* `Formula.joined`, `Formula.chain_joined` — formulas joined from the left, and their chain;
* `Writes`                 — a formula is written by a text of the rendering;
* `Writes.group`, `Writes.bin`, `Writes.join` — how such texts are put together;
* `Clause.Proper`, `Clause.ProperRow`, `Clause.proper_of_allOfFormula` — the clauses that formulas
  have;
* `Clause.read_written`    — proper clauses are read back from their rendering.
-/

namespace Propositional

/-! ## Signs of the rendering -/

namespace Propagation

/-- The sign of formulas for a sign of the canonical rendering; other characters stay. -/
def signAsFormula (c : Char) : Char :=
  if c = '-' then negationGlyph
  else if c = ',' then Connective.or.glyph
  else if c = ';' then Connective.and.glyph
  else c

/-- A canonical rendering with the signs of formulas. -/
def asFormula (text : String) : String :=
  text.map signAsFormula

theorem toList_asFormula (text : String) :
    (asFormula text).toList = text.toList.map signAsFormula := by
  rw [asFormula, String.toList_map]

theorem signAsFormula_of_isLower {c : Char} (h : c.isLower = true) : signAsFormula c = c := by
  have hne : ∀ {d : Char}, d.isLower = false → c ≠ d := by
    rintro d hd rfl
    rw [hd] at h
    cases h
  rw [signAsFormula, if_neg (hne (by decide)), if_neg (hne (by decide)), if_neg (hne (by decide))]

end Propagation

/-! ## Joined formulas -/

namespace Formula

variable {α : Type} {op : Connective} {f : Formula α} {rest : List (Formula α)}

/-- Formulas joined by a connective and grouped from the left. -/
def joined (op : Connective) (f : Formula α) (rest : List (Formula α)) : Formula α :=
  rest.foldl (.bin op) f

/-- The chain of joined formulas is that of the first one and then the others, as far as these do
not go on with the connective. -/
theorem chain_joined (hrest : ∀ g ∈ rest, g.chain op = [g]) :
    (joined op f rest).chain op = f.chain op ++ rest := by
  -- what is joined first becomes the left side, so the induction is about every first formula
  induction rest generalizing f with
  | nil => rw [joined, List.foldl_nil, List.append_nil]
  | cons g rest ih =>
    rw [List.forall_mem_cons] at hrest
    have hfirst : (bin op f g).chain op = f.chain op ++ [g] := by
      rw [chain, if_pos rfl, hrest.1]
    have hjoined := ih (f := .bin op f g) hrest.2
    rw [hfirst, List.append_assoc, List.singleton_append] at hjoined
    exact hjoined

/-- A chain has at least one member. -/
theorem chain_ne_nil (op : Connective) (f : Formula α) : f.chain op ≠ [] := by
  induction f with
  | var a => exact List.cons_ne_nil _ _
  | const b => exact List.cons_ne_nil _ _
  | neg f _ => exact List.cons_ne_nil _ _
  | bin c l r ihl _ =>
    rw [chain]
    split
    · exact List.append_ne_nil_of_left_ne_nil ihl _
    · exact List.cons_ne_nil _ _

/-- Another connective does not open what has been joined. -/
theorem chain_joined_of_ne {other : Connective} (hne : op ≠ other) (hf : f.chain other = [f]) :
    (joined op f rest).chain other = [joined op f rest] := by
  induction rest generalizing f with
  | nil => exact hf
  | cons g rest ih => exact ih (f := .bin op f g) (by rw [chain, if_neg hne])

end Formula

/-! ## Texts of formulas -/

open Propagation (asFormula toList_asFormula signAsFormula_of_isLower)

/-- A text of the rendering writes a formula in the layer of strength `n`. -/
def Writes (n : Nat) (f : Formula Letter) (text : String) : Prop :=
  ∃ w, Derives n w f ∧ (asFormula text).toList = w.map Symbol.glyph

namespace Writes

variable {m n : Nat} {f g : Formula Letter} {s t : String}

/-- What is written tightly enough for one place is so for a looser one. -/
theorem loosen (h : Writes n f t) (hm : 1 ≤ m) (hmn : m ≤ n) : Writes m f t := by
  obtain ⟨w, hw, htext⟩ := h
  exact ⟨w, hw.loosen hm hmn, htext⟩

/-- Parentheses make a formula of any layer one that cannot be split. -/
theorem group (h : Writes 1 f t) : Writes 5 f ("(" ++ t ++ ")") := by
  obtain ⟨w, hw, htext⟩ := h
  refine ⟨_, .group hw, ?_⟩
  have hleft : (asFormula "(").toList = ['('] := by
    rw [toList_asFormula]
    rfl
  have hright : (asFormula ")").toList = [')'] := by
    rw [toList_asFormula]
    rfl
  rw [toList_asFormula] at htext hleft hright ⊢
  rw [String.toList_append, String.toList_append, List.map_append, List.map_append, htext, hleft,
    hright]
  simp [Symbol.glyph]

/-- Two formulas with the sign of a connective between them. -/
theorem bin {op : Connective} {sep : String} (hsep : (asFormula sep).toList = [op.glyph])
    (hf : Writes op.strength f s) (hg : Writes (op.strength + 1) g t) :
    Writes op.strength (.bin op f g) (s ++ sep ++ t) := by
  obtain ⟨u, hu, hs⟩ := hf
  obtain ⟨v, hv, ht⟩ := hg
  refine ⟨_, .bin hu hv, ?_⟩
  rw [toList_asFormula] at hsep hs ht ⊢
  rw [String.toList_append, String.toList_append, List.map_append, List.map_append, hs, hsep, ht]
  simp [Symbol.glyph]

/-- Several formulas with the sign of a connective between them. -/
theorem join {op : Connective} {sep : String} (hsep : (asFormula sep).toList = [op.glyph])
    {rest : List (Formula Letter)} {texts : List String} (hf : Writes op.strength f s)
    (hrest : List.Forall₂ (Writes (op.strength + 1)) rest texts) :
    Writes op.strength (.joined op f rest) (sep.intercalate (s :: texts)) := by
  induction hrest generalizing f s with
  | nil =>
    rw [String.intercalate_singleton]
    exact hf
  | @cons g t rest texts hg _ ih =>
    -- the first two formulas are the first one of those that are left to join
    have hfirst :
        sep.intercalate (s :: t :: texts) = sep.intercalate ((s ++ sep ++ t) :: texts) := by
      apply String.toList_injective
      cases texts <;> simp [String.toList_intercalate]
    rw [hfirst]
    exact ih (hf.bin hsep hg)

end Writes

/-! ## Literals and clauses -/

namespace Literal

/-- The literal is a letter or a negated letter. -/
def AboutLetter (l : Literal) : Prop :=
  ∃ g, ofFormula? g = some l

theorem AboutLetter.plain {l : Literal} (h : l.AboutLetter) : l.Plain := by
  obtain ⟨g, hg⟩ := h
  exact (holds_ofFormula? (v := fun _ => false) hg).1

/-- The rendering of a literal writes the formula that the literal is. -/
theorem writes_canonical {g : Formula Letter} {l : Literal} (h : ofFormula? g = some l) :
    Writes 5 g l.canonical := by
  -- a letter is none of the signs that are replaced
  unfold ofFormula? at h
  split at h
  · next a =>
    cases h
    have hread := Signed.read_of_unmarked (a.head?_name_ne (c := negationGlyph) (by decide))
    refine ⟨_, .atom a, ?_⟩
    rw [toList_asFormula, canonical, ofLetter, hread.1, if_neg Bool.false_ne_true, hread.2,
      Letter.name, String.toList_ofList, List.map_singleton, signAsFormula_of_isLower a.isLower]
    rfl
  · next a =>
    cases h
    refine ⟨_, .neg (.atom a), ?_⟩
    have hname : a.name.toList.map Propagation.signAsFormula = [a.char] := by
      rw [Letter.name, String.toList_ofList, List.map_singleton,
        signAsFormula_of_isLower a.isLower]
    rw [toList_asFormula, canonical, Signed.negative, if_pos rfl, String.toList_append,
      List.map_append, hname]
    rfl
  · cases h

/-- A formula that is a literal is the only member of its chains. -/
theorem chain_of_ofFormula? {g : Formula Letter} {l : Literal} (h : ofFormula? g = some l)
    (op : Connective) : g.chain op = [g] := by
  unfold ofFormula? at h
  split at h
  · rfl
  · rfl
  · cases h

end Literal

namespace Clause

variable {c : Clause} {clauses : List Clause} {f : Formula Letter}

/-- A clause that formulas can have: there are literals in it, and they are about letters. -/
structure Proper (c : Clause) : Prop where
  nonempty : c ≠ []
  letters : ∀ l ∈ c, l.AboutLetter

/-- A row of clauses that a formula can have: there are clauses in it, and they are proper. -/
structure ProperRow (clauses : List Clause) : Prop where
  nonempty : clauses ≠ []
  proper : ∀ c ∈ clauses, c.Proper

theorem ProperRow.ne_nil (h : ProperRow clauses) : ∀ c ∈ clauses, c ≠ [] :=
  fun c hc => (h.proper c hc).nonempty

theorem ProperRow.plain (h : ProperRow clauses) : ∀ c ∈ clauses, ∀ l ∈ c, l.Plain :=
  fun c hc l hl => ((h.proper c hc).letters l hl).plain

/-- A row of clauses in the canonical rendering, each with its literals as they stand. -/
def written (clauses : List Clause) : String :=
  ";".intercalate (clauses.map fun c => "(" ++ ",".intercalate (c.map (·.canonical)) ++ ")")

/-- The canonical rendering writes the propagated literals as unit clauses, and behind them the
other clauses in alphabetical order. -/
theorem canonical_eq_written (hne : ∀ c ∈ clauses, c ≠ []) (literals : List Literal) :
    canonical clauses literals =
      written (literals.map (fun l => [l]) ++ clauses.map (List.mergeSort · nameBefore)) := by
  have hkept : clauses.filter (fun c => !c.isEmpty) = clauses := by
    rw [List.filter_eq_self]
    intro c hc
    simpa using hne c hc
  rw [canonical, written, hkept, List.map_append, List.map_map, List.map_map]
  rfl

/-- A proper clause is that of a formula, which its literals write with commas between them. -/
theorem Proper.exists_conjunct (h : c.Proper) :
    ∃ conjunct, Writes 3 conjunct (",".intercalate (c.map (·.canonical))) ∧
      conjunct.chain .and = [conjunct] ∧ ofConjunct conjunct = .ok c := by
  obtain ⟨members, hmembers⟩ := exists_forall₂ h.letters
  cases hmembers with
  | nil => exact absurd rfl h.nonempty
  | @cons g l members literals hg hmembers =>
    have hcomma : (asFormula ",").toList = [Connective.or.glyph] := by
      rw [toList_asFormula]
      rfl
    have hsingle : ∀ m ∈ members, m.chain .or = [m] :=
      forall_mem_of_forall₂ hmembers.flip fun hm => Literal.chain_of_ofFormula? hm .or
    have hwhole : Writes Connective.or.strength (.joined .or g members)
        (",".intercalate (l.canonical :: literals.map (·.canonical))) := by
      refine .join hcomma ((Literal.writes_canonical hg).loosen (by decide) (by decide)) ?_
      rw [List.forall₂_map_right_iff]
      exact hmembers.imp fun m _ hm =>
        (Literal.writes_canonical hm).loosen (by decide) (by decide)
    -- the conjunct has no other chain than that of its disjunction
    refine ⟨.joined .or g members, hwhole, ?_, ?_⟩
    · exact Formula.chain_joined_of_ne (by decide) (Literal.chain_of_ofFormula? hg .and)
    · rw [ofConjunct_eq_ok_iff, Formula.chain_joined hsingle, Literal.chain_of_ofFormula? hg]
      exact .cons hg hmembers

/-- Proper clauses are read back from their rendering. -/
theorem read_written (h : ProperRow clauses) :
    ∃ f, Formula.read (asFormula (written clauses)) = .ok f ∧ allOfFormula f = .ok clauses := by
  obtain ⟨conjuncts, hconjuncts⟩ := exists_forall₂ fun c hc => (h.proper c hc).exists_conjunct
  have hsemicolon : (asFormula ";").toList = [Connective.and.glyph] := by
    rw [toList_asFormula]
    rfl
  cases hconjuncts with
  | nil => exact absurd rfl h.nonempty
  | @cons g c conjuncts clauses hg hconjuncts =>
    obtain ⟨hwrites, hchain, hclause⟩ := hg
    have hsingle : ∀ m ∈ conjuncts, m.chain .and = [m] :=
      forall_mem_of_forall₂ hconjuncts.flip fun hm => hm.2.1
    -- every clause stands in parentheses, so the semicolons join formulas of the tightest layer
    have hgroup : ∀ {conjunct text}, Writes 3 conjunct text →
        Writes 5 conjunct ("(" ++ text ++ ")") := fun h => (h.loosen (by omega) (by omega)).group
    have hwhole : Writes Connective.and.strength (.joined .and g conjuncts)
        (written (c :: clauses)) := by
      refine .join hsemicolon ((hgroup hwrites).loosen (by decide) (by decide)) ?_
      rw [List.forall₂_map_right_iff]
      exact hconjuncts.imp fun _ _ hm => hgroup hm.1
    obtain ⟨w, hw, htext⟩ := hwhole.loosen (Nat.le_refl 1) Connective.and.one_le_strength
    refine ⟨_, Formula.read_eq_ok_iff.mpr ⟨w, ?_, hw⟩, ?_⟩
    · rw [htext, withoutSeparators_map_glyph]
    · rw [allOfFormula, Formula.chain_joined hsingle, hchain, mapM_eq_ok_iff]
      exact .cons hclause (hconjuncts.imp fun _ _ hm => hm.2.2)

/-! ## The clauses of a formula -/

/-- A formula in clause form has at least one clause, and all its clauses are proper. -/
theorem proper_of_allOfFormula (h : allOfFormula f = .ok clauses) : ProperRow clauses := by
  -- what goes along with a chain is not empty either
  have hne : ∀ {β : Type} {R : Formula Letter → β → Prop} {op : Connective} {g : Formula Letter}
      {ys : List β}, List.Forall₂ R (g.chain op) ys → ys ≠ [] := by
    rintro β R op g _ hall rfl
    exact g.chain_ne_nil op (List.forall₂_nil_right_iff.mp hall)
  have hclauses := mapM_eq_ok_iff.mp h
  refine ⟨hne hclauses, forall_mem_of_forall₂ hclauses ?_⟩
  intro conjunct c hc
  have hmembers := ofConjunct_eq_ok_iff.mp hc
  exact ⟨hne hmembers, forall_mem_of_forall₂ hmembers fun hl => ⟨_, hl⟩⟩

end Clause

end Propositional
