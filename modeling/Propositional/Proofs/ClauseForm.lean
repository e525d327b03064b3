import Propositional.Clause
import Propositional.Proofs.Evaluation
import Propositional.Proofs.Satisfaction

/-!
# The meaning of clause form

A formula that is read as clauses is true exactly when each clause has a literal that holds.  The
valuation of letters that the formula is evaluated under takes the values of their names.

* `Formula.eval_chain_and`, `Formula.eval_chain_or` — chains of one connective, however grouped;
* `Clause.models_allOfFormula` — the clauses of a formula say what the formula says;
* `Clause.plain_allOfFormula`  — their literals are letters and negated letters;
* `Clause.satisfiable_iff`     — a formula is satisfiable when its clauses have a model.
-/

namespace Propositional

/-! ## Valuations of letters and of names -/

namespace Letter

/-- The name of a letter does not begin with a character that is no letter. -/
theorem head?_name_ne {a : Letter} {c : Char} (h : c.isLower = false) :
    a.name.toList.head? ≠ some c := by
  rw [name, String.toList_ofList, List.head?_cons]
  intro heq
  have hlower := a.isLower
  rw [Option.some.inj heq, h] at hlower
  cases hlower

/-- The valuation of names that gives letters the values of `u` and every other text none. -/
def byName (u : Letter → Bool) (text : String) : Bool :=
  ((ofName? text).map u).getD false

/-- The name of a letter has the value of the letter. -/
@[simp]
theorem byName_name (u : Letter → Bool) (a : Letter) : byName u a.name = u a := by
  rw [byName, ofName?_name]
  rfl

end Letter

variable {v : String → Bool}

namespace Literal

/-- A formula that is a literal says what the literal says, and the literal has one mark at most. -/
theorem holds_ofFormula? {g : Formula Letter} {l : Literal} (h : ofFormula? g = some l) :
    l.Plain ∧ l.holds v = g.eval fun a => v a.name := by
  unfold ofFormula? at h
  split at h
  · next a =>
    cases h
    have hread := Signed.read_of_unmarked (a.head?_name_ne (c := negationGlyph) (by decide))
    refine ⟨Signed.unmarked _ hread.1, ?_⟩
    rw [ofLetter, Signed.holds, hread.1, hread.2]
    rfl
  · next a =>
    cases h
    exact ⟨a.head?_name_ne (by decide), rfl⟩
  · cases h

end Literal

/-! ## Chains -/

namespace Formula

variable {α : Type} {u : α → Bool}

/-- A formula is true exactly when all members of its chain of conjunctions are. -/
theorem eval_chain_and (f : Formula α) :
    (∀ g ∈ f.chain .and, g.eval u = true) ↔ f.eval u = true := by
  induction f with
  | var a => simp [chain]
  | const b => simp [chain]
  | neg f _ => simp [chain]
  | bin op l r ihl ihr =>
    by_cases hop : op = .and
    · subst hop
      rw [chain, if_pos rfl, List.forall_mem_append, ihl, ihr, eval, Connective.apply,
        Bool.and_eq_true]
    · rw [chain, if_neg hop, List.forall_mem_singleton]

/-- A formula is true exactly when some member of its chain of disjunctions is. -/
theorem eval_chain_or (f : Formula α) :
    (∃ g ∈ f.chain .or, g.eval u = true) ↔ f.eval u = true := by
  induction f with
  | var a => simp [chain]
  | const b => simp [chain]
  | neg f _ => simp [chain]
  | bin op l r ihl ihr =>
    by_cases hop : op = .or
    · subst hop
      rw [chain, if_pos rfl, eval, Connective.apply, Bool.or_eq_true, ← ihl, ← ihr]
      simp only [List.mem_append, or_and_right, exists_or]
    · rw [chain, if_neg hop]
      simp

end Formula

/-! ## Clauses -/

namespace Clause

/-- The members of a conjunct, one after the other, are the literals of its clause. -/
theorem ofConjunct_eq_ok_iff {conjunct : Formula Letter} {c : Clause} :
    ofConjunct conjunct = .ok c ↔
      List.Forall₂ (fun g l => Literal.ofFormula? g = some l) (conjunct.chain .or) c := by
  have hliteral : ∀ {g : Formula Letter} {l : Literal},
      literalOf conjunct g = .ok l ↔ Literal.ofFormula? g = some l := by
    intro g l
    unfold literalOf
    cases Literal.ofFormula? g <;> simp
  rw [ofConjunct, mapM_eq_ok_iff]
  simp only [hliteral]

/-- The clause of a conjunct says what the conjunct says. -/
theorem someHolds_ofConjunct {conjunct : Formula Letter} {c : Clause}
    (h : ofConjunct conjunct = .ok c) :
    (∀ l ∈ c, l.Plain) ∧ (SomeHolds v c ↔ conjunct.eval (fun a => v a.name) = true) := by
  have hmembers := ofConjunct_eq_ok_iff.mp h
  constructor
  · exact forall_mem_of_forall₂ hmembers fun hl => (Literal.holds_ofFormula? (v := v) hl).1
  · rw [← Formula.eval_chain_or, SomeHolds]
    symm
    apply exists_mem_iff_of_forall₂ hmembers
    intro g l hl
    rw [(Literal.holds_ofFormula? hl).2]

variable {f : Formula Letter} {clauses : List Clause}

/-- The literals in the clauses of a formula have one mark at most. -/
theorem plain_allOfFormula (h : allOfFormula f = .ok clauses) :
    ∀ c ∈ clauses, ∀ l ∈ c, l.Plain :=
  forall_mem_of_forall₂ (mapM_eq_ok_iff.mp h)
    fun hc => (someHolds_ofConjunct (v := fun _ => false) hc).1

/-- The clauses of a formula say what the formula says. -/
theorem models_allOfFormula (h : allOfFormula f = .ok clauses) :
    Models v clauses ↔ f.eval (fun a => v a.name) = true := by
  rw [← Formula.eval_chain_and, Models]
  symm
  apply forall_mem_iff_of_forall₂ (mapM_eq_ok_iff.mp h)
  intro g c hc
  rw [(someHolds_ofConjunct hc).2]

/-- A formula is satisfiable exactly when its clauses have a model. -/
theorem satisfiable_iff (h : allOfFormula f = .ok clauses) :
    f.Satisfiable ↔ ∃ v : String → Bool, Models v clauses := by
  constructor
  · rintro ⟨u, hu⟩
    refine ⟨Letter.byName u, (models_allOfFormula h).mpr ?_⟩
    simpa using hu
  · rintro ⟨v, hv⟩
    exact ⟨_, (models_allOfFormula h).mp hv⟩

end Clause

end Propositional
