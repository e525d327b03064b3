import Propositional.Proofs.Lists
import Propositional.Signed

/-!
# Truth of literals and clauses

A valuation gives every name a truth value.  A literal then says that its name is true, or that it
is false; a clause says that one of its literals holds, and a row of clauses that each of them does.

* `Signed.holds`, `SomeHolds`, `Models` — truth of a literal, of a clause and of a row of clauses;
* `Signed.Plain`        — the name does not itself look negated;
* `Signed.holds_complement` — the complement of a plain literal says the opposite.
-/

namespace Propositional

variable {mark : Char} {v : String → Bool}

namespace Signed

/-- The truth value of a literal under a valuation of names. -/
def holds (v : String → Bool) (l : Signed mark) : Bool :=
  if l.negated then !v l.name else v l.name

/-- A literal whose name does not begin with the mark, so that one mark is all there is to read. -/
def Plain (l : Signed mark) : Prop :=
  l.name.toList.head? ≠ some mark

/-- A literal holds when its name has the value that the literal gives it. -/
theorem holds_iff {l : Signed mark} : l.holds v = true ↔ v l.name = !l.negated := by
  unfold holds
  cases l.negated <;> simp

/-- Reading a text that does not begin with the mark gives the literal with that name. -/
theorem read_of_unmarked {text : String} (h : text.toList.head? ≠ some mark) :
    (read mark text).negated = false ∧ (read mark text).name = text := by
  rw [read, ofChars, dif_neg h]
  exact ⟨rfl, String.ofList_toList⟩

/-- Two literals with one name are equal or complements of each other. -/
theorem eq_or_eq_complement {l m : Signed mark} (h : m.name = l.name) :
    m = l ∨ m = l.complement := by
  by_cases hsign : m.negated = l.negated
  · exact Or.inl (ext hsign h)
  · right
    cases hl : l.negated with
    | true =>
      -- the complement is the plain literal with the same name
      have hm : m.negated = false := by simpa [hl] using hsign
      have hunmarked : l.name.toList.head? ≠ some mark := h ▸ m.unmarked hm
      have hread := read_of_unmarked hunmarked
      rw [complement, hl, if_pos rfl]
      exact ext (hm.trans hread.1.symm) (h.trans hread.2.symm)
    | false =>
      have hm : m.negated = true := by simpa [hl] using hsign
      rw [complement, hl, if_neg Bool.false_ne_true]
      exact ext hm h

/-- The complement of a plain literal has the same name and the other sign. -/
theorem complement_of_plain {l : Signed mark} (h : l.Plain) :
    l.complement.name = l.name ∧ l.complement.negated = !l.negated := by
  unfold complement
  cases hl : l.negated with
  | true =>
    have hread := read_of_unmarked h
    simp [hread.1, hread.2]
  | false => simp [negative]

/-- The complement of a plain literal says the opposite. -/
theorem holds_complement {l : Signed mark} (h : l.Plain) :
    l.complement.holds v = !l.holds v := by
  obtain ⟨hname, hsign⟩ := complement_of_plain h
  unfold holds
  rw [hname, hsign]
  cases l.negated <;> simp

end Signed

/-! ## Clauses -/

/-- Some literal of a clause holds. -/
def SomeHolds (v : String → Bool) (c : List (Signed mark)) : Prop :=
  ∃ l ∈ c, l.holds v = true

/-- Every clause of a row has a literal that holds. -/
def Models (v : String → Bool) (clauses : List (List (Signed mark))) : Prop :=
  ∀ c ∈ clauses, SomeHolds v c

/-- In an empty clause nothing holds. -/
@[simp]
theorem not_someHolds_nil : ¬ SomeHolds v ([] : List (Signed mark)) := by
  rintro ⟨l, hl, -⟩
  exact List.not_mem_nil hl

/-- In a clause some literal holds when the first one does, or one of the others. -/
@[simp]
theorem someHolds_cons {l : Signed mark} {c : List (Signed mark)} :
    SomeHolds v (l :: c) ↔ l.holds v = true ∨ SomeHolds v c := by
  rw [SomeHolds, SomeHolds, List.exists_mem_cons_iff]

theorem someHolds_singleton {l : Signed mark} : SomeHolds v [l] ↔ l.holds v = true := by
  simp

/-- Only the set of literals matters for a clause. -/
theorem someHolds_congr {c d : List (Signed mark)} (h : ∀ l, l ∈ c ↔ l ∈ d) :
    SomeHolds v c ↔ SomeHolds v d := by
  simp [SomeHolds, h]

/-- No clauses are satisfied by every valuation. -/
@[simp]
theorem models_nil : Models v ([] : List (List (Signed mark))) := by
  intro c hc
  cases hc

/-- Clauses are satisfied when the first one is, and the others are. -/
@[simp]
theorem models_cons {c : List (Signed mark)} {clauses : List (List (Signed mark))} :
    Models v (c :: clauses) ↔ SomeHolds v c ∧ Models v clauses :=
  List.forall_mem_cons

/-- Two rows of clauses together say what each of them says. -/
theorem models_append {xs ys : List (List (Signed mark))} :
    Models v (xs ++ ys) ↔ Models v xs ∧ Models v ys :=
  List.forall_mem_append

end Propositional
