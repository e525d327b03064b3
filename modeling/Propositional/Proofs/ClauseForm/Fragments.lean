import Propositional.Proofs.Checked
import Propositional.Proofs.ClauseText
import Propositional.Proofs.Positions

/-!
# Which formulas are in clause form

A formula is taken apart at its conjunctions, and each conjunct at its disjunctions, however both
are grouped.  Where the parts stand in the tree says which they are: on the way to a part there is
nothing but the connective, and the part does not go on with it.  The order from left to right is
that of the positions, so the flattened chain lists the parts by their positions.

* `Formula.MemberAt`, `Formula.IsChain` — the operands of a chain by their positions, and the row of
  them in their order;
* `Formula.chainAt`, `Formula.isChain_chainAt`, `Formula.map_snd_chainAt` — flattening leads to this
  row;
* `Formula.exists_mapM_chain_iff`, `Formula.mapM_chain_eq_error_iff` — when a computation succeeds
  on all operands, and where it fails first;
* `Clause.Fragment`, `Clause.ReadsFrom` — the members of the conjuncts, and clauses made of them;
* `Clause.exists_allOfFormula_iff`, `Clause.allOfFormula_eq_error_iff` — success and failure;
* `Clause.parsed_exactly`  — what reading the clauses of a text gives.
-/

namespace Propositional

/-! ## Chains in a tree -/

namespace Formula

variable {α β ε : Type} {op : Connective} {f g g' l r : Formula α} {p p' q q' : Position}

/-- An operand of the chain of a connective that begins at the root of a formula. -/
structure MemberAt (op : Connective) (f : Formula α) (p : Position) (g : Formula α) : Prop where
  at_eq : f.at? p = some g
  -- All that stands above it is the connective.
  above : ∀ q s rest, p = q ++ s :: rest → ∃ l r, f.at? q = some (.bin op l r)
  -- It does not continue the chain.
  ends : ∀ l r, g ≠ .bin op l r

/-- No operand of a chain stands below another one. -/
theorem MemberAt.eq_of_prefix (h : f.MemberAt op p g) (h' : f.MemberAt op p' g') (hle : p <+: p') :
    p = p' := by
  obtain ⟨rest, rfl⟩ := hle
  cases rest with
  | nil => exact (List.append_nil p).symm
  | cons s rest =>
    -- the way to the second one would lead through the first, which does not continue the chain
    obtain ⟨l, r, hbin⟩ := h'.above p s rest rfl
    exact absurd (Option.some.inj (h.at_eq.symm.trans hbin)) (h.ends l r)

/-- The order of positions below operands of a chain is first that of the operands. -/
theorem MemberAt.precedes_append_iff (h : f.MemberAt op p g) (h' : f.MemberAt op p' g') :
    Position.Precedes (p ++ q) (p' ++ q') ↔
      Position.Precedes p p' ∨ p = p' ∧ Position.Precedes q q' := by
  by_cases hp : p = p'
  · subst hp
    rw [Position.precedes_append_left_iff]
    simp [Position.Precedes.irrefl]
  · rw [Position.precedes_append_iff (fun hle => hp (h.eq_of_prefix h' hle))
      fun hle => hp (h'.eq_of_prefix h hle).symm]
    simp [hp]

/-- A formula that is not built with the connective is the only operand. -/
theorem memberAt_iff_of_ne (hf : ∀ l r, f ≠ .bin op l r) :
    f.MemberAt op p g ↔ p = [] ∧ g = f := by
  constructor
  · intro h
    cases p with
    | nil => exact ⟨rfl, (Option.some.inj h.at_eq).symm⟩
    | cons s rest =>
      obtain ⟨l, r, hbin⟩ := h.above [] s rest rfl
      exact absurd (Option.some.inj hbin) (hf l r)
  · rintro ⟨rfl, rfl⟩
    refine ⟨rfl, fun q s rest h => ?_, hf⟩
    exact absurd h.symm (List.append_ne_nil_of_right_ne_nil q (List.cons_ne_nil s rest))

/-- Below a root with the connective, the operands are those of the children. -/
theorem memberAt_cons_iff {s : Step} {child : Formula α}
    (hs : (bin op l r).child? s = some child) :
    (bin op l r).MemberAt op (s :: p) g ↔ child.MemberAt op p g := by
  have hat (q : Position) : (bin op l r).at? (s :: q) = child.at? q := by rw [at?, hs]
  constructor
  · intro h
    refine ⟨(hat p).symm.trans h.at_eq, fun q t rest hp => ?_, h.ends⟩
    rw [← hat]
    exact h.above (s :: q) t rest (congrArg _ hp)
  · intro h
    refine ⟨(hat p).trans h.at_eq, fun q t rest hp => ?_, h.ends⟩
    cases q with
    | nil => exact ⟨l, r, rfl⟩
    | cons u q =>
      obtain ⟨rfl, rfl⟩ := List.cons_eq_cons.mp hp
      rw [hat]
      exact h.above q t rest rfl

/-- The members of a chain stand in the one side or in the other. -/
theorem memberAt_bin_iff :
    (bin op l r).MemberAt op p g ↔
      (∃ q, p = .first :: q ∧ l.MemberAt op q g) ∨ ∃ q, p = .second :: q ∧ r.MemberAt op q g := by
  constructor
  · intro h
    cases p with
    | nil => exact absurd (Option.some.inj h.at_eq).symm (h.ends l r)
    | cons s q =>
      cases s with
      | first => exact Or.inl ⟨q, rfl, (memberAt_cons_iff rfl).mp h⟩
      | second => exact Or.inr ⟨q, rfl, (memberAt_cons_iff rfl).mp h⟩
  · rintro (⟨q, rfl, h⟩ | ⟨q, rfl, h⟩)
    · exact (memberAt_cons_iff rfl).mpr h
    · exact (memberAt_cons_iff rfl).mpr h

/-- A row lists the operands of a chain with their positions, from left to right. -/
structure IsChain (op : Connective) (f : Formula α) (row : List (Position × Formula α)) : Prop where
  mem_iff : ∀ p g, (p, g) ∈ row ↔ f.MemberAt op p g
  ordered : row.Pairwise fun x y => Position.Precedes x.1 y.1

/-- Operands of a child with their positions in the whole. -/
def underStep (s : Step) (row : List (Position × Formula α)) : List (Position × Formula α) :=
  row.map fun x => (s :: x.1, x.2)

/-- The operands of a chain with their positions. -/
def chainAt (op : Connective) : Formula α → List (Position × Formula α)
  | .bin c l r =>
    if c = op then underStep .first (l.chainAt op) ++ underStep .second (r.chainAt op)
    else [([], .bin c l r)]
  | f => [([], f)]

theorem map_snd_underStep (s : Step) (row : List (Position × Formula α)) :
    (underStep s row).map Prod.snd = row.map Prod.snd := by
  rw [underStep, List.map_map]
  rfl

/-- Without their positions, these are the operands that flattening finds. -/
theorem map_snd_chainAt (op : Connective) (f : Formula α) :
    (f.chainAt op).map Prod.snd = f.chain op := by
  induction f with
  | var a => rfl
  | const b => rfl
  | neg f _ => rfl
  | bin c l r ihl ihr =>
    rw [chainAt, chain]
    by_cases hc : c = op
    · rw [if_pos hc, if_pos hc, List.map_append, map_snd_underStep, map_snd_underStep, ihl, ihr]
    · rw [if_neg hc, if_neg hc]
      rfl

theorem isChain_single (hf : ∀ l r, f ≠ .bin op l r) : f.IsChain op [([], f)] := by
  refine ⟨fun p g => ?_, List.pairwise_singleton _ _⟩
  rw [memberAt_iff_of_ne hf, List.mem_singleton, Prod.mk.injEq]

theorem mem_underStep {s : Step} {row : List (Position × Formula α)} :
    (p, g) ∈ underStep s row ↔ ∃ q, p = s :: q ∧ (q, g) ∈ row := by
  rw [underStep, List.mem_map]
  constructor
  · rintro ⟨⟨q, g⟩, hmem, heq⟩
    cases heq
    exact ⟨q, rfl, hmem⟩
  · rintro ⟨q, rfl, hmem⟩
    exact ⟨(q, g), hmem, rfl⟩

/-- The rows of both sides, one behind the other, are the row of a connective. -/
theorem IsChain.bin {left right : List (Position × Formula α)} (hl : l.IsChain op left)
    (hr : r.IsChain op right) :
    (Formula.bin op l r).IsChain op (underStep .first left ++ underStep .second right) := by
  have hbelow {s : Step} {row : List (Position × Formula α)}
      (h : row.Pairwise fun x y => Position.Precedes x.1 y.1) :
      (underStep s row).Pairwise fun x y => Position.Precedes x.1 y.1 :=
    List.pairwise_map.mpr (h.imp fun hxy => .cons hxy)
  constructor
  · intro p g
    simp only [List.mem_append, mem_underStep, memberAt_bin_iff, hl.mem_iff, hr.mem_iff]
  · rw [List.pairwise_append]
    -- all of the left side stands before all of the right side
    refine ⟨hbelow hl.ordered, hbelow hr.ordered, fun x hx y hy => ?_⟩
    obtain ⟨x, -, rfl⟩ := List.mem_map.mp hx
    obtain ⟨y, -, rfl⟩ := List.mem_map.mp hy
    exact .rel Nat.one_lt_two

/-- Flattening goes from left to right and leaves nothing out. -/
theorem isChain_chainAt (op : Connective) (f : Formula α) : f.IsChain op (f.chainAt op) := by
  induction f with
  | var a => exact isChain_single nofun
  | const b => exact isChain_single nofun
  | neg f _ => exact isChain_single nofun
  | bin c l r ihl ihr =>
    rw [chainAt]
    by_cases hc : c = op
    · rw [if_pos hc, hc]
      exact ihl.bin ihr
    · rw [if_neg hc]
      refine isChain_single fun l' r' h => hc ?_
      cases h
      rfl

/-! ## Computations on all operands -/

variable {k : Formula α → Except ε β}

theorem mapM_chain : (f.chain op).mapM k = (f.chainAt op).mapM fun x => k x.2 := by
  rw [← map_snd_chainAt, List.mapM_map]
  rfl

/-- A computation succeeds on a chain when it does on each operand. -/
theorem exists_mapM_chain_iff :
    (∃ ys, (f.chain op).mapM k = .ok ys) ↔ ∀ p g, f.MemberAt op p g → ∃ y, k g = .ok y := by
  rw [mapM_chain, exists_mapM_eq_ok_iff, Prod.forall]
  simp only [(isChain_chainAt op f).mem_iff]

/-- A computation fails on a chain where it fails on an operand and on none further left. -/
theorem mapM_chain_eq_error_iff {e : ε} :
    (f.chain op).mapM k = .error e ↔
      ∃ p g, f.MemberAt op p g ∧ k g = .error e ∧
        ∀ p' g', f.MemberAt op p' g' → Position.Precedes p' p → ∃ y, k g' = .ok y := by
  have hchain := isChain_chainAt op f
  rw [mapM_chain, mapM_eq_error_iff_of_pairwise Position.Precedes.asymm hchain.ordered, Prod.exists]
  simp only [Prod.forall, hchain.mem_iff]

end Formula

/-! ## Clauses -/

namespace Clause

variable {f c g : Formula Letter} {p q : Position} {clauses : List Clause} {e : Error}

/-- A member of a conjunct of a formula: the conjunct, where it stands in the formula, and where the
member stands in the conjunct. -/
structure Fragment (f : Formula Letter) (p : Position) (c : Formula Letter) (q : Position)
    (g : Formula Letter) : Prop where
  conjunct : f.MemberAt .and p c
  member : c.MemberAt .or q g

/-- The clauses are those of the conjuncts of a formula, and their literals are the members, all in
the order in which they stand. -/
def ReadsFrom (f : Formula Letter) (clauses : List Clause) : Prop :=
  ∃ conjuncts, f.IsChain .and conjuncts ∧
    List.Forall₂ (fun x clause => ∃ members, x.2.IsChain .or members ∧
      List.Forall₂ (fun y l => y.2.isLiteral = true ∧ l.text = y.2.text) members clause)
      conjuncts clauses

/-- A formula that is a literal is written like the literal. -/
theorem text_of_ofFormula? {l : Literal} (h : Literal.ofFormula? g = some l) : l.text = g.text := by
  unfold Literal.ofFormula? at h
  split at h
  · next a =>
    cases h
    exact Signed.text_read a.name
  · next a =>
    cases h
    simp [Signed.text, Signed.negative, Formula.text, Formula.glyphs, Letter.name, Atom.glyph]
  · cases h

theorem isSome_ofFormula? (g : Formula Letter) : (Literal.ofFormula? g).isSome = g.isLiteral := by
  cases g with
  | var a => rfl
  | const b => rfl
  | neg g => cases g <;> rfl
  | bin op l r => rfl

/-- A fragment is read as a literal when it is an atom or the negation of one. -/
theorem exists_literalOf_iff : (∃ l, literalOf c g = .ok l) ↔ g.isLiteral = true := by
  rw [literalOf, ← isSome_ofFormula?]
  cases Literal.ofFormula? g <;> simp

/-- Another fragment is reported together with its conjunct. -/
theorem literalOf_eq_error_iff :
    literalOf c g = .error e ↔ g.isLiteral = false ∧ e = .clause g.text c.text := by
  rw [literalOf, ← isSome_ofFormula?]
  cases Literal.ofFormula? g <;> simp [eq_comm]

/-- A conjunct is a clause when all its disjuncts are literals. -/
theorem exists_ofConjunct_iff :
    (∃ clause, ofConjunct c = .ok clause) ↔ ∀ q g, c.MemberAt .or q g → g.isLiteral = true := by
  rw [ofConjunct, Formula.exists_mapM_chain_iff]
  simp only [exists_literalOf_iff]

/-- A formula is in clause form when all members of all conjuncts are literals. -/
theorem exists_allOfFormula_iff :
    (∃ clauses, allOfFormula f = .ok clauses) ↔
      ∀ p c q g, Fragment f p c q g → g.isLiteral = true := by
  rw [allOfFormula, Formula.exists_mapM_chain_iff]
  simp only [exists_ofConjunct_iff]
  constructor
  · intro h p c q g hfragment
    exact h p c hfragment.conjunct q g hfragment.member
  · intro h p c hc q g hg
    exact h p c q g ⟨hc, hg⟩

/-- Otherwise the leftmost disjunct that is no literal is reported. -/
theorem ofConjunct_eq_error_iff :
    ofConjunct c = .error e ↔
      ∃ q g, c.MemberAt .or q g ∧ (g.isLiteral = false ∧ e = .clause g.text c.text) ∧
        ∀ q' g', c.MemberAt .or q' g' → Position.Precedes q' q → g'.isLiteral = true := by
  rw [ofConjunct, Formula.mapM_chain_eq_error_iff]
  simp only [literalOf_eq_error_iff, exists_literalOf_iff]

/-- Otherwise the leftmost member that is not a literal is refused, with its conjunct. -/
theorem allOfFormula_eq_error_iff :
    allOfFormula f = .error e ↔
      ∃ p c q g, Fragment f p c q g ∧ g.isLiteral = false ∧
        (∀ p' c' q' g', Fragment f p' c' q' g' → Position.Precedes (p' ++ q') (p ++ q) →
          g'.isLiteral = true) ∧
        e = .clause g.text c.text := by
  rw [allOfFormula, Formula.mapM_chain_eq_error_iff]
  simp only [exists_ofConjunct_iff, ofConjunct_eq_error_iff]
  constructor
  -- further left means in an earlier conjunct, or earlier in the same one
  · rintro ⟨p, c, hc, ⟨q, g, hg, ⟨hnot, he⟩, hmembers⟩, hconjuncts⟩
    refine ⟨p, c, q, g, ⟨hc, hg⟩, hnot, fun p' c' q' g' hfragment hleft => ?_, he⟩
    rcases (hfragment.conjunct.precedes_append_iff hc).mp hleft with hp | ⟨rfl, hq⟩
    · exact hconjuncts p' c' hfragment.conjunct hp q' g' hfragment.member
    · cases hc.at_eq.symm.trans hfragment.conjunct.at_eq
      exact hmembers q' g' hfragment.member hq
  · rintro ⟨p, c, q, g, ⟨hc, hg⟩, hnot, hleftmost, he⟩
    refine ⟨p, c, hc, ⟨q, g, hg, ⟨hnot, he⟩, fun q' g' hg' hq => ?_⟩, ?_⟩
    · exact hleftmost p c q' g' ⟨hc, hg'⟩ ((hc.precedes_append_iff hc).mpr (Or.inr ⟨rfl, hq⟩))
    · intro p' c' hc' hp q' g' hg'
      exact hleftmost p' c' q' g' ⟨hc', hg'⟩ ((hc'.precedes_append_iff hc).mpr (Or.inl hp))

theorem readsFrom_of_allOfFormula (h : allOfFormula f = .ok clauses) : ReadsFrom f clauses := by
  have hclauses := mapM_eq_ok_iff.mp h
  rw [← Formula.map_snd_chainAt, List.forall₂_map_left_iff] at hclauses
  refine ⟨f.chainAt .and, f.isChain_chainAt .and, hclauses.imp fun x clause hclause => ?_⟩
  have hmembers := ofConjunct_eq_ok_iff.mp hclause
  rw [← Formula.map_snd_chainAt, List.forall₂_map_left_iff] at hmembers
  refine ⟨x.2.chainAt .or, x.2.isChain_chainAt .or, hmembers.imp fun y l hl => ⟨?_, ?_⟩⟩
  · rw [← isSome_ofFormula?, hl, Option.isSome_some]
  · exact text_of_ofFormula? hl

/-- **Clause form is decided exactly.**  The clauses of a text that reads as a formula are read
without an error if and only if every conjunct of the formula, taken apart at its disjunctions,
consists of letters and negated letters, however conjunctions and disjunctions are grouped.  Then no
clause is empty, clauses and literals stand in the order of the conjuncts and their members, and
under every total valuation the formula is true exactly when each clause has a literal that holds.
Otherwise the error names the leftmost member that is no literal, and its conjunct. -/
theorem parsed_exactly {text : String} (h : Formula.read text = .ok f) (threshold : Level) :
    let parsed := ((Checked.readFormula (.text text) >>= fun g =>
      Checked.ofExcept (allOfFormula g)).run threshold).2
    ((∃ clauses, parsed = .ok clauses) ↔
        ∀ p c q g, Fragment f p c q g → g.isLiteral = true) ∧
      (∀ clauses, parsed = .ok clauses →
        (∀ c ∈ clauses, c ≠ []) ∧ ReadsFrom f clauses ∧
          ∀ (v : String → Bool) (value? : Letter → Option Bool),
            (∀ a ∈ f.atoms, value? a = some (v a.name)) →
              (f.evaluate value? = .ok true ↔ Models v clauses)) ∧
      ∀ e, parsed = .error e ↔
        ∃ p c q g, Fragment f p c q g ∧ g.isLiteral = false ∧
          (∀ p' c' q' g', Fragment f p' c' q' g' → Position.Precedes (p' ++ q') (p ++ q) →
            g'.isLiteral = true) ∧
          e = .clause g.text c.text := by
  intro parsed
  -- the text is a formula, so only the conversion of the formula can fail
  have hparsed : parsed = allOfFormula f := by
    have hread := (@Checked.run_readFormula_eq_ok_iff (.text text) f threshold).mpr h
    show ((Checked.readFormula (.text text) >>= fun g =>
      Checked.ofExcept (allOfFormula g)).run threshold).2 = _
    rw [Checked.run_bind_snd, hread]
    rfl
  rw [hparsed]
  refine ⟨exists_allOfFormula_iff, fun clauses hclauses => ?_, fun e => allOfFormula_eq_error_iff⟩
  refine ⟨(proper_of_allOfFormula hclauses).ne_nil, readsFrom_of_allOfFormula hclauses, ?_⟩
  intro v value? hvalues
  rw [models_allOfFormula hclauses, Formula.evaluate_eq_ok (v := fun a => v a.name) hvalues,
    Except.ok.injEq]

/-- Clauses grouped in several ways, and a formula in which a double negation is the first of two
members that are no literals. -/
theorem parsed_exactly_nested :
    let parsed := fun text : String => ((Checked.readFormula (.text text) >>= fun g =>
      Checked.ofExcept (allOfFormula g)).run .warning).2
    (∃ f clauses, Formula.read "(a∨(¬b∨c))∧(d∧¬e)" = .ok f ∧
      parsed "(a∨(¬b∨c))∧(d∧¬e)" = .ok clauses ∧ ReadsFrom f clauses ∧
      clauses.map (List.map (·.text)) = [["a", "¬b", "c"], ["d"], ["¬e"]]) ∧
    ∃ f p c q g, Formula.read "a∧((b∨¬¬c)∧(c→d))" = .ok f ∧ Fragment f p c q g ∧
      g.isLiteral = false ∧ g.text = "¬¬c" ∧ c.text = "(b∨¬¬c)" := by
  intro parsed
  constructor
  · obtain ⟨f, hf⟩ : ∃ f : Formula Letter, Formula.read "(a∨(¬b∨c))∧(d∧¬e)" = .ok f := ⟨_, rfl⟩
    obtain ⟨clauses, hclauses, htexts⟩ : ∃ clauses, parsed "(a∨(¬b∨c))∧(d∧¬e)" = .ok clauses ∧
        clauses.map (List.map (·.text)) = [["a", "¬b", "c"], ["d"], ["¬e"]] := ⟨_, rfl, rfl⟩
    obtain ⟨-, hreads, -⟩ := (parsed_exactly hf .warning).2.1 clauses hclauses
    exact ⟨f, clauses, hf, hclauses, hreads, htexts⟩
  · obtain ⟨f, hf⟩ : ∃ f : Formula Letter, Formula.read "a∧((b∨¬¬c)∧(c→d))" = .ok f := ⟨_, rfl⟩
    have herror : parsed "a∧((b∨¬¬c)∧(c→d))" = .error (.clause "¬¬c" "(b∨¬¬c)") := rfl
    obtain ⟨p, c, q, g, hfragment, hnot, -, he⟩ := ((parsed_exactly hf .warning).2.2 _).mp herror
    injection he with hg hc
    exact ⟨f, p, c, q, g, hf, hfragment, hnot, hg.symm, hc.symm⟩

end Clause

end Propositional
