import Propositional.Proofs.Confluence

/-!
# What unit propagation refutes

More clauses never hide a contradiction from unit propagation, and among Horn clauses it finds every
contradiction there is.  Both are seen on runs that do *not* end in one.  What such a run has
asserted settles its clauses, and with them every part of them, so that no contradiction is found in
a part either.  And of two literals that it leaves open in a clause, at most one is positive where
the clause is a Horn clause; the other one is true when all names without a value are false.  For
clauses with at most one negative literal the same holds with the signs exchanged.

* `Clause.AtMostOne`              — clauses with at most one literal of a sign;
* `UnitPropagation.models_completion` — a model of clauses that are settled;
* `Determinism.refutes_horn`      — Horn clauses without a model are found out;
* `Determinism.refutes_superset`  — more clauses do not hide a contradiction.
-/

namespace Propositional

/-! ## Horn clauses -/

/-- No two different literals of the clause have the given sign.  With at most one positive literal
a clause is a Horn clause, with at most one negative literal a dual Horn clause. -/
def Clause.AtMostOne (negated : Bool) (c : Clause) : Prop :=
  ∀ l ∈ c, ∀ m ∈ c, l.negated = negated → m.negated = negated → l = m

theorem Clause.AtMostOne.of_subset {negated : Bool} {c d : Clause} (h : Clause.AtMostOne negated c)
    (hsub : d ⊆ c) : Clause.AtMostOne negated d :=
  fun l hl m hm => h l (hsub hl) m (hsub hm)

/-- Of two literals in such a clause, one has the other sign. -/
theorem Clause.AtMostOne.exists_opposite {negated : Bool} {c : Clause}
    (h : Clause.AtMostOne negated c) (hnodup : c.Nodup) (htwo : 2 ≤ c.length) :
    ∃ m ∈ c, m.negated = !negated := by
  match c, htwo with
  | l :: m :: rest, _ =>
    have hl : l ∈ l :: m :: rest := List.mem_cons_self
    have hm : m ∈ l :: m :: rest := List.mem_cons_of_mem _ List.mem_cons_self
    by_cases hlsign : l.negated = negated
    · refine ⟨m, hm, Bool.eq_not.mpr fun hmsign => ?_⟩
      have hsame : l = m := h l hl m hm hlsign hmsign
      rw [hsame, List.nodup_cons] at hnodup
      exact hnodup.1 List.mem_cons_self
    · exact ⟨l, hl, Bool.eq_not.mpr hlsign⟩

namespace UnitPropagation

variable {clauses : List Clause} {m : Literal} {c : Clause} {value : Bool}

/-! ## The model of clauses that are settled -/

/-- An open literal holds when all names without a value get the one that its sign asks for. -/
theorem holds_completion (hm : m ∈ residue (run true clauses).literals c)
    (hsign : m.negated = !value) : m.holds ((run true clauses).completion value) = true := by
  obtain ⟨-, hopen⟩ := mem_residue.mp hm
  cases hvalue : (run true clauses).assignments.get? m.name with
  | none => rw [Signed.holds_iff, Run.completion, hvalue, hsign, Option.getD_none, Bool.not_not]
  | some x =>
    obtain ⟨l, hl, hname, -⟩ := get?_assignments.mp hvalue
    -- the literal that gave the name its value is this one, since its complement was taken out
    rcases Signed.eq_or_eq_complement hname.symm with rfl | hcomplement
    · exact agrees_iff.mp (Run.agrees_completion _ value) m hl
    · exact absurd hcomplement (hopen l hl)

/-- Settled clauses are true when all names without a value get one and the same, provided that at
most one literal of each clause asks for the other. -/
theorem models_completion (hsettles : Settles (run true clauses).literals clauses)
    (hnodup : ∀ c ∈ clauses, c.Nodup) (hone : ∀ c ∈ clauses, Clause.AtMostOne value c) :
    Models ((run true clauses).completion value) clauses := by
  intro c hc
  rcases hsettles c hc with ⟨l, hl, hlc⟩ | htwo
  · exact ⟨l, hlc, agrees_iff.mp (Run.agrees_completion _ value) l hl⟩
  · have hopen : Clause.AtMostOne value (residue (run true clauses).literals c) :=
      (hone c hc).of_subset List.filter_sublist.subset
    obtain ⟨m, hm, hsign⟩ := hopen.exists_opposite ((hnodup c hc).filter _) htwo
    exact ⟨m, (mem_residue.mp hm).1, holds_completion hm hsign⟩

/-- A run without contradiction on clauses that are not empty has settled them, also when it took
no step at all. -/
theorem settles_of_ne_contradiction (hne : ∀ c ∈ clauses, c ≠ [])
    (hout : (run true clauses).outcome ≠ .contradiction) :
    Settles (run true clauses).literals clauses := by
  by_cases hunit : unit? clauses = none
  · intro c hc
    have hone := unit?_eq_none_iff.mp hunit c hc
    have hpos := List.length_pos_iff.mpr (hne c hc)
    rw [run_of_unit?_eq_none hunit]
    show _ ∨ 2 ≤ (residue [] c).length
    rw [residue_nil]
    omega
  · exact run_settles hunit hout

end UnitPropagation

namespace Determinism

open UnitPropagation

variable {clauses others : List Clause}

/-- **Contradictions among Horn clauses are found.**  For clauses that are not empty and have at
most one positive literal each, or at most one negative literal each, the verdict is
`unsatisfiable` exactly when no valuation makes all of them true. -/
theorem refutes_horn (hplain : ∀ c ∈ clauses, ∀ l ∈ c, l.Plain) (hne : ∀ c ∈ clauses, c ≠ [])
    (hhorn : (∀ c ∈ clauses, Clause.AtMostOne false c) ∨
      ∀ c ∈ clauses, Clause.AtMostOne true c) :
    classify clauses = .unsatisfiable ↔ ¬ ∃ v : String → Bool, Models v clauses := by
  refine ⟨not_models_of_classify hplain, fun hnone => ?_⟩
  obtain ⟨value, hone⟩ : ∃ value, ∀ c ∈ clauses, Clause.AtMostOne value c := by
    rcases hhorn with hhorn | hdual
    · exact ⟨false, hhorn⟩
    · exact ⟨true, hdual⟩
  rw [classify_iff_outcome.2]
  by_contra hout
  -- without a contradiction, one value for all names that are left makes the clauses true
  have hsettles := settles_of_ne_contradiction (ne_nil_of_mem_distinct hne) hout
  have hdistinct : ∀ c ∈ distinct clauses, c.Nodup ∧ Clause.AtMostOne value c := by
    intro d hd
    obtain ⟨c, hc, rfl⟩ := mem_distinct.mp hd
    exact ⟨nodup_eraseDups c, (hone c hc).of_subset fun _ => List.mem_eraseDups.mp⟩
  have hmodels := models_completion hsettles (fun c hc => (hdistinct c hc).1)
    fun c hc => (hdistinct c hc).2
  exact hnone ⟨_, models_distinct.mp hmodels⟩

/-- Horn clauses that are refuted after three steps, and dual Horn clauses that are not: propagation
stalls with `¬a∨b` and `a∨¬b∨e` left open. -/
theorem refutes_horn_and_dual :
    let read := List.map (List.map (Signed.read negationGlyph))
    let horn := read [["¬a", "¬b"], ["a", "¬c", "a"], ["c"], ["¬a", "b", "¬c"]]
    let dual := read [["¬a", "b"], ["a", "¬b", "e"], ["¬d", "a", "c"], ["c"]]
    (classify horn = .unsatisfiable ∧ ¬ ∃ v : String → Bool, Models v horn) ∧
      classify dual = .undetermined ∧ ∃ v : String → Bool, Models v dual := by
  intro read horn dual
  have hplain : ∀ c ∈ horn ++ dual, ∀ l ∈ c, l.Plain := by
    unfold Signed.Plain
    decide +kernel
  have hne : ∀ c ∈ horn ++ dual, c ≠ [] := by decide +kernel
  have hhorn : ∀ c ∈ horn, Clause.AtMostOne false c := by
    unfold Clause.AtMostOne
    decide +kernel
  have hdual : ∀ c ∈ dual, Clause.AtMostOne true c := by
    unfold Clause.AtMostOne
    decide +kernel
  rw [List.forall_mem_append] at hplain hne
  have hrefuted : classify horn = .unsatisfiable := by decide +kernel
  have hopen : classify dual = .undetermined := by decide +kernel
  refine ⟨⟨hrefuted, (refutes_horn hplain.1 hne.1 (Or.inl hhorn)).mp hrefuted⟩, hopen, ?_⟩
  by_contra hnone
  have hother := (refutes_horn hplain.2 hne.2 (Or.inr hdual)).mpr hnone
  rw [hopen] at hother
  cases hother

/-- **More clauses do not hide a contradiction.**  When every clause of a row occurs in another row
as a set of literals and the first row is called unsatisfiable, so is the second. -/
theorem refutes_superset (hplain : ∀ c ∈ others, ∀ l ∈ c, l.Plain)
    (hsub : Clause.asSets clauses ⊆ Clause.asSets others)
    (h : classify clauses = .unsatisfiable) : classify others = .unsatisfiable := by
  rw [classify_iff_outcome.2] at h ⊢
  by_contra hout
  exact ((within_distinct hsub).bound (plain_distinct hplain) hout).1 h

/-- Three clauses that contradict each other, and the same among others: now `d` is asserted first,
and one of the three stands at the end with a repeated literal. -/
theorem refutes_superset_among_others :
    let read := List.map (List.map (Signed.read negationGlyph))
    let clauses := read [["a"], ["¬a", "b"], ["¬b", "¬a"]]
    let others := read [["d"], ["b", "¬a"], ["¬d", "c", "e"], ["a"], ["e"], ["¬a", "¬b", "¬a"]]
    classify clauses = .unsatisfiable ∧ classify others = .unsatisfiable := by
  intro read clauses others
  have hplain : ∀ c ∈ others, ∀ l ∈ c, l.Plain := by
    unfold Signed.Plain
    decide +kernel
  have hsub : Clause.asSets clauses ⊆ Clause.asSets others := by decide +kernel
  have hrefuted : classify clauses = .unsatisfiable := by decide +kernel
  exact ⟨hrefuted, refutes_superset hplain hsub hrefuted⟩

end Determinism

end Propositional
