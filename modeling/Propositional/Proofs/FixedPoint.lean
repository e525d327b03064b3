import Propositional.Proofs.Checked
import Propositional.Proofs.ClauseText
import Propositional.Proofs.Confluence
import Propositional.Proofs.Propagation.Modes

/-!
# The canonical rendering of a propagation is a fixed point

A propagation that drops emptied clauses renders what it has asserted and what it has left.  When
this is propagated again, the asserted literals come first as unit clauses and are asserted in the
same order; none of their names occurs elsewhere, so each of these steps takes its own unit clause
away and nothing else.  After that no unit clause is left and the run is over.

* `UnitPropagation.outcome_eq`  — the outcome can be told from the clauses that remain;
* `UnitPropagation.survivors_foreign` — a step that takes its own unit clause away only;
* `UnitPropagation.run_units`   — by induction, a run on unit clauses in front of such clauses;
* `UnitPropagation.again`, `UnitPropagation.run_again` — a run on what another run has asserted and
  left;
* `Propagation.run_analyse_eq_ok_iff` — what an analysis that answers has read;
* `Propagation.canonical_fixed` — the main result.
-/

namespace Propositional

/-! ## Alphabetical order -/

namespace Clause

theorem nameBefore_trans {l m n : Literal} (hlm : nameBefore l m = true)
    (hmn : nameBefore m n = true) : nameBefore l n = true := by
  rw [nameBefore, decide_eq_true_eq] at *
  exact String.le_trans hlm hmn

theorem nameBefore_total (l m : Literal) : (nameBefore l m || nameBefore m l) = true := by
  rw [nameBefore, nameBefore, Bool.or_eq_true, decide_eq_true_eq, decide_eq_true_eq]
  exact String.le_total l.name m.name

/-- What is in alphabetical order already stays as it is. -/
theorem mergeSort_mergeSort (c : Clause) :
    (c.mergeSort nameBefore).mergeSort nameBefore = c.mergeSort nameBefore :=
  List.mergeSort_of_pairwise
    (@List.pairwise_mergeSort _ nameBefore (fun _ _ _ => nameBefore_trans) nameBefore_total c)

end Clause

namespace UnitPropagation

variable {l : Literal} {clauses rest : List Clause}

/-! ## Outcomes -/

/-- A run on clauses that are not empty ends empty when nothing is left, and stalls otherwise. -/
theorem outcome_eq (hsome : clauses ≠ []) (hne : ∀ c ∈ clauses, c ≠ []) :
    (run false clauses).outcome =
      if (run false clauses).clauses = [] then .empty else .stalled := by
  cases hout : (run false clauses).outcome with
  | empty => rw [if_pos (clauses_eq_nil_of_empty hout)]
  | contradiction => exact absurd hout (outcome_ne_contradiction clauses)
  | stalled => rw [if_neg (rest_of_stalled hout (Or.inr ⟨hsome, hne⟩)).1]

/-- What a run on clauses that are not empty leaves has no unit clause and no empty clause. -/
theorem run_leaves (hsome : clauses ≠ []) (hne : ∀ c ∈ clauses, c ≠ []) :
    unit? (run false clauses).clauses = none ∧ ∀ c ∈ (run false clauses).clauses, c ≠ [] := by
  cases hout : (run false clauses).outcome with
  | empty =>
    rw [clauses_eq_nil_of_empty hout]
    exact ⟨rfl, by simp⟩
  | contradiction => exact absurd hout (outcome_ne_contradiction clauses)
  | stalled => exact ⟨unit?_of_stalled hout, (rest_of_stalled hout (Or.inr ⟨hsome, hne⟩)).2⟩

/-! ## Unit clauses in front -/

/-- Asserting a literal whose name occurs in no other clause takes its unit clause away only. -/
theorem survivors_foreign (hplain : l.Plain) (hne : ∀ c ∈ clauses, c ≠ [])
    (hforeign : ∀ c ∈ clauses, ∀ m ∈ c, m.name ≠ l.name) :
    survivors l ([l] :: clauses) = clauses := by
  -- the other clauses hold neither the literal nor its complement, which has the same name
  have hopen : ([l] :: clauses).filter (fun c => l ∉ c) = clauses := by
    rw [List.filter_cons_of_neg (by simp), List.filter_eq_self]
    intro c hc
    exact decide_eq_true fun hl => hforeign c hc l hl rfl
  have hwhole : clauses.map (without l) = clauses := by
    rw [List.map_congr_left (g := id), List.map_id]
    intro c hc
    rw [without, List.filter_eq_self.mpr, id]
    intro m hm
    refine decide_eq_true ?_
    rintro rfl
    exact hforeign c hc _ hm (Signed.complement_of_plain hplain).1
  rw [survivors, reduced, hopen, hwhole, List.filter_eq_self]
  intro c hc
  simpa using hne c hc

/-- A run on unit clauses with different names, and behind them clauses without unit clauses and
without these names, asserts the units in their order and leaves the other clauses as they are. -/
theorem run_units {literals : List Literal} (hnodup : (literals.map (·.name)).Nodup)
    (hplain : ∀ l ∈ literals, l.Plain)
    (hforeign : ∀ l ∈ literals, ∀ c ∈ rest, ∀ m ∈ c, m.name ≠ l.name)
    (hunit : unit? rest = none) (hne : ∀ c ∈ rest, c ≠ []) :
    (run false (literals.map (fun l => [l]) ++ rest)).literals = literals ∧
      (run false (literals.map (fun l => [l]) ++ rest)).clauses = rest := by
  -- the leftmost unit clause is the first one, and asserting it leaves the others in their order
  induction literals with
  | nil =>
    rw [List.map_nil, List.nil_append, run_of_unit?_eq_none hunit]
    exact ⟨rfl, rfl⟩
  | cons l literals ih =>
    rw [List.map_cons, List.nodup_cons] at hnodup
    rw [List.forall_mem_cons] at hplain hforeign
    have hothers := ih hnodup.2 hplain.2 hforeign.2
    -- the name of the first unit occurs neither in the other units nor behind them
    have hsurvivors : survivors l ([l] :: (literals.map (fun l => [l]) ++ rest)) =
        literals.map (fun l => [l]) ++ rest := by
      apply survivors_foreign hplain.1
      · rw [List.forall_mem_append, List.forall_mem_map]
        exact ⟨fun m _ => List.cons_ne_nil m [], hne⟩
      · rw [List.forall_mem_append, List.forall_mem_map]
        refine ⟨?_, hforeign.1⟩
        intro m hm n hn hname
        rw [List.mem_singleton.mp hn] at hname
        exact hnodup.1 (hname ▸ List.mem_map.mpr ⟨m, hm, rfl⟩)
    have hfirst : unit? ([l] :: (literals.map (fun l => [l]) ++ rest)) = some l := rfl
    obtain ⟨hsteps, hclauses⟩ := run_step hfirst
    rw [hsurvivors] at hsteps hclauses
    rw [List.map_cons, List.cons_append, hclauses, Run.literals, hsteps, List.map_cons]
    exact ⟨congrArg (l :: ·) hothers.1, hothers.2⟩

/-! ## Propagating again -/

/-- The clauses of the canonical rendering: what was asserted as unit clauses, and what is left in
alphabetical order. -/
def again (r : Run) : List Clause :=
  r.literals.map (fun l => [l]) ++ r.clauses.map (List.mergeSort · Clause.nameBefore)

theorem mem_of_mem_again {c : Clause} {m : Literal} (hc : c ∈ again (run false clauses))
    (hm : m ∈ c) : ∃ d ∈ clauses, m ∈ d := by
  obtain ⟨hsteps, hrest⟩ := (run_course false clauses).mem_of_mem
  rcases List.mem_append.mp hc with hc | hc
  · obtain ⟨l, hl, rfl⟩ := List.mem_map.mp hc
    obtain ⟨s, hs, rfl⟩ := List.mem_map.mp hl
    rw [List.mem_singleton.mp hm]
    exact hsteps s hs
  · obtain ⟨d, hd, rfl⟩ := List.mem_map.mp hc
    exact hrest d hd m (List.mem_mergeSort.mp hm)

theorem again_ne_nil (hsome : clauses ≠ []) : again (run false clauses) ≠ [] := by
  intro hnil
  rw [again, List.append_eq_nil_iff, List.map_eq_nil_iff, List.map_eq_nil_iff] at hnil
  obtain ⟨hliterals, hrest⟩ := hnil
  have hsteps : (run false clauses).steps = [] := List.map_eq_nil_iff.mp hliterals
  -- without a step everything is left
  have hcourse := run_course false clauses
  rw [hsteps, hrest] at hcourse
  cases hcourse
  exact hsome rfl

/-- The clauses of the rendering are again such as a formula can have. -/
theorem properRow_again (h : Clause.ProperRow clauses) :
    Clause.ProperRow (again (run false clauses)) := by
  refine ⟨again_ne_nil h.nonempty, ?_⟩
  intro c hc
  constructor
  · rcases List.mem_append.mp hc with hc | hc
    · obtain ⟨l, -, rfl⟩ := List.mem_map.mp hc
      exact List.cons_ne_nil l []
    · obtain ⟨d, hd, rfl⟩ := List.mem_map.mp hc
      obtain ⟨m, hm⟩ := List.exists_mem_of_ne_nil d ((run_leaves h.nonempty h.ne_nil).2 d hd)
      exact List.ne_nil_of_mem (List.mem_mergeSort.mpr hm)
  · -- no literal is new
    intro l hl
    obtain ⟨d, hd, hld⟩ := mem_of_mem_again hc hl
    exact (h.proper d hd).letters l hld

/-- Propagating what was asserted and what was left asserts the same literals and leaves the same
clauses in alphabetical order, with the same outcome. -/
theorem run_again (h : Clause.ProperRow clauses) :
    (run false (again (run false clauses))).literals = (run false clauses).literals ∧
      (run false (again (run false clauses))).clauses =
        (run false clauses).clauses.map (List.mergeSort · Clause.nameBefore) ∧
      (run false (again (run false clauses))).outcome = (run false clauses).outcome := by
  have hcourse := run_course false clauses
  have hagain := properRow_again h
  have hunit := (run_leaves h.nonempty h.ne_nil).1
  have hunits : (run false (again (run false clauses))).literals = (run false clauses).literals ∧
      (run false (again (run false clauses))).clauses =
        (run false clauses).clauses.map (List.mergeSort · Clause.nameBefore) := by
    apply run_units hcourse.nodup_names
    · intro l hl
      obtain ⟨s, hs, rfl⟩ := List.mem_map.mp hl
      obtain ⟨d, hd, hsd⟩ := hcourse.mem_of_mem.1 s hs
      exact h.plain d hd _ hsd
    · -- sorting moves literals only, and no asserted name was left
      intro l hl c hc m hm
      obtain ⟨s, hs, rfl⟩ := List.mem_map.mp hl
      obtain ⟨d, hd, rfl⟩ := List.mem_map.mp hc
      exact hcourse.name_ne s hs d hd m (List.mem_mergeSort.mp hm)
    · rw [unit?_eq_none_iff, List.forall_mem_map] at *
      intro c hc
      rw [List.length_mergeSort]
      exact hunit c hc
    · exact fun c hc => hagain.ne_nil c (List.mem_append_right _ hc)
  refine ⟨hunits.1, hunits.2, ?_⟩
  -- both outcomes can be told from the clauses that are left, which are as many
  rw [outcome_eq hagain.nonempty hagain.ne_nil, hunits.2, outcome_eq h.nonempty h.ne_nil]
  simp only [List.map_eq_nil_iff]

/-- Propagating again changes nothing that is rendered. -/
theorem again_run_again (h : Clause.ProperRow clauses) :
    again (run false (again (run false clauses))) = again (run false clauses) := by
  obtain ⟨hliterals, hrest, -⟩ := run_again h
  rw [again, hliterals, hrest, List.map_map, again]
  refine congrArg _ (List.map_congr_left fun c _ => ?_)
  exact Clause.mergeSort_mergeSort c

end UnitPropagation

/-! ## The rendering -/

namespace Propagation

open UnitPropagation

variable {inputs others : Inputs} {threshold : Level} {p : Propagation}

/-- An analysis answers when the text is a formula in clause form, with the run on its clauses. -/
theorem run_analyse_eq_ok_iff :
    ((analyse inputs).run threshold).2 = .ok p ↔
      ∃ f clauses, Formula.read inputs.formula.content = .ok f ∧
        Clause.allOfFormula f = .ok clauses ∧
        p = ⟨inputs.formulaText, UnitPropagation.run false clauses⟩ := by
  rw [analyse, Checked.run_note_bind, Checked.run_bind_snd, bind_eq_ok_iff]
  simp only [Checked.run_readFormula_eq_ok_iff, Checked.run_ofExcept_bind, bind_eq_ok_iff,
    Checked.run_note_bind, Checked.run_notes_bind, Checked.run_pure_snd, Except.ok.injEq]
  constructor
  · rintro ⟨f, hread, clauses, hclauses, rfl⟩
    exact ⟨f, clauses, hread, hclauses, rfl⟩
  · rintro ⟨f, clauses, hread, hclauses, rfl⟩
    exact ⟨f, hread, clauses, hclauses, rfl⟩

/-- The rendering writes the clauses with which the propagation starts again. -/
theorem canonical_eq_written {text : String} {clauses : List Clause}
    (h : Clause.ProperRow clauses) :
    canonical ⟨text, UnitPropagation.run false clauses⟩ =
      Clause.written (again (UnitPropagation.run false clauses)) :=
  Clause.canonical_eq_written (run_leaves h.nonempty h.ne_nil).2 _

/-- **The canonical rendering is a fixed point.**  Where the propagation of a formula answers, its
rendering with the signs of formulas is a formula in clause form, and the propagation of this
formula has the same rendering, the same literals in the same order and the same outcome. -/
theorem canonical_fixed (h : ((analyse inputs).run threshold).2 = .ok p) :
    ∃ q, (∀ t, ((analyse { others with formula := .text (asFormula p.canonical) }).run t).2 =
        .ok q) ∧
      q.canonical = p.canonical ∧ q.run.literals = p.run.literals ∧
      q.run.outcome = p.run.outcome := by
  obtain ⟨f, clauses, -, hclauses, rfl⟩ := run_analyse_eq_ok_iff.mp h
  have hproper := Clause.proper_of_allOfFormula hclauses
  have hagain := properRow_again hproper
  -- the rendering reads as the clauses that it writes, and these are propagated again
  obtain ⟨g, hg, hread⟩ := Clause.read_written hagain
  obtain ⟨hliterals, -, houtcome⟩ := run_again hproper
  refine ⟨_, fun t => run_analyse_eq_ok_iff.mpr ⟨g, _, ?_, hread, rfl⟩, ?_, hliterals, houtcome⟩
  · rw [canonical_eq_written hproper]
    exact hg
  · rw [canonical_eq_written hagain, canonical_eq_written hproper, again_run_again hproper]

/-- Contradicting unit clauses: asserting `a` empties the clause `¬a`, which is dropped. -/
theorem canonical_fixed_emptied :
    ∃ p q : Propagation,
      ((analyse { formula := .text "a∧(¬a∨c)∧¬a∧(e∨¬d∨e)" }).run .warning).2 = .ok p ∧
      p.canonical = "(a);(c);(-d,e,e)" ∧
      (∀ t, ((analyse { formula := .text (asFormula "(a);(c);(-d,e,e)") }).run t).2 = .ok q) ∧
      q.canonical = p.canonical ∧ q.run.literals = p.run.literals ∧
      q.run.outcome = p.run.outcome := by
  let letter (c : Char) (h : c.isLower = true) : Formula Letter := .var ⟨c, h⟩
  let read : String → Literal := Signed.read negationGlyph
  let f : Formula Letter :=
    .bin .and
      (.bin .and
        (.bin .and (letter 'a' rfl) (.bin .or (.neg (letter 'a' rfl)) (letter 'c' rfl)))
        (.neg (letter 'a' rfl)))
      (.bin .or (.bin .or (letter 'e' rfl) (.neg (letter 'd' rfl))) (letter 'e' rfl))
  let clauses : List Clause :=
    [[read "a"], [read "¬a", read "c"], [read "¬a"], [read "e", read "¬d", read "e"]]
  have hclauses : Clause.allOfFormula f = .ok clauses := rfl
  have hp := (@run_analyse_eq_ok_iff { formula := .text "a∧(¬a∨c)∧¬a∧(e∨¬d∨e)" } .warning _).mpr
    ⟨f, clauses, rfl, hclauses, rfl⟩
  have hsorted : [read "e", read "¬d", read "e"].mergeSort Clause.nameBefore =
      [read "¬d", read "e", read "e"] := by
    have hde : Clause.nameBefore (read "¬d") (read "e") = true := by decide +kernel
    have hed : Clause.nameBefore (read "e") (read "¬d") = false := by decide +kernel
    have hee : Clause.nameBefore (read "e") (read "e") = true := by decide +kernel
    simp [List.mergeSort, List.MergeSort.Internal.splitInTwo, hde, hed, hee]
  have hagain : again (UnitPropagation.run false clauses) =
      [[read "a"], [read "c"], [read "¬d", read "e", read "e"]] := by
    have hliterals : (UnitPropagation.run false clauses).literals = [read "a", read "c"] := by
      decide +kernel
    have hrest : (UnitPropagation.run false clauses).clauses =
        [[read "e", read "¬d", read "e"]] := by decide +kernel
    rw [again, hliterals, hrest, List.map_singleton, hsorted]
    rfl
  have hcanonical : ∀ text, canonical ⟨text, UnitPropagation.run false clauses⟩ =
      "(a);(c);(-d,e,e)" := by
    intro text
    rw [canonical_eq_written (Clause.proper_of_allOfFormula hclauses), hagain]
    decide +kernel
  obtain ⟨q, hq, hsame⟩ := @canonical_fixed _ { formula := .missing } _ _ hp
  refine ⟨_, q, hp, hcanonical _, ?_, hsame⟩
  rw [hcanonical] at hq
  exact hq

end Propagation

end Propositional
