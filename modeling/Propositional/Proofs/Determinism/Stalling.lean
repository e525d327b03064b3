import Propositional.Proofs.Confluence

/-!
# What is open when propagation stalls

A verdict rests on clauses without repeated literals, and a step takes literals out of a clause but
puts none in.  So a clause that remains has its literals once each, and when no unit clause is left,
it has two of them at least.  An empty clause is never left, not even one that was given: the first
step drops it and thereby ends the run.

Hence a run that stalls leaves clauses about names that have no value, and the question whether all
names have one is never answered with yes.

* `UnitPropagation.Course.nodup` — steps keep clauses free of repetitions;
* `Determinism.LeavesOpen`       — the clauses that a run leaves, and their names;
* `Determinism.undetermined_of_stalled` — the main result.
-/

namespace Propositional

namespace UnitPropagation

variable {l : Literal} {clauses rest : List Clause} {steps : List Step}

/-! ## Clauses without repetitions -/

theorem nodup_of_mem_survivors (h : ∀ c ∈ clauses, c.Nodup) :
    ∀ c ∈ survivors l clauses, c.Nodup := by
  intro c hc
  obtain ⟨d, hd, -, rfl, -⟩ := mem_survivors.mp hc
  exact (h d hd).filter _

/-- Steps keep clauses free of repetitions. -/
theorem Course.nodup (h : Course clauses steps rest) (hnodup : ∀ c ∈ clauses, c.Nodup) :
    ∀ c ∈ rest, c.Nodup := by
  induction h with
  | done clauses => exact hnodup
  | step _ _ ih => exact ih (nodup_of_mem_survivors hnodup)

end UnitPropagation

namespace Determinism

open UnitPropagation

variable {clauses : List Clause} {r : Run}

theorem nodup_of_mem_distinct : ∀ c ∈ distinct clauses, c.Nodup := by
  intro d hd
  obtain ⟨c, -, rfl⟩ := mem_distinct.mp hd
  exact nodup_eraseDups c

theorem mem_names {name : String} :
    name ∈ Clause.names clauses ↔ ∃ c ∈ clauses, ∃ l ∈ c, l.name = name := by
  simp only [Clause.names, List.mem_eraseDups, List.mem_map, List.mem_flatten]
  constructor
  · rintro ⟨l, ⟨c, hc, hl⟩, hname⟩
    exact ⟨c, hc, l, hl, hname⟩
  · rintro ⟨c, hc, l, hl, hname⟩
    exact ⟨l, ⟨c, hc, hl⟩, hname⟩

/-! ## Runs that stall -/

/-- What a run leaves open of the clauses on which it was started. -/
structure LeavesOpen (clauses : List Clause) (r : Run) : Prop where
  remaining : r.clauses ≠ []
  -- A clause that remains has no literal twice, and more than one.
  nodup : ∀ c ∈ r.clauses, c.Nodup
  two : ∀ c ∈ r.clauses, ∃ l ∈ c, ∃ m ∈ c, l ≠ m
  -- Its names have no value, and they are names that the clauses have had from the start.
  unassigned : ∀ c ∈ r.clauses, ∀ l ∈ c, r.assignments.get? l.name = none
  given : ∀ c ∈ r.clauses, ∀ l ∈ c, l.name ∈ Clause.names clauses

/-- A run on which a verdict rests leaves open clauses when it stalls. -/
theorem leavesOpen_of_stalled (hrun : decidingRun clauses = some r)
    (hstalled : r.outcome = .stalled) : LeavesOpen clauses r := by
  obtain ⟨hunit, rfl⟩ := decidingRun_eq_some_iff.mp hrun
  have hcourse := run_course true (distinct clauses)
  -- the first step has dropped or reported an empty clause, and no unit clause is left
  have hlength := two_le_length hunit (by simp [hstalled])
  have hnodup := hcourse.nodup nodup_of_mem_distinct
  refine ⟨(rest_of_stalled hstalled (Or.inl hunit)).1, hnodup, ?_, ?_, ?_⟩
  · intro d hd
    have htwo := hlength d hd
    have hfirst : d[0] ∈ d := List.getElem_mem (by omega)
    have hsecond : d[1] ∈ d := List.getElem_mem (by omega)
    -- the first two literals stand at different places, hence differ
    refine ⟨d[0], hfirst, d[1], hsecond, fun heq => ?_⟩
    have hplace : 0 = 1 := (hnodup d hd).getElem_inj_iff.mp heq
    omega
  · intro c hc l hl
    rw [← Option.not_isSome_iff_eq_none]
    intro hsome
    obtain ⟨m, hm, hname⟩ := has_assignments_iff.mp hsome
    obtain ⟨s, hs, rfl⟩ := List.mem_map.mp hm
    exact hcourse.name_ne s hs c hc l hl hname.symm
  · intro c hc l hl
    obtain ⟨d, hd, hld⟩ := hcourse.mem_of_mem.2 c hc l hl
    obtain ⟨e, he, rfl⟩ := mem_distinct.mp hd
    exact mem_names.mpr ⟨e, he, l, List.mem_eraseDups.mp hld, rfl⟩

/-- A name of what is left open has no value. -/
theorem LeavesOpen.exists_unassigned (h : LeavesOpen clauses r) :
    ∃ name ∈ Clause.names clauses, r.assignments.get? name = none := by
  obtain ⟨c, hc⟩ := List.exists_mem_of_ne_nil _ h.remaining
  obtain ⟨l, hl, -⟩ := h.two c hc
  exact ⟨l.name, h.given c hc l hl, h.unassigned c hc l hl⟩

/-- **Propagation that stalls leaves names without a value.**  Some clauses remain, each with two
different literals at least.  Their names are among the given ones and have no value.  So not all of
the names have one, and the verdict is that propagation does not decide. -/
theorem undetermined_of_stalled (hrun : decidingRun clauses = some r)
    (hstalled : r.outcome = .stalled) :
    LeavesOpen clauses r ∧
      (∃ name ∈ Clause.names clauses, r.assignments.get? name = none) ∧
      allAssigned (distinct clauses) r = false ∧ classify clauses = .undetermined := by
  have hopen := leavesOpen_of_stalled hrun hstalled
  refine ⟨hopen, hopen.exists_unassigned, not_allAssigned_of_stalled hrun hstalled, ?_⟩
  rw [classify_eq_of_decidingRun hrun, hstalled]

/-- One unit clause beside a clause with a repeated literal: `b∨c` and `c∨¬b` are left open. -/
theorem undetermined_of_stalled_repeated_literal :
    let clauses := [["b", "c", "b"], ["a"], ["¬a", "c", "¬b", "c"]].map
      (List.map (Signed.read negationGlyph))
    ∃ r, decidingRun clauses = some r ∧ r.outcome = .stalled ∧ LeavesOpen clauses r ∧
      classify clauses = .undetermined := by
  intro clauses
  have hrun : decidingRun clauses = some (run true (distinct clauses)) :=
    decidingRun_eq_some_iff.mpr ⟨by decide +kernel, rfl⟩
  have hstalled : (run true (distinct clauses)).outcome = .stalled := by decide +kernel
  obtain ⟨hopen, -, -, hverdict⟩ := undetermined_of_stalled hrun hstalled
  exact ⟨_, hrun, hstalled, hopen, hverdict⟩

end Determinism

end Propositional
