import Propositional.Proofs.Propagation

/-!
# The trace of a propagation

A run records its steps with the clauses before and after each of them, and a value for the name of
every literal that it asserts.  It never asks whether a name has a value already.  It need not: a
step leaves no literal with the name that it asserts, and no later step brings one back.

* `Course.linked`, `Course.after_eq` — each step starts where the one before it ended;
* `Course.initial`        — the first steps of a course are a course, so what holds of the clauses
  that remain holds of the clauses after every step;
* `unit?_before`          — the literal of a step is the one of the leftmost unit clause;
* `recorded`, `get?_recorded_eq_none` — the values recorded so far, and names without one;
* `Run.IsTraceOf`, `run_isTraceOf` — all that holds of the trace of a run.
-/

namespace Propositional.UnitPropagation

variable {clauses rest : List Clause} {s : Step} {earlier later steps : List Step}

/-! ## Steps -/

namespace Course

/-- Every step begins with what the one before it has left, and the last one leaves what remains. -/
theorem linked (h : Course clauses steps rest) :
    clauses :: steps.map (·.after) = steps.map (·.before) ++ [rest] := by
  induction h with
  | done clauses => rfl
  | step hunit _ ih => rw [List.map_cons, List.map_cons, ih, List.cons_append]

/-- A step leaves what asserting its literal leaves. -/
theorem after_eq (h : Course clauses steps rest) :
    ∀ s ∈ steps, s.after = survivors s.literal s.before := by
  induction h with
  | done clauses => simp
  | step hunit _ ih => exact List.forall_mem_cons.mpr ⟨rfl, ih⟩

/-- A course up to one of its steps leads to what this step leaves. -/
theorem initial (h : Course clauses (earlier ++ s :: later) rest) :
    Course clauses (earlier ++ [s]) s.after := by
  induction earlier generalizing clauses with
  | nil =>
    cases h with
    | step hunit _ => exact .step hunit (.done _)
  | cons first earlier ih =>
    cases h with
    | step hunit hcourse => exact .step hunit (ih hcourse)

end Course

theorem unit?_before (stop : Bool) (clauses : List Clause) :
    ∀ s ∈ (run stop clauses).steps, unit? s.before = some s.literal := by
  fun_induction run stop clauses with
  | case1 clauses _ => simp
  | case2 clauses l hunit _ _ _ => exact List.forall_mem_singleton.mpr hunit
  | case3 clauses l hunit _ _ _ _ => exact List.forall_mem_singleton.mpr hunit
  | case4 clauses l hunit _ _ _ _ _ ih => exact List.forall_mem_cons.mpr ⟨hunit, ih⟩

/-! ## Values -/

/-- The values that literals give to their names, recorded one after the other. -/
def recorded (literals : List Literal) : Table String Bool :=
  Table.ofList (literals.map fun l => (l.name, !l.negated))

theorem map_fst_values (literals : List Literal) :
    (literals.map fun l => (l.name, !l.negated)).map Prod.fst = literals.map (·.name) := by
  rw [List.map_map]
  rfl

/-- A name that no literal has is given no value. -/
theorem get?_recorded_eq_none {literals : List Literal} {name : String}
    (h : name ∉ literals.map (·.name)) : (recorded literals).get? name = none :=
  Table.get?_ofList_eq_none (by rwa [map_fst_values])

/-- With different names, each literal has an entry and none changes the one of another. -/
theorem entries_recorded {literals : List Literal} (h : (literals.map (·.name)).Nodup) :
    (recorded literals).entries = literals.map fun l => (l.name, !l.negated) :=
  Table.entries_ofList (by rwa [map_fst_values])

/-- What is recorded of the first literals stays recorded when all names are different. -/
theorem get?_recorded_append {xs ys : List Literal} (h : ((xs ++ ys).map (·.name)).Nodup)
    {name : String} {value : Bool} (hvalue : (recorded xs).get? name = some value) :
    (recorded (xs ++ ys)).get? name = some value := by
  have hfirst : (xs.map (·.name)).Nodup := by
    rw [List.map_append] at h
    exact (List.nodup_append.mp h).1
  rw [Table.get?_eq_some_iff, entries_recorded hfirst] at hvalue
  rw [Table.get?_eq_some_iff, entries_recorded h, List.map_append]
  exact List.mem_append_left _ hvalue

/-! ## Traces -/

/-- A run that is traced from its clauses to its end, in which no name comes up twice. -/
structure Run.IsTraceOf (r : Run) (clauses : List Clause) : Prop where
  -- The first list before a step is the one given, the last list after a step the one that remains,
  -- and in between the list after a step is the one before the next.
  linked : clauses :: r.steps.map (·.after) = r.steps.map (·.before) ++ [r.clauses]
  -- A step takes the leftmost unit clause.
  leftmost : ∀ s ∈ r.steps, ∃ left right,
    s.before = left ++ [s.literal] :: right ∧ ∀ c ∈ left, c.length ≠ 1
  asserted : ∀ s ∈ r.steps, s.after = survivors s.literal s.before
  complete : r.outcome ≠ .contradiction → ∀ c ∈ r.clauses, c.length ≠ 1
  -- After a step, no literal is left with a name that was asserted by then.
  gone : ∀ earlier s later, r.steps = earlier ++ s :: later →
    ∀ t ∈ earlier ++ [s], ∀ c ∈ s.after, ∀ m ∈ c, m.name ≠ t.literal.name
  once : (r.literals.map (·.name)).Nodup
  -- The values stand in the order of the literals, one for each.
  values : r.assignments.entries = r.literals.map fun l => (l.name, !l.negated)
  -- When a value is recorded, its name has none; and it is kept to the end.
  fresh : ∀ earlier l later, r.literals = earlier ++ l :: later →
    (recorded earlier).get? l.name = none
  kept : ∀ earlier later, r.literals = earlier ++ later →
    ∀ name value, (recorded earlier).get? name = some value →
      r.assignments.get? name = some value

/-- **A run is traced faithfully and asserts no name twice.**  Whether or not it stops at a
contradiction, its steps lead from the clauses given to those that remain, each by the leftmost unit
clause, and without a contradiction no unit clause remains.  After every step the names asserted so
far are gone from the clauses.  So every name is asserted once at most, the recorded values are
those of the literals in their order, and none of them is ever overwritten, neither by the other
value nor by the same. -/
theorem run_isTraceOf (stop : Bool) (clauses : List Clause) :
    (run stop clauses).IsTraceOf clauses := by
  have hcourse := run_course stop clauses
  have honce : ((run stop clauses).literals.map (·.name)).Nodup := hcourse.nodup_names
  refine ⟨hcourse.linked, ?_, hcourse.after_eq, ?_, ?_, honce, entries_recorded honce, ?_, ?_⟩
  · intro s hs
    exact unit?_eq_some_iff.mp (unit?_before stop clauses s hs)
  · intro hout
    exact unit?_eq_none_iff.mp (unit?_of_outcome hout)
  · intro earlier s later hsteps
    rw [hsteps] at hcourse
    -- the course up to this step ends with what the step leaves
    exact hcourse.initial.name_ne
  · intro earlier l later hliterals
    rw [hliterals, List.map_append, List.map_cons, List.nodup_append] at honce
    obtain ⟨-, -, hdisjoint⟩ := honce
    exact get?_recorded_eq_none fun hmem => hdisjoint _ hmem _ List.mem_cons_self rfl
  · intro earlier later hliterals name value hvalue
    rw [hliterals] at honce
    show (recorded (run stop clauses).literals).get? name = some value
    rw [hliterals]
    exact get?_recorded_append honce hvalue

end Propositional.UnitPropagation
