import Mathlib.Data.Finset.Dedup
import Propositional.Proofs.Determinism

/-!
# Unit propagation does not depend on the order of the clauses

A run takes the leftmost unit clause first, drops clauses as soon as they are true and stops at the
first clause that is emptied, so rows with the same clauses in another order are run through along
other courses.  All of them that empty nothing assert the same literals: what such a run has
asserted in the end *settles* the clauses, and literals that settle the clauses bind every other
course, which can neither leave them nor empty a clause.

* `residue`, `Settles`       — what is left of a clause, and literals that leave no clause empty or
  with a single literal;
* `Settles.mem_of_unit`, `Settles.empties_eq_false`, `Settles.survivors` — one step of any course;
* `Course.bound_of_settles`  — by induction, a whole course;
* `Course.settles`, `Course.rest_eq` — what a course that empties nothing has asserted settles the
  clauses and determines what is left of them;
* `Within`, `Within.bound`   — clauses that all stand in another row: what a run on that row says
  about a run on them;
* `Rearranged`, `Rearranged.outcome_eq` — rows of the same clauses, each within the other;
* `Clause.asSets`, `Determinism.independent_of_arrangement` — the verdict depends on the set of the
  sets of literals only, and where a run without contradiction ends, on the clauses up to order.
-/

namespace Propositional

namespace UnitPropagation

variable {l : Literal} {asserted : List Literal} {c d : Clause}
  {clauses others rest : List Clause} {steps : List Step}

/-! ## What asserted literals leave -/

/-- What is left of a clause when the complements of all asserted literals are taken out. -/
def residue (asserted : List Literal) (c : Clause) : Clause :=
  c.filter fun m => ∀ l ∈ asserted, m ≠ l.complement

/-- The clauses that asserted literals leave open, each without their complements. -/
def remainder (asserted : List Literal) (clauses : List Clause) : List Clause :=
  (clauses.filter fun c => !asserted.any c.contains).map (residue asserted)

/-- Literals settle clauses when each clause either holds one of them or keeps two literals. -/
def Settles (asserted : List Literal) (clauses : List Clause) : Prop :=
  ∀ c ∈ clauses, (∃ l ∈ asserted, l ∈ c) ∨ 2 ≤ (residue asserted c).length

/-- No literal is asserted together with its complement. -/
def Consistent (asserted : List Literal) : Prop :=
  ∀ l ∈ asserted, l.complement ∉ asserted

@[simp]
theorem residue_nil : residue [] c = c := by
  simp [residue]

theorem residue_cons : residue (l :: asserted) c = residue asserted (without l c) := by
  unfold residue without
  rw [List.filter_filter]
  refine List.filter_congr fun m _ => ?_
  simp [Bool.and_comm]

/-- The complement of an asserted literal is taken out anyway. -/
theorem residue_without (hl : l ∈ asserted) :
    residue asserted (without l c) = residue asserted c := by
  unfold residue without
  rw [List.filter_filter]
  refine List.filter_congr fun m _ => ?_
  have hkept : (∀ n ∈ asserted, m ≠ n.complement) → m ≠ l.complement := fun h => h l hl
  simpa using hkept

/-- Rearranged clauses are left with rearranged residues. -/
theorem residue_perm (h : c.Perm d) : (residue asserted c).Perm (residue asserted d) :=
  h.filter _

/-- What is left of a clause are its literals whose complement is not asserted. -/
theorem mem_residue {m : Literal} :
    m ∈ residue asserted c ↔ m ∈ c ∧ ∀ l ∈ asserted, m ≠ l.complement := by
  simp [residue]

theorem mem_without {m : Literal} : m ∈ without l c ↔ m ∈ c ∧ m ≠ l.complement := by
  simp [without]

@[simp]
theorem remainder_nil : remainder [] clauses = clauses := by
  have hid : residue [] = id := funext fun c => residue_nil
  simp [remainder, hid]

theorem Consistent.tail (h : Consistent (l :: asserted)) : Consistent asserted := by
  intro m hm hcomplement
  exact h m (List.mem_cons_of_mem _ hm) (List.mem_cons_of_mem _ hcomplement)

/-- Asserting literals one after another or together leaves the same clauses open. -/
theorem remainder_reduced (h : Consistent (l :: asserted)) :
    remainder asserted (reduced l clauses) = remainder (l :: asserted) clauses := by
  have hresidue : residue asserted ∘ without l = residue (l :: asserted) :=
    funext fun c => residue_cons.symm
  unfold remainder reduced
  rw [List.filter_map, List.filter_filter, List.map_map, hresidue]
  congr 1
  refine List.filter_congr fun c _ => ?_
  have hkept : asserted.any (without l c).contains = asserted.any c.contains := by
    rw [Bool.eq_iff_iff, List.any_eq_true, List.any_eq_true]
    refine exists_congr fun m => and_congr_right fun hm => ?_
    -- no other asserted literal is the complement that was taken out
    have hne : m ≠ l.complement := by
      rintro rfl
      exact h l List.mem_cons_self (List.mem_cons_of_mem _ hm)
    simp [mem_without, hne]
  simp [hkept, Bool.and_comm]

/-- Only the set of asserted literals matters for what remains, and not their order. -/
theorem remainder_congr {ls ms : List Literal} (h : ∀ l, l ∈ ls ↔ l ∈ ms) :
    remainder ls clauses = remainder ms clauses := by
  have hany : ∀ c : Clause, ls.any c.contains = ms.any c.contains := by
    intro c
    rw [Bool.eq_iff_iff, List.any_eq_true, List.any_eq_true]
    simp only [h]
  unfold remainder residue
  simp only [h, hany]

theorem remainder_perm (h : clauses.Perm others) :
    (remainder asserted clauses).Perm (remainder asserted others) :=
  (h.filter _).map _

/-- Nothing remains when every clause has an asserted literal. -/
theorem remainder_eq_nil_iff :
    remainder asserted clauses = [] ↔ ∀ c ∈ clauses, ∃ l ∈ asserted, l ∈ c := by
  simp [remainder, List.filter_eq_nil_iff]

/-! ## One step -/

/-- As long as no clause is emptied, all reduced clauses survive. -/
theorem survivors_eq_reduced (h : empties l clauses = false) :
    survivors l clauses = reduced l clauses := by
  unfold survivors
  rw [List.filter_eq_self]
  intro c hc
  rw [empties, List.any_eq_false] at h
  simpa using h c hc

namespace Settles

/-- A settled set of literals has the unit clauses in it. -/
theorem mem_of_unit (h : Settles asserted clauses) (hunit : [l] ∈ clauses) : l ∈ asserted := by
  rcases h [l] hunit with ⟨m, hm, hml⟩ | htwo
  · rw [← List.mem_singleton.mp hml]
    exact hm
  · -- a unit clause has no two literals to keep
    have hone : (residue asserted [l]).length ≤ 1 := List.length_filter_le _ _
    omega

/-- A clause that is settled stays so without the complement of one of the literals. -/
theorem settled_without (h : Settles asserted clauses) (hcons : Consistent asserted)
    (hl : l ∈ asserted) (hc : c ∈ clauses) :
    (∃ m ∈ asserted, m ∈ without l c) ∨ 2 ≤ (residue asserted (without l c)).length := by
  rcases h c hc with ⟨m, hm, hmc⟩ | htwo
  · -- the complement is not among the literals, so it is not what makes the clause true
    have hne : m ≠ l.complement := by
      rintro rfl
      exact hcons l hl hm
    exact Or.inl ⟨m, hm, mem_without.mpr ⟨hmc, hne⟩⟩
  · rw [residue_without hl]
    exact Or.inr htwo

/-- Asserting a literal of a settled, consistent set empties no clause. -/
theorem empties_eq_false (h : Settles asserted clauses) (hcons : Consistent asserted)
    (hl : l ∈ asserted) : empties l clauses = false := by
  rw [← Bool.not_eq_true, empties_eq_true_iff]
  rintro ⟨d, hd, -, hempty⟩
  have hsettled := h.settled_without hcons hl hd
  rw [hempty] at hsettled
  rcases hsettled with ⟨m, -, hm⟩ | htwo
  · exact List.not_mem_nil hm
  · have hnone : (residue asserted []).length = 0 := rfl
    omega

/-- What is settled stays so when one of its literals is asserted. -/
theorem survivors (h : Settles asserted clauses) (hcons : Consistent asserted)
    (hl : l ∈ asserted) : Settles asserted (survivors l clauses) := by
  intro c hc
  obtain ⟨d, hd, -, rfl, -⟩ := mem_survivors.mp hc
  exact h.settled_without hcons hl hd

end Settles

/-! ## Courses -/

namespace Course

/-- Literals that settle the clauses bind every course: it asserts only such literals and empties
no clause. -/
theorem bound_of_settles (h : Course clauses steps rest) (hcons : Consistent asserted)
    (hsettles : Settles asserted clauses) :
    ∀ s ∈ steps, s.literal ∈ asserted ∧ s.emptied = false := by
  induction h with
  | done clauses => simp
  | @step clauses rest steps l hunit _ ih =>
    have hl : l ∈ asserted := hsettles.mem_of_unit hunit
    rw [List.forall_mem_cons]
    exact ⟨⟨hl, hsettles.empties_eq_false hcons hl⟩, ih (hsettles.survivors hcons hl)⟩

/-- A course that empties nothing and leaves no short clause has settled the clauses. -/
theorem settles (h : Course clauses steps rest) (hkept : ∀ s ∈ steps, s.emptied = false)
    (hrest : ∀ c ∈ rest, 2 ≤ c.length) : Settles (steps.map (·.literal)) clauses := by
  induction h with
  | done clauses =>
    intro c hc
    rw [List.map_nil, residue_nil]
    exact Or.inr (hrest c hc)
  | @step clauses rest steps l hunit _ ih =>
    rw [List.forall_mem_cons] at hkept
    have hafter := ih hkept.2 hrest
    intro c hc
    rw [List.map_cons]
    by_cases hlc : l ∈ c
    · exact Or.inl ⟨l, List.mem_cons_self, hlc⟩
    -- a clause without the literal is among the survivors, since it is not emptied
    have hne : without l c ≠ [] := by
      intro hempty
      have hemptied := empties_eq_true_iff.mpr ⟨c, hc, hlc, hempty⟩
      exact Bool.false_ne_true (hkept.1.symm.trans hemptied)
    rcases hafter _ (mem_survivors.mpr ⟨c, hc, hlc, rfl, hne⟩) with ⟨m, hm, hmc⟩ | htwo
    · exact Or.inl ⟨m, List.mem_cons_of_mem _ hm, (mem_without.mp hmc).1⟩
    · rw [residue_cons]
      exact Or.inr htwo

/-- The literals of a course are consistent: no name is asserted twice. -/
theorem consistent (h : Course clauses steps rest) (hplain : ∀ c ∈ clauses, ∀ l ∈ c, l.Plain) :
    Consistent (steps.map (·.literal)) := by
  intro l hl hcomplement
  obtain ⟨s, hs, rfl⟩ := List.mem_map.mp hl
  obtain ⟨d, hd, hsd⟩ := h.mem_of_mem.1 s hs
  obtain ⟨hname, hsign⟩ := Signed.complement_of_plain (hplain d hd s.literal hsd)
  have hsame := List.inj_on_of_nodup_map h.nodup_names hcomplement hl hname
  rw [hsame] at hsign
  exact (Bool.eq_not_self _).mp hsign

/-- What is left after a course that empties nothing is what its literals leave open. -/
theorem rest_eq (h : Course clauses steps rest) (hkept : ∀ s ∈ steps, s.emptied = false)
    (hcons : Consistent (steps.map (·.literal))) :
    rest = remainder (steps.map (·.literal)) clauses := by
  induction h with
  | done clauses => rw [List.map_nil, remainder_nil]
  | @step clauses rest steps l hunit _ ih =>
    rw [List.forall_mem_cons] at hkept
    rw [List.map_cons] at hcons
    rw [ih hkept.2 hcons.tail, survivors_eq_reduced hkept.1, List.map_cons, remainder_reduced hcons]

end Course

/-! ## Runs -/

/-- After a run that took a step and did not end in a contradiction no clause is short. -/
theorem two_le_length (hunit : unit? clauses ≠ none)
    (hout : (run true clauses).outcome ≠ .contradiction) :
    ∀ c ∈ (run true clauses).clauses, 2 ≤ c.length := by
  intro c hc
  cases hend : (run true clauses).outcome with
  | empty =>
    rw [clauses_eq_nil_of_empty hend] at hc
    cases hc
  | contradiction => exact absurd hend hout
  | stalled =>
    have hne := List.length_pos_iff.mpr ((rest_of_stalled hend (Or.inl hunit)).2 c hc)
    have hone := unit?_eq_none_iff.mp (unit?_of_stalled hend) c hc
    omega

/-- The literals of a run that took a step and did not end in a contradiction settle its clauses. -/
theorem run_settles (hunit : unit? clauses ≠ none)
    (hout : (run true clauses).outcome ≠ .contradiction) :
    Settles (run true clauses).literals clauses :=
  (run_course true clauses).settles (emptied_eq_false hout) (two_le_length hunit hout)

/-- What remains after a run without contradiction is what its literals leave open. -/
theorem clauses_eq_remainder (hplain : ∀ c ∈ clauses, ∀ l ∈ c, l.Plain)
    (hout : (run true clauses).outcome ≠ .contradiction) :
    (run true clauses).clauses = remainder (run true clauses).literals clauses :=
  have hcourse := run_course true clauses
  hcourse.rest_eq (emptied_eq_false hout) (hcourse.consistent hplain)

/-- Unless it finds a contradiction, a run that has asserted something ends empty when no clause is
left. -/
theorem outcome_eq_empty_iff (hunit : unit? clauses ≠ none)
    (hout : (run true clauses).outcome ≠ .contradiction) :
    (run true clauses).outcome = .empty ↔ (run true clauses).clauses = [] := by
  refine ⟨clauses_eq_nil_of_empty, fun hnil => ?_⟩
  cases hend : (run true clauses).outcome with
  | empty => rfl
  | contradiction => exact absurd hend hout
  | stalled => exact absurd hnil (rest_of_stalled hend (Or.inl hunit)).1

/-! ## Clauses within clauses -/

/-- Every clause of the first row stands in the second one, its literals in some order. -/
def Within (others clauses : List Clause) : Prop :=
  ∀ d ∈ others, ∃ c ∈ clauses, d.Perm c

namespace Within

theorem plain (h : Within others clauses) (hplain : ∀ c ∈ clauses, ∀ l ∈ c, l.Plain) :
    ∀ c ∈ others, ∀ l ∈ c, l.Plain := by
  intro d hd l hl
  obtain ⟨c, hc, hdc⟩ := h d hd
  exact hplain c hc l (hdc.subset hl)

theorem unit?_eq_none (h : Within others clauses) (hunit : unit? clauses = none) :
    unit? others = none := by
  rw [unit?_eq_none_iff] at hunit ⊢
  intro d hd
  obtain ⟨c, hc, hdc⟩ := h d hd
  rw [hdc.length_eq]
  exact hunit c hc

theorem settles (h : Within others clauses) (hsettles : Settles asserted clauses) :
    Settles asserted others := by
  intro d hd
  obtain ⟨c, hc, hdc⟩ := h d hd
  rcases hsettles c hc with ⟨l, hl, hlc⟩ | htwo
  · exact Or.inl ⟨l, hl, hdc.symm.subset hlc⟩
  · rw [(residue_perm hdc).length_eq]
    exact Or.inr htwo

/-- A run without contradiction binds the runs on all clauses that stand within its own. -/
theorem bound (h : Within others clauses) (hplain : ∀ c ∈ clauses, ∀ l ∈ c, l.Plain)
    (hout : (run true clauses).outcome ≠ .contradiction) :
    (run true others).outcome ≠ .contradiction ∧
      ∀ l ∈ (run true others).literals, l ∈ (run true clauses).literals := by
  by_cases hunit : unit? clauses = none
  · rw [run_of_unit?_eq_none (h.unit?_eq_none hunit)]
    exact ⟨by simp, by simp [Run.literals]⟩
  · -- what the one run has asserted settles the clauses of the other, too
    have hbound := (run_course true others).bound_of_settles
      ((run_course true clauses).consistent hplain) (h.settles (run_settles hunit hout))
    constructor
    · rw [Ne, outcome_eq_contradiction_iff]
      rintro ⟨s, hs, hemptied⟩
      exact Bool.false_ne_true ((hbound s hs).2.symm.trans hemptied)
    · intro l hl
      obtain ⟨s, hs, rfl⟩ := List.mem_map.mp hl
      exact (hbound s hs).1

end Within

/-! ## Rearranged clauses -/

/-- Two rows of clauses that differ in the order of the clauses, in the order of the literals
inside them and in how often a clause stands in the row. -/
structure Rearranged (clauses others : List Clause) : Prop where
  forward : ∀ c ∈ clauses, ∃ d ∈ others, c.Perm d
  backward : ∀ d ∈ others, ∃ c ∈ clauses, d.Perm c

namespace Rearranged

theorem symm (h : Rearranged clauses others) : Rearranged others clauses :=
  ⟨h.backward, h.forward⟩

theorem of_perm (h : clauses.Perm others) : Rearranged clauses others where
  forward c hc := ⟨c, h.subset hc, .refl c⟩
  backward d hd := ⟨d, h.symm.subset hd, .refl d⟩

/-- Each row stands within the other one. -/
theorem within (h : Rearranged clauses others) : Within others clauses :=
  h.backward

theorem plain (h : Rearranged clauses others) (hplain : ∀ c ∈ clauses, ∀ l ∈ c, l.Plain) :
    ∀ c ∈ others, ∀ l ∈ c, l.Plain :=
  h.within.plain hplain

/-- A run without contradiction binds the runs on all rearrangements of its clauses. -/
theorem bound (h : Rearranged clauses others) (hplain : ∀ c ∈ clauses, ∀ l ∈ c, l.Plain)
    (hout : (run true clauses).outcome ≠ .contradiction) :
    (run true others).outcome ≠ .contradiction ∧
      ∀ l ∈ (run true others).literals, l ∈ (run true clauses).literals :=
  h.within.bound hplain hout

/-- Rearranged clauses let the same literals be asserted. -/
theorem mem_literals_iff (h : Rearranged clauses others)
    (hplain : ∀ c ∈ clauses, ∀ l ∈ c, l.Plain)
    (hout : (run true clauses).outcome ≠ .contradiction) :
    l ∈ (run true others).literals ↔ l ∈ (run true clauses).literals := by
  obtain ⟨hout', hback⟩ := h.bound hplain hout
  exact ⟨hback l, (h.symm.bound (h.plain hplain) hout').2 l⟩

theorem remainder_eq_nil (h : Rearranged clauses others) (hnil : remainder asserted clauses = []) :
    remainder asserted others = [] := by
  rw [remainder_eq_nil_iff] at hnil ⊢
  intro d hd
  obtain ⟨c, hc, hdc⟩ := h.backward d hd
  obtain ⟨l, hl, hlc⟩ := hnil c hc
  exact ⟨l, hl, hdc.symm.subset hlc⟩

/-- A run that uses up its clauses uses up all rearrangements of them. -/
theorem outcome_eq_empty (h : Rearranged clauses others)
    (hplain : ∀ c ∈ clauses, ∀ l ∈ c, l.Plain) (hempty : (run true clauses).outcome = .empty) :
    (run true others).outcome = .empty := by
  have hout : (run true clauses).outcome ≠ .contradiction := by simp [hempty]
  have hunit : unit? others ≠ none := by
    intro hnone
    rw [run_of_unit?_eq_none (h.symm.within.unit?_eq_none hnone)] at hempty
    cases hempty
  have hout' := (h.bound hplain hout).1
  have hnil := clauses_eq_nil_of_empty hempty
  rw [clauses_eq_remainder hplain hout] at hnil
  rw [outcome_eq_empty_iff hunit hout', clauses_eq_remainder (h.plain hplain) hout',
    remainder_congr fun l => h.mem_literals_iff hplain hout]
  exact h.remainder_eq_nil hnil

/-- Runs on rearrangements of the same clauses end alike. -/
theorem outcome_eq (h : Rearranged clauses others) (hplain : ∀ c ∈ clauses, ∀ l ∈ c, l.Plain) :
    (run true others).outcome = (run true clauses).outcome := by
  have hplain' := h.plain hplain
  have hcontradiction : (run true others).outcome ≠ .contradiction ↔
      (run true clauses).outcome ≠ .contradiction :=
    ⟨fun hout => (h.symm.bound hplain' hout).1, fun hout => (h.bound hplain hout).1⟩
  cases hout : (run true clauses).outcome with
  | empty => exact h.outcome_eq_empty hplain hout
  -- a contradiction is not missed: a run without one would bind this run, too
  | contradiction => exact not_not.mp fun hout' => hcontradiction.mp hout' hout
  | stalled =>
    cases hout' : (run true others).outcome with
    | empty =>
      rw [h.symm.outcome_eq_empty hplain' hout'] at hout
      cases hout
    | contradiction => exact absurd hout' (hcontradiction.mpr (by simp [hout]))
    | stalled => rfl

end Rearranged

/-- No literal is asserted twice. -/
theorem nodup_literals (stop : Bool) (clauses : List Clause) : (run stop clauses).literals.Nodup :=
  (run_course stop clauses).nodup_names.of_map _

end UnitPropagation

/-! ## Sets of clauses -/

/-- A row of clauses as a set of sets of literals. -/
def Clause.asSets (clauses : List Clause) : Finset (Finset Literal) :=
  (clauses.map List.toFinset).toFinset

namespace Determinism

open UnitPropagation

variable {clauses others : List Clause}

/-- Clauses that occur in others as sets of literals stand within them when repeated literals are
left out. -/
theorem within_distinct (h : Clause.asSets clauses ⊆ Clause.asSets others) :
    Within (distinct clauses) (distinct others) := by
  intro c' hc'
  obtain ⟨c, hc, rfl⟩ := mem_distinct.mp hc'
  have hmem : c.toFinset ∈ Clause.asSets others :=
    h (List.mem_toFinset.mpr (List.mem_map.mpr ⟨c, hc, rfl⟩))
  obtain ⟨d, hd, hsame⟩ := List.mem_map.mp (List.mem_toFinset.mp hmem)
  refine ⟨d.eraseDups, mem_distinct.mpr ⟨d, hd, rfl⟩, ?_⟩
  -- without repetitions, the same literals make a permutation
  rw [List.perm_ext_iff_of_nodup (nodup_eraseDups c) (nodup_eraseDups d)]
  intro l
  rw [List.mem_eraseDups, List.mem_eraseDups, ← List.mem_toFinset, ← List.mem_toFinset, hsame]

/-- Clauses with the same sets of literals are rearranged when repeated literals are left out. -/
theorem rearranged_distinct (h : Clause.asSets clauses = Clause.asSets others) :
    Rearranged (distinct clauses) (distinct others) :=
  ⟨within_distinct h.subset, within_distinct h.symm.subset⟩

theorem classify_eq_of_asSets_eq (hplain : ∀ c ∈ clauses, ∀ l ∈ c, l.Plain)
    (h : Clause.asSets clauses = Clause.asSets others) : classify clauses = classify others := by
  have hre := rearranged_distinct h
  by_cases hunit : unit? (distinct clauses) = none
  · rw [classify, classify, decidingRun_eq_none_iff.mpr hunit,
      decidingRun_eq_none_iff.mpr (hre.within.unit?_eq_none hunit)]
  · have hunit' : unit? (distinct others) ≠ none := fun hnone =>
      hunit (hre.symm.within.unit?_eq_none hnone)
    rw [classify_eq_of_decidingRun (decidingRun_eq_some_iff.mpr ⟨hunit, rfl⟩),
      classify_eq_of_decidingRun (decidingRun_eq_some_iff.mpr ⟨hunit', rfl⟩),
      hre.outcome_eq (plain_distinct hplain)]

/-- **The arrangement of the clauses does not matter.**  The verdict depends on the set of clauses
only, each read as a set of literals.  A run that does not end in a contradiction ends with the same
outcome, propagated literals and remaining clauses in whatever order the clauses are given; these
may even hold repeated literals. -/
theorem independent_of_arrangement (hplain : ∀ c ∈ clauses, ∀ l ∈ c, l.Plain) :
    (Clause.asSets clauses = Clause.asSets others → classify clauses = classify others) ∧
      (clauses.Perm others → (run true clauses).outcome ≠ .contradiction →
        (run true others).outcome = (run true clauses).outcome ∧
        (run true others).literals.Perm (run true clauses).literals ∧
        (run true others).clauses.Perm (run true clauses).clauses) := by
  refine ⟨classify_eq_of_asSets_eq hplain, fun hperm hout => ?_⟩
  have hre := Rearranged.of_perm hperm
  have hliterals : ∀ l, l ∈ (run true others).literals ↔ l ∈ (run true clauses).literals :=
    fun l => hre.mem_literals_iff hplain hout
  refine ⟨hre.outcome_eq hplain, ?_, ?_⟩
  · exact (List.perm_ext_iff_of_nodup (nodup_literals _ _) (nodup_literals _ _)).mpr hliterals
  · rw [clauses_eq_remainder hplain hout,
      clauses_eq_remainder (hre.plain hplain) (hre.bound hplain hout).1,
      remainder_congr hliterals]
    exact remainder_perm hperm.symm

/-- Two unit clauses, of which either can come first: with repetitions the verdict is the same, and
backwards the run asserts `b` before `a` and leaves the same clause, with literals `c` and `d`. -/
theorem independent_of_arrangement_two_units :
    let read := List.map (List.map (Signed.read negationGlyph))
    let clauses := read [["a"], ["b"], ["¬b", "c", "d", "¬a"], ["c", "b"]]
    let repeated := read [["c", "b", "c"], ["b", "b"], ["a"], ["c", "d", "¬a", "¬b"], ["b"]]
    classify clauses = classify repeated ∧
      (run true clauses).outcome = .stalled ∧
      (run true clauses).literals = ["a", "b"].map (Signed.read negationGlyph) ∧
      (run true clauses.reverse).literals = ["b", "a"].map (Signed.read negationGlyph) ∧
      (run true clauses).clauses = read [["c", "d"]] ∧
      (run true clauses.reverse).outcome = (run true clauses).outcome ∧
      (run true clauses.reverse).literals.Perm (run true clauses).literals ∧
      (run true clauses.reverse).clauses.Perm (run true clauses).clauses := by
  intro read clauses repeated
  have hplain : ∀ c ∈ clauses, ∀ l ∈ c, l.Plain := by
    unfold Signed.Plain
    decide +kernel
  have hsets : Clause.asSets clauses = Clause.asSets repeated := by decide +kernel
  have hout : (run true clauses).outcome = .stalled := by decide +kernel
  have hverdict := (independent_of_arrangement hplain).1 hsets
  have hruns := (independent_of_arrangement hplain).2 clauses.reverse_perm.symm (by simp [hout])
  exact ⟨hverdict, hout, by decide +kernel, by decide +kernel, by decide +kernel, hruns⟩

end Determinism

end Propositional
