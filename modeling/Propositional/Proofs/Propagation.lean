import Propositional.Proofs.Satisfaction
import Propositional.Proofs.Tables
import Propositional.UnitPropagation

/-!
# Soundness of unit propagation

What asserting one unit literal does to the models of a row of clauses, and by induction what a
whole run does.  A run is followed through `Course`: its steps, each starting where the one before
it ended, lead from the clauses given to the clauses that remain.

* `models_iff_of_holds`  — one step: a literal that holds may be asserted;
* `run_course`           — a run is a course from its input to what remains;
* `Course.models_iff`    — a model of the clauses makes the asserted literals true and models what
  remains, and conversely unless a clause was emptied on the way;
* `Course.nodup_names`, `Course.name_ne` — no name is asserted twice, and none that has been
  asserted is left over;
* `outcome_eq_contradiction_iff`, `clauses_eq_nil_of_empty`, `unit?_of_outcome`, `rest_of_stalled` —
  what the outcome of a run says about its course;
* `Run.Keeps`, `Run.Agrees` — runs that keep what the clauses say, and valuations that agree with
  what a run has recorded, such as `Run.completion`;
* `run_sound_and_lossless` — what the outcome of a run says about the models of its clauses.
-/

namespace Propositional.UnitPropagation

variable {v : String → Bool} {l m : Literal} {c : Clause} {clauses rest : List Clause}
  {steps : List Step}

/-! ## Asserting a literal -/

theorem single?_eq_some_iff : single? c = some l ↔ c = [l] := by
  match c with
  | [] => simp [single?]
  | [m] => simp [single?]
  | m :: n :: rest => simp [single?]

theorem single?_eq_none_iff : single? c = none ↔ c.length ≠ 1 := by
  match c with
  | [] => simp [single?]
  | [m] => simp [single?]
  | m :: n :: rest => simp [single?]

/-- There is a unit literal as long as there is a clause with a single literal. -/
theorem unit?_eq_none_iff : unit? clauses = none ↔ ∀ c ∈ clauses, c.length ≠ 1 := by
  rw [unit?, List.findSome?_eq_none_iff]
  exact forall₂_congr fun _ _ => single?_eq_none_iff

/-- The unit literal is that of the leftmost clause with a single literal. -/
theorem unit?_eq_some_iff :
    unit? clauses = some l ↔
      ∃ left right, clauses = left ++ [l] :: right ∧ ∀ c ∈ left, c.length ≠ 1 := by
  rw [unit?, List.findSome?_eq_some_iff]
  constructor
  · rintro ⟨left, c, right, rfl, hc, hleft⟩
    obtain rfl := single?_eq_some_iff.mp hc
    exact ⟨left, right, rfl, fun d hd => single?_eq_none_iff.mp (hleft d hd)⟩
  · rintro ⟨left, right, rfl, hleft⟩
    exact ⟨left, [l], right, rfl, rfl, fun d hd => single?_eq_none_iff.mpr (hleft d hd)⟩

/-- The clauses left by asserting a literal are those that do not hold it, without its complement,
as far as anything remains of them. -/
theorem mem_survivors :
    c ∈ survivors l clauses ↔ ∃ d ∈ clauses, l ∉ d ∧ without l d = c ∧ c ≠ [] := by
  unfold survivors reduced
  simp only [List.mem_filter, List.mem_map, decide_eq_true_eq, Bool.not_eq_true',
    List.isEmpty_eq_false_iff]
  constructor
  · rintro ⟨⟨d, ⟨hd, hl⟩, hw⟩, hc⟩
    exact ⟨d, hd, hl, hw, hc⟩
  · rintro ⟨d, hd, hl, hw, hc⟩
    exact ⟨⟨d, ⟨hd, hl⟩, hw⟩, hc⟩

/-- Asserting a literal empties a clause when only its complement stands in one that does not hold
the literal itself. -/
theorem empties_eq_true_iff :
    empties l clauses = true ↔ ∃ d ∈ clauses, l ∉ d ∧ without l d = [] := by
  unfold empties reduced
  simp only [List.any_eq_true, List.mem_map, List.mem_filter, decide_eq_true_eq,
    List.isEmpty_iff]
  constructor
  · rintro ⟨c, ⟨d, ⟨hd, hl⟩, hw⟩, hc⟩
    exact ⟨d, hd, hl, hw.trans hc⟩
  · rintro ⟨d, hd, hl, hw⟩
    exact ⟨[], ⟨d, ⟨hd, hl⟩, hw⟩, rfl⟩

/-- The literals left by asserting a literal stood in the clauses before. -/
theorem mem_of_mem_survivors (hc : c ∈ survivors l clauses) (hm : m ∈ c) :
    ∃ d ∈ clauses, m ∈ d := by
  obtain ⟨d, hd, -, rfl, -⟩ := mem_survivors.mp hc
  exact ⟨d, hd, (List.mem_filter.mp hm).1⟩

/-- No clause left by asserting a literal is empty. -/
theorem ne_nil_of_mem_survivors (hc : c ∈ survivors l clauses) : c ≠ [] := by
  obtain ⟨d, -, -, -, hne⟩ := mem_survivors.mp hc
  exact hne

/-- Asserting a literal leaves no literal with its name. -/
theorem name_ne_of_mem_survivors (hc : c ∈ survivors l clauses) (hm : m ∈ c) :
    m.name ≠ l.name := by
  obtain ⟨d, -, hl, rfl, -⟩ := mem_survivors.mp hc
  obtain ⟨hmd, hne⟩ := List.mem_filter.mp hm
  intro hname
  rcases Signed.eq_or_eq_complement hname with rfl | rfl
  · exact hl hmd
  · simp at hne

/-- A complement that does not hold can be taken out of a clause. -/
theorem someHolds_without (h : l.complement.holds v = false) :
    SomeHolds v (without l c) ↔ SomeHolds v c := by
  constructor
  · rintro ⟨m, hm, hv⟩
    exact ⟨m, (List.mem_filter.mp hm).1, hv⟩
  · rintro ⟨m, hm, hv⟩
    have hne : m ≠ l.complement := by
      rintro rfl
      rw [h] at hv
      cases hv
    exact ⟨m, List.mem_filter.mpr ⟨hm, decide_eq_true hne⟩, hv⟩

/-- A literal that holds may be asserted: a valuation models the clauses exactly when it models
what is left of them and nothing was emptied. -/
theorem models_iff_of_holds (hplain : l.Plain) (hl : l.holds v = true) :
    Models v clauses ↔ empties l clauses = false ∧ Models v (survivors l clauses) := by
  have hcomplement : l.complement.holds v = false := by
    rw [Signed.holds_complement hplain, hl]
    rfl
  constructor
  · intro h
    constructor
    · -- an emptied clause held nothing but the complement, which does not hold
      rw [← Bool.not_eq_true, empties_eq_true_iff]
      rintro ⟨d, hd, -, hempty⟩
      have hsome := (someHolds_without hcomplement).mpr (h d hd)
      rw [hempty] at hsome
      exact not_someHolds_nil hsome
    · intro c hc
      obtain ⟨d, hd, -, rfl, -⟩ := mem_survivors.mp hc
      exact (someHolds_without hcomplement).mpr (h d hd)
  · rintro ⟨hempties, h⟩ d hd
    -- a clause with the literal in it is dropped, any other one survives shortened
    by_cases hld : l ∈ d
    · exact ⟨l, hld, hl⟩
    · have hne : without l d ≠ [] := by
        intro hw
        rw [empties_eq_true_iff.mpr ⟨d, hd, hld, hw⟩] at hempties
        cases hempties
      have hsome := h _ (mem_survivors.mpr ⟨d, hd, hld, rfl, hne⟩)
      exact (someHolds_without hcomplement).mp hsome

/-! ## Courses -/

/-- `Course clauses steps rest`: the steps lead from the clauses to the rest, each asserting the
literal of some unit clause. -/
inductive Course : List Clause → List Step → List Clause → Prop where
  -- Without a step, the clauses themselves are left.
  | done (clauses : List Clause) : Course clauses [] clauses
  -- A step asserts a unit literal, and the course goes on from what it leaves.
  | step {clauses rest : List Clause} {steps : List Step} {l : Literal} :
    [l] ∈ clauses → Course (survivors l clauses) steps rest →
      Course clauses (⟨l, clauses, survivors l clauses⟩ :: steps) rest

/-- A step that empties a clause. -/
def Step.emptied (s : Step) : Bool :=
  empties s.literal s.before

/-- A run is a course from the clauses given to the clauses that remain. -/
theorem run_course (stop : Bool) (clauses : List Clause) :
    Course clauses (run stop clauses).steps (run stop clauses).clauses := by
  fun_induction run stop clauses with
  | case1 clauses _ => exact .done clauses
  | case2 clauses l hunit _ _ _ => exact .step (mem_of_unit? hunit) (.done _)
  | case3 clauses l hunit _ _ _ _ => exact .step (mem_of_unit? hunit) (.done _)
  | case4 clauses l hunit _ _ _ _ _ ih => exact .step (mem_of_unit? hunit) ih

namespace Course

/-- The literals asserted on a course and those left over stood in the clauses. -/
theorem mem_of_mem (h : Course clauses steps rest) :
    (∀ s ∈ steps, ∃ d ∈ clauses, s.literal ∈ d) ∧ ∀ c ∈ rest, ∀ m ∈ c, ∃ d ∈ clauses, m ∈ d := by
  induction h with
  | done clauses => exact ⟨by simp, fun c hc m hm => ⟨c, hc, hm⟩⟩
  | @step clauses rest steps l hunit _ ih =>
    have hback : ∀ {n : Literal}, (∃ d ∈ survivors l clauses, n ∈ d) → ∃ d ∈ clauses, n ∈ d := by
      rintro n ⟨d, hd, hn⟩
      exact mem_of_mem_survivors hd hn
    refine ⟨?_, fun c hc m hm => hback (ih.2 c hc m hm)⟩
    intro s hs
    rcases List.mem_cons.mp hs with rfl | hs
    · exact ⟨[l], hunit, List.mem_singleton_self l⟩
    · exact hback (ih.1 s hs)

/-- No literal that is left over has a name that was asserted. -/
theorem name_ne (h : Course clauses steps rest) :
    ∀ s ∈ steps, ∀ c ∈ rest, ∀ m ∈ c, m.name ≠ s.literal.name := by
  induction h with
  | done clauses => simp
  | step hunit hcourse ih =>
    intro s hs c hc m hm
    rcases List.mem_cons.mp hs with rfl | hs
    · obtain ⟨d, hd, hmd⟩ := hcourse.mem_of_mem.2 c hc m hm
      exact name_ne_of_mem_survivors hd hmd
    · exact ih s hs c hc m hm

/-- No name is asserted twice. -/
theorem nodup_names (h : Course clauses steps rest) :
    ((steps.map (·.literal)).map (·.name)).Nodup := by
  induction h with
  | done clauses => simp
  | @step clauses rest steps l hunit hcourse ih =>
    rw [List.map_cons, List.map_cons, List.nodup_cons]
    refine ⟨?_, ih⟩
    -- a later literal stood in a survivor of this step, where the name no longer occurs
    intro hmem
    obtain ⟨m, hm, hname⟩ := List.mem_map.mp hmem
    obtain ⟨s, hs, rfl⟩ := List.mem_map.mp hm
    obtain ⟨d, hd, hsd⟩ := hcourse.mem_of_mem.1 s hs
    exact name_ne_of_mem_survivors hd hsd hname

/-- A valuation is a model of the clauses exactly when it makes every asserted literal true and is
a model of what is left, and no step emptied a clause. -/
theorem models_iff (h : Course clauses steps rest) (hplain : ∀ c ∈ clauses, ∀ l ∈ c, l.Plain) :
    Models v clauses ↔
      (∀ s ∈ steps, s.literal.holds v = true ∧ s.emptied = false) ∧ Models v rest := by
  induction h with
  | done clauses => simp
  | @step clauses rest steps l hunit _ ih =>
    have hpl : l.Plain := hplain [l] hunit l (List.mem_singleton_self l)
    have hplain' : ∀ c ∈ survivors l clauses, ∀ m ∈ c, m.Plain := by
      intro c hc m hm
      obtain ⟨d, hd, hmd⟩ := mem_of_mem_survivors hc hm
      exact hplain d hd m hmd
    rw [List.forall_mem_cons, and_assoc, ← ih hplain']
    -- the unit clause forces the literal, so the step lemma applies in both directions
    constructor
    · intro hmodels
      have hl : l.holds v = true := someHolds_singleton.mp (hmodels [l] hunit)
      obtain ⟨hempties, hleft⟩ := (models_iff_of_holds hpl hl).mp hmodels
      exact ⟨⟨hl, hempties⟩, hleft⟩
    · rintro ⟨⟨hl, hempties⟩, hleft⟩
      exact (models_iff_of_holds hpl hl).mpr ⟨hempties, hleft⟩

end Course

/-! ## Outcomes -/

theorem run_of_unit?_eq_none {stop : Bool} (h : unit? clauses = none) :
    run stop clauses = ⟨.stalled, clauses, []⟩ := by
  rw [run]
  split
  · rfl
  · next l hl =>
    rw [h] at hl
    cases hl

/-- A run that may stop ends in a contradiction exactly when one of its steps emptied a clause. -/
theorem outcome_eq_contradiction_iff (clauses : List Clause) :
    (run true clauses).outcome = .contradiction ↔
      ∃ s ∈ (run true clauses).steps, s.emptied = true := by
  fun_induction run true clauses with
  | case1 clauses _ => simp
  | case2 clauses l _ after step hstop =>
    have hempties : empties l clauses = true := by simpa using hstop
    simp [Step.emptied, step, hempties]
  | case3 clauses l _ after step hstop _ =>
    have hempties : empties l clauses = false := by simpa using hstop
    simp [Step.emptied, step, hempties]
  | case4 clauses l _ after step hstop _ rest ih =>
    have hempties : empties l clauses = false := by simpa using hstop
    -- a step after which the run goes on has emptied no clause
    have hstep : step.emptied = false := hempties
    rw [ih]
    constructor
    · rintro ⟨s, hs, hs'⟩
      exact ⟨s, List.mem_cons_of_mem _ hs, hs'⟩
    · rintro ⟨s, hs, hs'⟩
      rcases List.mem_cons.mp hs with rfl | hs
      · rw [hstep] at hs'
        cases hs'
      · exact ⟨s, hs, hs'⟩

/-- No step of a run without contradiction emptied a clause. -/
theorem emptied_eq_false (h : (run true clauses).outcome ≠ .contradiction) :
    ∀ s ∈ (run true clauses).steps, s.emptied = false := by
  intro s hs
  rw [← Bool.not_eq_true]
  exact fun hemptied => h ((outcome_eq_contradiction_iff clauses).mpr ⟨s, hs, hemptied⟩)

/-- A run that ends empty leaves no clause. -/
theorem clauses_eq_nil_of_empty {stop : Bool} (h : (run stop clauses).outcome = .empty) :
    (run stop clauses).clauses = [] := by
  fun_induction run stop clauses with
  | case1 clauses _ => cases h
  | case2 clauses l _ _ _ _ => cases h
  | case3 clauses l _ after _ _ hnone => exact List.isEmpty_iff.mp hnone
  | case4 clauses l _ _ _ _ _ _ ih => exact ih h

/-- A run that stalls leaves no unit literal. -/
theorem unit?_of_stalled {stop : Bool} (h : (run stop clauses).outcome = .stalled) :
    unit? (run stop clauses).clauses = none := by
  fun_induction run stop clauses with
  | case1 clauses hnone => exact hnone
  | case2 clauses l _ _ _ _ => cases h
  | case3 clauses l _ _ _ _ _ => cases h
  | case4 clauses l _ _ _ _ _ _ ih => exact ih h

/-- A run goes on as long as there is a unit clause, unless it stops at a contradiction. -/
theorem unit?_of_outcome {stop : Bool} (h : (run stop clauses).outcome ≠ .contradiction) :
    unit? (run stop clauses).clauses = none := by
  cases hout : (run stop clauses).outcome with
  | empty => rw [clauses_eq_nil_of_empty hout]; rfl
  | contradiction => exact absurd hout h
  | stalled => exact unit?_of_stalled hout

/-- A run that stalls leaves clauses, none of them empty, if it took a step or began that way. -/
theorem rest_of_stalled {stop : Bool} (h : (run stop clauses).outcome = .stalled)
    (hstart : unit? clauses ≠ none ∨ clauses ≠ [] ∧ ∀ c ∈ clauses, c ≠ []) :
    (run stop clauses).clauses ≠ [] ∧ ∀ c ∈ (run stop clauses).clauses, c ≠ [] := by
  fun_induction run stop clauses with
  | case1 clauses hnone =>
    rcases hstart with hunit | hstart
    · exact absurd hnone hunit
    · exact hstart
  | case2 clauses l _ _ _ _ => cases h
  | case3 clauses l _ _ _ _ _ => cases h
  | case4 clauses l _ after _ _ hmore _ ih =>
    have hafter : after ≠ [] := fun hnil => hmore (List.isEmpty_iff.mpr hnil)
    exact ih h (Or.inr ⟨hafter, fun c hc => ne_nil_of_mem_survivors hc⟩)

/-! ## Models -/

/-- What a run has asserted and left says together what the clauses said. -/
def Run.Keeps (r : Run) (clauses : List Clause) : Prop :=
  ∀ v : String → Bool,
    Models v clauses ↔ (∀ l ∈ r.literals, l.holds v = true) ∧ Models v r.clauses

/-- A valuation that gives every name the value that a run has recorded for it. -/
def Run.Agrees (r : Run) (v : String → Bool) : Prop :=
  ∀ name value, r.assignments.get? name = some value → v name = value

/-- The values that a run has recorded, and one value for all names without one. -/
def Run.completion (r : Run) (value : Bool) (name : String) : Bool :=
  (r.assignments.get? name).getD value

theorem Run.agrees_completion (r : Run) (value : Bool) : r.Agrees (r.completion value) := by
  intro name x hx
  rw [completion, hx, Option.getD_some]

/-- The values that a run has recorded are those that its literals give to their names. -/
theorem get?_assignments {stop : Bool} {name : String} {value : Bool} :
    (run stop clauses).assignments.get? name = some value ↔
      ∃ l ∈ (run stop clauses).literals, l.name = name ∧ (!l.negated) = value := by
  have hkeys : (((run stop clauses).literals.map fun l => (l.name, !l.negated)).map
      Prod.fst).Nodup := by
    rw [List.map_map]
    exact (run_course stop clauses).nodup_names
  rw [Run.assignments, Table.get?_ofList_eq_some_iff hkeys, List.mem_map]
  simp only [Prod.mk.injEq]

/-- A name has a value after a run exactly when one of its literals was asserted. -/
theorem has_assignments_iff {stop : Bool} {name : String} :
    (run stop clauses).assignments.has name = true ↔
      ∃ l ∈ (run stop clauses).literals, l.name = name := by
  rw [Table.has, Option.isSome_iff_exists]
  constructor
  · rintro ⟨value, hvalue⟩
    obtain ⟨l, hl, hname, -⟩ := get?_assignments.mp hvalue
    exact ⟨l, hl, hname⟩
  · rintro ⟨l, hl, hname⟩
    exact ⟨_, get?_assignments.mpr ⟨l, hl, hname, rfl⟩⟩

/-- To agree with the recorded values is to make the asserted literals true. -/
theorem agrees_iff {stop : Bool} :
    (run stop clauses).Agrees v ↔ ∀ l ∈ (run stop clauses).literals, l.holds v = true := by
  constructor
  · intro h l hl
    exact Signed.holds_iff.mpr (h _ _ (get?_assignments.mpr ⟨l, hl, rfl, rfl⟩))
  · intro h name value hvalue
    obtain ⟨l, hl, rfl, rfl⟩ := get?_assignments.mp hvalue
    exact Signed.holds_iff.mp (h l hl)

/-- A run in which no step empties a clause keeps what the clauses say. -/
theorem run_keeps {stop : Bool} (hplain : ∀ c ∈ clauses, ∀ l ∈ c, l.Plain)
    (hkept : ∀ s ∈ (run stop clauses).steps, s.emptied = false) :
    (run stop clauses).Keeps clauses := by
  intro v
  rw [(run_course stop clauses).models_iff hplain, Run.literals, List.forall_mem_map]
  refine and_congr_left' (forall₂_congr fun s hs => ?_)
  rw [hkept s hs]
  exact and_iff_left rfl

/-- Clauses of which a step empties one have no model. -/
theorem not_models_of_contradiction (hplain : ∀ c ∈ clauses, ∀ l ∈ c, l.Plain)
    (h : (run true clauses).outcome = .contradiction) :
    ¬ ∃ v : String → Bool, Models v clauses := by
  obtain ⟨s, hs, hemptied⟩ := (outcome_eq_contradiction_iff clauses).mp h
  rintro ⟨v, hv⟩
  have hsteps := (((run_course true clauses).models_iff hplain).mp hv).1
  rw [(hsteps s hs).2] at hemptied
  cases hemptied

/-- When nothing is left, the models are the valuations that agree with the recorded values. -/
theorem models_iff_of_empty (hplain : ∀ c ∈ clauses, ∀ l ∈ c, l.Plain)
    (h : (run true clauses).outcome = .empty) :
    Models v clauses ↔ (run true clauses).Agrees v := by
  have hkeeps := run_keeps hplain (emptied_eq_false (by simp [h]))
  rw [hkeeps v, agrees_iff, clauses_eq_nil_of_empty h]
  exact and_iff_left models_nil

/-- **Propagation is sound and loses nothing.**  Clauses on which a run ends in a contradiction have
no model.  Any other run keeps what the clauses say: their models are the valuations that make the
asserted literals true and model what is left; when nothing is left, these are the valuations that
agree with the recorded values.  A run that does not stop at contradictions keeps it, too, as long
as none of its steps empties a clause. -/
theorem run_sound_and_lossless (hplain : ∀ c ∈ clauses, ∀ l ∈ c, l.Plain) :
    ((run true clauses).outcome = .contradiction → ¬ ∃ v : String → Bool, Models v clauses) ∧
      ((run true clauses).outcome ≠ .contradiction → (run true clauses).Keeps clauses) ∧
      ((run true clauses).outcome = .empty →
        ∀ v : String → Bool, Models v clauses ↔ (run true clauses).Agrees v) ∧
      ((∀ s ∈ (run false clauses).steps, s.emptied = false) →
        (run false clauses).Keeps clauses) :=
  ⟨not_models_of_contradiction hplain, fun hout => run_keeps hplain (emptied_eq_false hout),
    fun hempty _ => models_iff_of_empty hplain hempty, run_keeps hplain⟩

/-- A chain of units past a repeated literal and a clause that is always true; and clauses of which
one is empty from the start. -/
theorem run_sound_and_lossless_chain :
    let read := List.map (List.map (Signed.read negationGlyph))
    let chain := read [["¬b", "c", "¬b"], ["d", "¬d", "c"], ["a"], ["¬a", "b"]]
    let contradictory := read [["a", "b"], ["¬a"], [], ["¬b", "¬c"]]
    (run true chain).outcome = .empty ∧
      (run true chain).Keeps chain ∧
      (∀ v : String → Bool, Models v chain ↔ (run true chain).Agrees v) ∧
      (run false chain).Keeps chain ∧
      ¬ ∃ v : String → Bool, Models v contradictory := by
  intro read chain contradictory
  have hchain : ∀ c ∈ chain, ∀ l ∈ c, l.Plain := by
    unfold Signed.Plain
    decide +kernel
  have hcontradictory : ∀ c ∈ contradictory, ∀ l ∈ c, l.Plain := by
    unfold Signed.Plain
    decide +kernel
  have hempty : (run true chain).outcome = .empty := by decide +kernel
  have hkept : ∀ s ∈ (run false chain).steps, s.emptied = false := by decide +kernel
  have hout : (run true contradictory).outcome = .contradiction := by decide +kernel
  obtain ⟨-, hkeeps, hmodels, hkeeps'⟩ := run_sound_and_lossless hchain
  exact ⟨hempty, hkeeps (by simp [hempty]), hmodels hempty, hkeeps' hkept,
    (run_sound_and_lossless hcontradictory).1 hout⟩

end Propositional.UnitPropagation
