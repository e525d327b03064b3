import Mathlib.Data.List.Sort
import Propositional.Proofs.Tseytin.Definitions

/-!
# Models of a formula and models of its Tseytin clauses

An assignment of the letters is extended to the names of the clauses by giving each name the value
of the subformula that it stands for.  Such an extension makes a literal of every defining clause
true, whatever the assignment; the last clause says what the formula says.

Sorting a clause permutes its literals, and clauses are left out when their text came before.  The
unit clause at the end always stays: its text has no comma, and every other clause has two literals
at least.

* `Tseytin.models_deduplicate`          — sorting and leaving out lose no model;
* `Tseytin.deduplicate_append_singleton` — the unit clause stays where it is;
* `Tseytin.transform_eq_ok`             — a formula always has its clauses, the last one a unit;
* `Tseytin.faithful_iff`                — the names of the definitions are all names there are;
* `Tseytin.Extends`                     — an assignment extended to the names of definitions;
* `Tseytin.models_of_faithful`          — the clauses of a formula under a faithful valuation;
* `Tseytin.models_extend`               — the main result.
-/

namespace Propositional.Tseytin

variable {f g : Formula Letter} {w : String → Bool} {clauses : List Clause}

/-! ## Sorted clauses without repetition -/

/-- Sorting keeps the literals of a clause. -/
theorem mem_sortClause {l : Literal} {c : Clause} : l ∈ sortClause c ↔ l ∈ c :=
  (List.mergeSort_perm c _).mem_iff

theorem sortClause_ne_nil {c : Clause} (hc : c ≠ []) : sortClause c ≠ [] := by
  obtain ⟨l, hl⟩ := List.exists_mem_of_ne_nil c hc
  exact List.ne_nil_of_mem (mem_sortClause.mpr hl)

theorem sortClause_singleton (l : Literal) : sortClause [l] = [l] :=
  List.mergeSort_singleton l

/-- Sorting clauses and leaving out repetitions loses no model. -/
theorem models_deduplicate (h : Models w clauses) : Models w (deduplicate clauses) := by
  intro c hc
  obtain ⟨d, hd, rfl⟩ := List.mem_map.mp (mem_of_mem_eraseDupsBy _ hc)
  exact (someHolds_congr fun _ => mem_sortClause).mpr (h d hd)

theorem toList_clauseText (c : Clause) :
    (clauseText c).toList = [','].intercalate (c.map fun l => l.text.toList) := by
  rw [clauseText, String.toList_intercalate, List.map_map]
  rfl

/-- A clause with two literals is written with a comma. -/
theorem comma_mem_clauseText {c : Clause} (hc : 2 ≤ c.length) : ',' ∈ (clauseText c).toList := by
  match c, hc with
  | l :: m :: rest, _ =>
    rw [toList_clauseText, List.map_cons, List.map_cons, List.intercalate_cons_cons]
    simp

theorem comma_notMem_text {l : Literal} (hl : Canonical l) : ',' ∉ l.text.toList := by
  obtain ⟨s, hs⟩ := hl
  have hcomma : ',' ∉ l.name.toList := hs ▸ s.comma_notMem_text
  rw [Signed.text]
  split
  · rw [String.toList_ofList, List.mem_cons]
    rintro (hmark | hname)
    · exact absurd hmark (by decide)
    · exact hcomma hname
  · exact hcomma

/-- A clause with one canonical literal is written without a comma. -/
theorem comma_notMem_clauseText {l : Literal} (hl : Canonical l) :
    ',' ∉ (clauseText [l]).toList := by
  rw [toList_clauseText, List.map_singleton, List.intercalate_singleton]
  exact comma_notMem_text hl

/-- A unit clause after longer clauses repeats none of them, so it stays. -/
theorem deduplicate_append_singleton {root : Literal} (hroot : Canonical root)
    (hlength : ∀ c ∈ clauses, 2 ≤ c.length) :
    deduplicate (clauses ++ [[root]]) = deduplicate clauses ++ [[root]] := by
  rw [deduplicate, List.map_append, List.map_singleton, sortClause_singleton]
  apply eraseDupsBy_append_singleton
  intro c hc
  obtain ⟨d, hd, rfl⟩ := List.mem_map.mp hc
  -- the text of the unit clause has no comma, the text of a longer clause has one
  have hsorted : 2 ≤ (sortClause d).length := by
    rw [sortClause, List.length_mergeSort]
    exact hlength d hd
  rw [beq_eq_false_iff_ne]
  intro htext
  exact comma_notMem_clauseText hroot (htext ▸ comma_mem_clauseText hsorted)

/-! ## The clauses of a formula -/

/-- Every numbered subformula has a definition that can be written.  Each of its clauses has two
literals at least, and holds under the valuations that are faithful to the names. -/
theorem definitionOf_names {k : Nat} (hk : (namingOrder f)[k]? = some g) :
    ∃ cs, definitionOf (names f) g k = .ok ⟨auxiliary k, g, cs⟩ ∧ (∀ c ∈ cs, 2 ≤ c.length) ∧
      ∀ w, Faithful (names f) w → Models w cs := by
  obtain ⟨cs, hdefine, hlength, hmodels⟩ := define_names hk
  refine ⟨cs, ?_, hlength, hmodels⟩
  rw [definitionOf, hdefine]

theorem of_definitionOf {known : Names} {k : Nat} {d : Definition}
    (h : definitionOf known g k = .ok d) :
    d.formula = g ∧ d.name = auxiliary k ∧
      define known (literal (auxiliary k)) d.formula = .ok d.clauses := by
  unfold definitionOf at h
  split at h
  · next cs hcs =>
    cases h
    exact ⟨rfl, rfl, hcs⟩
  · cases h

/-- The definitions of a formula stand in the order of naming. -/
theorem getElem?_definitions {ds : List Definition} (hds : definitions f = .ok ds) {k : Nat}
    {d : Definition} (hk : ds[k]? = some d) :
    (namingOrder f)[k]? = some d.formula ∧ d.name = auxiliary k ∧
      define (names f) (literal (auxiliary k)) d.formula = .ok d.clauses := by
  obtain ⟨⟨g, i⟩, hmem, hdefinition⟩ := exists_getElem?_of_forall₂ (mapM_eq_ok_iff.mp hds) hk
  obtain ⟨rfl, hname, hdefine⟩ := of_definitionOf hdefinition
  rw [List.getElem?_zipIdx] at hmem
  obtain ⟨g, hg, heq⟩ := Option.map_eq_some_iff.mp hmem
  simp only [Nat.zero_add, Prod.mk.injEq] at heq
  obtain ⟨rfl, rfl⟩ := heq
  exact ⟨hg, hname, hdefine⟩

/-- There are as many definitions as there are names. -/
theorem length_definitions {ds : List Definition} (hds : definitions f = .ok ds) :
    ds.length = (namingOrder f).length := by
  rw [← (mapM_eq_ok_iff.mp hds).length_eq, List.length_zipIdx]

/-- The definitions of a formula are those of its named subformulas. -/
theorem mem_definitions {ds : List Definition} (hds : definitions f = .ok ds) {d : Definition} :
    d ∈ ds ↔ ∃ g k, (namingOrder f)[k]? = some g ∧ definitionOf (names f) g k = .ok d := by
  rw [mem_iff_of_mapM_eq_ok hds]
  constructor
  · rintro ⟨⟨g, k⟩, hmem, hd⟩
    exact ⟨g, k, List.mem_zipIdx_iff_getElem?.mp hmem, hd⟩
  · rintro ⟨g, k, hk, hd⟩
    exact ⟨(g, k), List.mem_zipIdx_iff_getElem?.mpr hk, hd⟩

/-- A definition has the number of its subformula in its name, and its clauses hold under faithful
valuations. -/
theorem of_mem_definitions {ds : List Definition} (hds : definitions f = .ok ds) {d : Definition}
    (hd : d ∈ ds) :
    ∃ k, (namingOrder f)[k]? = some d.formula ∧ d.name = auxiliary k ∧
      (∀ c ∈ d.clauses, 2 ≤ c.length) ∧ ∀ w, Faithful (names f) w → Models w d.clauses := by
  obtain ⟨g, k, hk, hdefined⟩ := (mem_definitions hds).mp hd
  obtain ⟨cs, hdefinition, hlength, hmodels⟩ := definitionOf_names hk
  rw [hdefinition] at hdefined
  cases hdefined
  exact ⟨k, hk, rfl, hlength, hmodels⟩

/-- The definitions of a formula can all be written. -/
theorem definitions_eq_ok (f : Formula Letter) : ∃ ds, definitions f = .ok ds := by
  apply exists_mapM_eq_ok
  rintro ⟨g, k⟩ hmem
  obtain ⟨cs, hd, -⟩ := definitionOf_names (List.mem_zipIdx_iff_getElem?.mp hmem)
  exact ⟨_, hd⟩

/-- Every formula has Tseytin clauses: those of its definitions, and the unit clause of the literal
that stands for it. -/
theorem transform_eq_ok (f : Formula Letter) :
    ∃ e root, transform f = .ok e ∧ definitions f = .ok e.definitions ∧
      literalFor (names f) f = .ok root ∧
      e.clauses = deduplicate (e.definitions.flatMap (·.clauses)) ++ [[root]] := by
  obtain ⟨ds, hds⟩ := definitions_eq_ok f
  obtain ⟨root, hroot, hcanonical, -⟩ := literalFor_names (mem_rightToLeft_self f)
  -- no defining clause is a unit clause, so none can swallow the last one
  have hlength : ∀ c ∈ ds.flatMap (·.clauses), 2 ≤ c.length := by
    intro c hc
    obtain ⟨d, hd, hcd⟩ := List.mem_flatMap.mp hc
    obtain ⟨k, -, -, hlong, -⟩ := of_mem_definitions hds hd
    exact hlong c hcd
  refine ⟨⟨ds, deduplicate (ds.flatMap (·.clauses) ++ [[root]])⟩, root, ?_, hds, hroot, ?_⟩
  · rw [transform, hds, hroot]
  · exact deduplicate_append_singleton hcanonical hlength

/-- A valuation is faithful when it knows the constants and agrees with the definitions. -/
theorem faithful_iff {ds : List Definition} (hds : definitions f = .ok ds) :
    Faithful (names f) w ↔ (∀ b, w (constantName b) = b) ∧
      ∀ d ∈ ds, w d.name = d.formula.eval fun a => w a.name := by
  constructor
  · intro hw
    refine ⟨hw.constant, ?_⟩
    intro d hd
    obtain ⟨k, hk, hname, -⟩ := of_mem_definitions hds hd
    exact hw.named (get?_names.mpr ⟨k, hk, hname⟩)
  · rintro ⟨hconstant, hdefined⟩
    refine ⟨hconstant, ?_⟩
    intro g name hname
    obtain ⟨k, hk, rfl⟩ := get?_names.mp hname
    obtain ⟨cs, hdefinition, -⟩ := definitionOf_names hk
    exact hdefined ⟨auxiliary k, g, cs⟩ ((mem_definitions hds).mpr ⟨g, k, hk, hdefinition⟩)

/-! ## Extended assignments -/

/-- An assignment of letters extended to the constants, which have their truth values, and to the
names of definitions, which have the values of their formulas. -/
structure Extends (r : Letter → Option Bool) (ds : List Definition) (w : String → Bool) : Prop where
  -- Assigned letters keep their values.
  letter : ∀ {a b}, r a = some b → w a.name = b
  constant : ∀ b, w (constantName b) = b
  -- A name has the value of the subformula that it stands for.
  named : ∀ d ∈ ds, d.formula.evaluate r = .ok (w d.name)

/-- The truth value of a subject when the letters have theirs: a name has that of its subformula. -/
def Subject.value (f : Formula Letter) (v : Letter → Bool) : Subject → Bool
  | .letter a => v a
  | .constant b => b
  | .named k => (((namingOrder f)[k]?).map (·.eval v)).getD false

variable {r : Letter → Option Bool} {ds : List Definition}

/-- Under an extended assignment, a subformula has the value that the letters give it. -/
theorem evaluate_of_extends (hr : ∀ a ∈ f.atoms, (r a).isSome = true) (hw : Extends r ds w)
    (hg : g ∈ rightToLeft f) : g.evaluate r = .ok (g.eval fun a => w a.name) := by
  apply Formula.evaluate_eq_ok
  intro a ha
  have hassigned : r a = some ((r a).getD false) := Formula.eq_some_getD (hr a (atoms_subset hg ha))
  rw [hassigned, hw.letter hassigned]

/-- A valuation that gives every name the value of what it stands for is faithful. -/
theorem faithful_of_extends (hr : ∀ a ∈ f.atoms, (r a).isSome = true)
    (hds : definitions f = .ok ds) (hw : Extends r ds w) : Faithful (names f) w := by
  refine (faithful_iff hds).mpr ⟨hw.constant, ?_⟩
  intro d hd
  obtain ⟨k, hk, -⟩ := of_mem_definitions hds hd
  have hmem := (mem_namingOrder.mp (List.mem_of_getElem? hk)).1
  have hvalue := hw.named d hd
  rw [evaluate_of_extends hr hw hmem] at hvalue
  exact (Except.ok.inj hvalue).symm

/-- Every assignment of the letters has an extension, because no two letters, constants and names
are written alike. -/
theorem exists_extends (hr : ∀ a ∈ f.atoms, (r a).isSome = true) (hds : definitions f = .ok ds) :
    ∃ w, Extends r ds w := by
  let v : Letter → Bool := fun a => (r a).getD false
  obtain ⟨w, hw⟩ := Subject.exists_valuation_text (Subject.value f v)
  refine ⟨w, ?_, fun b => hw (.constant b), ?_⟩
  · intro a b hab
    refine (hw (.letter a)).trans ?_
    show (r a).getD false = b
    rw [hab, Option.getD_some]
  · intro d hd
    obtain ⟨k, hk, hname, -⟩ := of_mem_definitions hds hd
    have hmem := (mem_namingOrder.mp (List.mem_of_getElem? hk)).1
    -- the name has the number of its subformula
    have hvalue : w d.name = d.formula.eval v := by
      rw [hname]
      refine (hw (.named k)).trans ?_
      show (((namingOrder f)[k]?).map (·.eval v)).getD false = d.formula.eval v
      rw [hk, Option.map_some, Option.getD_some]
    rw [hvalue]
    exact Formula.evaluate_of_isSome fun a ha => hr a (atoms_subset hmem ha)

/-! ## Models -/

/-- Under a faithful valuation the clauses of definitions hold, and the unit clause at the end says
what the formula says. -/
theorem models_of_faithful {root : Literal} (hw : Faithful (names f) w)
    (hds : definitions f = .ok ds) (hroot : literalFor (names f) f = .ok root) :
    Models w (deduplicate (ds.flatMap (·.clauses))) ∧
      (Models w (deduplicate (ds.flatMap (·.clauses)) ++ [[root]]) ↔
        f.eval (fun a => w a.name) = true) := by
  have hdefining : Models w (deduplicate (ds.flatMap (·.clauses))) := by
    apply models_deduplicate
    intro c hc
    obtain ⟨d, hd, hcd⟩ := List.mem_flatMap.mp hc
    obtain ⟨k, -, -, -, hmodels⟩ := of_mem_definitions hds hd
    exact hmodels w hw c hcd
  obtain ⟨l, hl, -, hholds⟩ := literalFor_names (mem_rightToLeft_self f)
  obtain rfl : l = root := Except.ok.inj (hl.symm.trans hroot)
  refine ⟨hdefining, ?_⟩
  -- given the defining clauses, only the last one is left to hold
  rw [models_append, models_cons, someHolds_singleton, hholds w hw]
  simp [hdefining]

/-- Every formula has its Tseytin clauses.  An assignment of all its letters can be extended to the
names; whatever the extension, every clause but the last unit clause has a literal that holds, and
all clauses have one exactly when the assignment makes the formula true.  So every model of the
formula extends to a model of the clauses. -/
theorem models_extend (f : Formula Letter) :
    ∃ e defining root, transform f = .ok e ∧ e.clauses = defining ++ [[root]] ∧
      ∀ r : Letter → Option Bool, (∀ a ∈ f.atoms, (r a).isSome = true) →
        (∃ w, Extends r e.definitions w) ∧
        (∀ w, Extends r e.definitions w →
          Models w defining ∧ (Models w e.clauses ↔ f.evaluate r = .ok true)) ∧
        (f.evaluate r = .ok true → ∃ w, Extends r e.definitions w ∧ Models w e.clauses) := by
  obtain ⟨e, root, htransform, hds, hroot, hclauses⟩ := transform_eq_ok f
  refine ⟨e, _, root, htransform, hclauses, ?_⟩
  intro r hr
  -- an extended assignment is faithful to the names, which settles all clauses
  have hevery : ∀ w, Extends r e.definitions w →
      Models w (deduplicate (e.definitions.flatMap (·.clauses))) ∧
        (Models w e.clauses ↔ f.evaluate r = .ok true) := by
    intro w hw
    rw [hclauses, evaluate_of_extends hr hw (mem_rightToLeft_self f), Except.ok.injEq]
    exact models_of_faithful (faithful_of_extends hr hds hw) hds hroot
  obtain ⟨w, hw⟩ := exists_extends hr hds
  refine ⟨⟨w, hw⟩, hevery, ?_⟩
  intro htrue
  exact ⟨w, hw, (hevery w hw).2.mpr htrue⟩

/-- The formula `(a∧⊤)∨¬(a∧⊤)` uses a name twice and has a constant in a definition. -/
theorem models_extend_shared_name :
    ∃ e w, transform (.bin .or (.bin .and (.var ⟨'a', rfl⟩) (.const true))
        (.neg (.bin .and (.var ⟨'a', rfl⟩) (.const true)))) = .ok e ∧
      Extends (fun _ => some false) e.definitions w ∧ Models w e.clauses := by
  obtain ⟨e, _, _, htransform, _, hmodels⟩ := models_extend
    (.bin .or (.bin .and (.var ⟨'a', rfl⟩) (.const true))
      (.neg (.bin .and (.var ⟨'a', rfl⟩) (.const true))))
  obtain ⟨-, -, htrue⟩ := hmodels (fun _ => some false) fun _ _ => rfl
  obtain ⟨w, hw, hall⟩ := htrue rfl
  exact ⟨e, w, htransform, hw, hall⟩

end Propositional.Tseytin
