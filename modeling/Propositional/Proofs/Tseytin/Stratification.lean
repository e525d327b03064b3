import Propositional.Proofs.Tseytin.LiteralOrder
import Propositional.Proofs.Tseytin.Order
import Propositional.Proofs.Tseytin.Sufficiency

/-!
# Definitions in strata

The definition with a number speaks of names with smaller numbers only, and sorting puts the name
that it defines last in each of its clauses.  So the last literal of a clause says which definition
it comes from.  Leaving out repetitions keeps the order of the rest, hence the clauses stand in the
order of the definitions, none of which loses all its clauses, and no clause is taken for one of
another definition.

* `Tseytin.mem_rightToLeft_iff_at?`, `Tseytin.needsName_iff` — which subformulas are named;
* `Tseytin.number_lt`            — what stands below a named subformula has a smaller number;
* `Tseytin.below_literalFor`     — so its operands have literals below its number;
* `Tseytin.Stratum`, `Tseytin.stratum_sortClause` — a sorted clause of a definition;
* `Tseytin.pairwise_lastNumber`  — the clauses of all definitions stand in the order of the numbers;
* `Tseytin.definitions_stratified` — the main result.
-/

namespace Propositional.Tseytin

variable {f g h operand : Formula Letter} {xs : List (Formula Letter)} {i j : Nat}
  {l name x y : Literal} {c : Clause} {cs : List Clause} {d : Definition} {ds : List Definition}

/-! ## Named subformulas -/

/-- The subformulas are the formulas at all positions. -/
theorem mem_rightToLeft_iff_at? : g ∈ rightToLeft f ↔ ∃ p, f.at? p = some g := by
  constructor
  · intro hg
    induction f with
    | var a =>
      obtain rfl := List.mem_singleton.mp hg
      exact ⟨[], rfl⟩
    | const b =>
      obtain rfl := List.mem_singleton.mp hg
      exact ⟨[], rfl⟩
    | neg f ih =>
      rcases List.mem_append.mp hg with hg | hg
      · obtain ⟨p, hp⟩ := ih hg
        exact ⟨.first :: p, hp⟩
      · obtain rfl := List.mem_singleton.mp hg
        exact ⟨[], rfl⟩
    | bin op l r ihl ihr =>
      rcases List.mem_append.mp hg with hg | hg
      · obtain ⟨p, hp⟩ := ihr hg
        exact ⟨.second :: p, hp⟩
      rcases List.mem_append.mp hg with hg | hg
      · obtain ⟨p, hp⟩ := ihl hg
        exact ⟨.first :: p, hp⟩
      · obtain rfl := List.mem_singleton.mp hg
        exact ⟨[], rfl⟩
  · rintro ⟨p, hp⟩
    exact mem_rightToLeft_of_at? hp

theorem needsName_iff :
    needsName g = true ↔ (∃ op l r, g = .bin op l r) ∨ ∃ h, g = .neg h ∧ h.isLeaf = false := by
  cases g with
  | var a => simp [needsName]
  | const b => simp [needsName]
  | neg g => simp [needsName]
  | bin op l r => simp [needsName]

theorem map_formula_definitions (hds : definitions f = .ok ds) :
    ds.map (·.formula) = namingOrder f := by
  apply List.ext_getElem?
  intro j
  rw [List.getElem?_map]
  cases hj : ds[j]? with
  | none =>
    rw [List.getElem?_eq_none_iff, length_definitions hds] at hj
    exact (List.getElem?_eq_none hj).symm
  | some d => exact (getElem?_definitions hds hj).1.symm

/-- The names of the definitions are numbered from zero. -/
theorem map_name_definitions (hds : definitions f = .ok ds) :
    ds.map (·.name) = (List.range ds.length).map auxiliary := by
  apply List.ext_getElem?
  intro j
  rw [List.getElem?_map, List.getElem?_map]
  cases hj : ds[j]? with
  | none =>
    rw [List.getElem?_eq_none_iff] at hj
    rw [List.getElem?_eq_none (List.length_range.trans_le hj)]
    rfl
  | some d =>
    obtain ⟨hlt, -⟩ := List.getElem?_eq_some_iff.mp hj
    obtain ⟨-, hname, -⟩ := getElem?_definitions hds hj
    rw [List.getElem?_range hlt, Option.map_some, Option.map_some, hname]

/-- Where names are handed out in turn, what stands below the formula at a place has its turn
before. -/
theorem InTurn.ready (hxs : InTurn xs) (hj : xs[j]? = some g) : Ready (xs.take j) g := by
  induction hxs with
  | nil => cases hj
  | @snoc xs last _ hlast ih =>
    rcases Nat.lt_or_ge j xs.length with hlt | hge
    · rw [List.getElem?_append_left hlt] at hj
      rw [List.take_append_of_le_length hlt.le]
      exact ih hj
    · rw [List.getElem?_append_right hge, List.getElem?_singleton] at hj
      split at hj
      · next hlength =>
        cases hj
        rw [List.take_append_of_le_length (by omega), List.take_of_length_le hge]
        exact hlast
      · cases hj

/-- A subformula below a named one has a smaller number. -/
theorem number_lt (hj : (namingOrder f)[j]? = some g) (hoperand : operand ∈ g.children)
    (hh : h ∈ rightToLeft operand) (hi : (namingOrder f)[i]? = some h) : i < j := by
  have hneeds := (mem_namingOrder.mp (List.mem_of_getElem? hi)).2
  have hbefore := (inTurn_namingOrder f).ready hj operand hoperand h hh hneeds
  obtain ⟨m, hm⟩ := List.mem_iff_getElem?.mp hbefore
  rw [List.getElem?_take] at hm
  split at hm
  · next hlt =>
    -- no formula stands in two places
    obtain ⟨hmlt, -⟩ := List.getElem?_eq_some_iff.mp hm
    have hsame : m = i :=
      (List.getElem?_inj hmlt (nodup_namingOrder f)).mp (hm.trans hi.symm)
    exact hsame ▸ hlt
  · cases hm

/-! ## Literals below a number -/

/-- The opposite of a letter or of a name is about the same letter or name. -/
theorem name_opposite {s : Subject} (hs : l.name = s.text) (hne : ∀ b, s ≠ .constant b) :
    (opposite l).name = s.text := by
  -- only a constant is replaced by the other one
  have hconstant (b : Bool) : l.text ≠ constantName b := by
    intro htext
    have hname : l.name = Subject.text (.constant b) := by
      rw [eq_literal_of_text htext]
      exact (literal_text (.constant b)).2
    exact hne b (Subject.text_injective (hs.symm.trans hname))
  rw [opposite, if_neg (hconstant true), if_neg (hconstant false)]
  exact (Signed.complement_of_plain (Canonical.plain ⟨s, hs⟩)).1.trans hs

theorem name_opposite_auxiliary (hname : name.name = auxiliary j) :
    (opposite name).name = auxiliary j :=
  name_opposite (s := .named j) hname nofun

theorem below_opposite (hl : Below j l) : Below j (opposite l) := by
  rcases hl with ⟨a, ha⟩ | ⟨b, rfl⟩ | ⟨i, hij, hi⟩
  · exact Or.inl ⟨a, name_opposite (s := .letter a) ha nofun⟩
  · refine Or.inr (Or.inl ⟨!b, ?_⟩)
    rw [opposite, literal, Signed.text_read]
    cases b <;> rfl
  · exact Or.inr (Or.inr ⟨i, hij, name_opposite_auxiliary hi⟩)

/-- The literal of a named subformula with a smaller number is below. -/
theorem below_literalFor_named (hi : (namingOrder f)[i]? = some g) (hij : i < j)
    (hl : literalFor (names f) g = .ok l) : Below j l := by
  rw [literalFor_named hi] at hl
  cases hl
  exact Or.inr (Or.inr ⟨i, hij, (literal_text (.named i)).2⟩)

/-- The literal of a formula is below a number if the names that occur in the formula are. -/
theorem below_literalFor (hg : g ∈ rightToLeft f)
    (hnumber : ∀ h ∈ rightToLeft g, ∀ i, (namingOrder f)[i]? = some h → i < j)
    (hl : literalFor (names f) g = .ok l) : Below j l := by
  have hnamed {g : Formula Letter} {l : Literal} (hg : g ∈ rightToLeft f)
      (hneeds : needsName g = true)
      (hnumber : ∀ h ∈ rightToLeft g, ∀ i, (namingOrder f)[i]? = some h → i < j)
      (hl : literalFor (names f) g = .ok l) : Below j l := by
    obtain ⟨i, hi⟩ := exists_number hg hneeds
    exact below_literalFor_named hi (hnumber g (mem_rightToLeft_self g) i hi) hl
  induction g generalizing l with
  | var a =>
    rw [literalFor, get?_names_eq_none rfl] at hl
    cases hl
    exact Or.inl ⟨a, (literal_text (.letter a)).2⟩
  | const b =>
    rw [literalFor, get?_names_eq_none rfl] at hl
    cases hl
    exact Or.inr (Or.inl ⟨b, rfl⟩)
  | neg g ih =>
    cases hneeds : needsName (.neg g) with
    | true => exact hnamed hg hneeds hnumber hl
    | false =>
      -- the literal of the leaf is turned round
      have hoperand := mem_rightToLeft_operand hg
      obtain ⟨x, hx, -⟩ := literalFor_names hoperand
      rw [literalFor, get?_names_eq_none hneeds, hx] at hl
      cases hl
      exact below_opposite (ih hoperand (fun h hh => hnumber h (List.mem_append_left _ hh)) hx)
  | bin op l r => exact hnamed hg rfl hnumber hl

/-- The operands of a named subformula have literals below its number. -/
theorem below_operand (hj : (namingOrder f)[j]? = some g) (hoperand : operand ∈ g.children)
    (hl : literalFor (names f) operand = .ok l) : Below j l := by
  have hg := (mem_namingOrder.mp (List.mem_of_getElem? hj)).1
  exact below_literalFor (mem_rightToLeft_of_mem_children hg hoperand)
    (fun h hh i hi => number_lt hj hoperand hh hi) hl

/-! ## Clauses of a definition -/

/-- A clause for a connective consists of a literal for each side, and of the name or its opposite
behind them. -/
theorem mem_defineBinary {op : Connective} (hc : c ∈ defineBinary name op x y) :
    ∃ u v k, c = [u, v, k] ∧ (∀ l ∈ [u, v], l ∈ [x, opposite x, y, opposite y]) ∧
      (k = name ∨ k = opposite name) := by
  cases op <;> simp only [defineBinary, List.mem_cons, List.not_mem_nil, or_false] at hc
  case iff =>
    rcases hc with rfl | rfl | rfl | rfl <;> exact ⟨_, _, _, rfl, by simp, by simp⟩
  all_goals
    subst hc
    exact ⟨_, _, _, rfl, by simp, by simp⟩

/-- A defining clause consists of the name or its opposite and of literals below its number. -/
theorem exists_perm_of_define (hj : (namingOrder f)[j]? = some g)
    (hcs : define (names f) (literal (auxiliary j)) g = .ok cs) (hc : c ∈ cs) :
    ∃ lows k, c.Perm (lows ++ [k]) ∧ k.name = auxiliary j ∧ ∀ l ∈ lows, Below j l := by
  have hname : (literal (auxiliary j)).name = auxiliary j := (literal_text (.named j)).2
  have hnot := name_opposite_auxiliary hname
  -- a negation is defined by two clauses, a connective by clauses with three literals
  rcases define_cases hj hcs with ⟨h, x, rfl, hx, -, rfl⟩ | ⟨op, l, r, x, y, rfl, hx, hy, -, -, rfl⟩
  · have hxbelow := below_operand hj (List.mem_singleton_self h) hx
    rcases List.mem_pair.mp hc with rfl | rfl
    · exact ⟨[opposite x], _, List.Perm.swap _ _ _, hnot, by simpa using below_opposite hxbelow⟩
    · exact ⟨[x], _, List.Perm.swap _ _ _, hname, by simpa using hxbelow⟩
  · have hxbelow := below_operand hj (List.mem_pair.mpr (Or.inl rfl)) hx
    have hybelow := below_operand hj (List.mem_pair.mpr (Or.inr rfl)) hy
    have hall : ∀ l ∈ [x, opposite x, y, opposite y], Below j l := by
      simp [hxbelow, hybelow, below_opposite]
    obtain ⟨u, v, k, rfl, hsides, hk⟩ := mem_defineBinary hc
    refine ⟨[u, v], k, List.Perm.refl _, ?_, fun l hl => hall l (hsides l hl)⟩
    rcases hk with rfl | rfl
    · exact hname
    · exact hnot

/-- Every definition has clauses. -/
theorem define_ne_nil (hj : (namingOrder f)[j]? = some g)
    (hcs : define (names f) (literal (auxiliary j)) g = .ok cs) : cs ≠ [] := by
  rcases define_cases hj hcs with ⟨h, x, -, -, -, rfl⟩ | ⟨op, l, r, x, y, -, -, -, -, -, rfl⟩
  · exact List.cons_ne_nil _ _
  · cases op <;> exact List.cons_ne_nil _ _

/-- A sorted clause of the definition with a number: the last literal is the name with this number
or its opposite, and all others are below it. -/
def Stratum (j : Nat) (c : Clause) : Prop :=
  ∃ others last, c = others ++ [last] ∧ last.name = auxiliary j ∧ ∀ l ∈ others, Below j l

theorem stratum_sortClause (hds : definitions f = .ok ds) (hj : ds[j]? = some d)
    (hc : c ∈ d.clauses) : Stratum j (sortClause c) := by
  obtain ⟨hformula, -, hdefine⟩ := getElem?_definitions hds hj
  obtain ⟨lows, k, hperm, hk, hlows⟩ := exists_perm_of_define hformula hdefine hc
  obtain ⟨others, heq, hothers⟩ := sortClause_of_below hperm hk hlows
  exact ⟨others, k, heq, hk, hothers⟩

/-! ## Clauses of all definitions -/

/-- The number of the name that stands last. -/
def lastNumber (c : Clause) : Nat :=
  ((c.getLast?).bind fun l => auxiliaryNumber? l.name).getD 0

theorem Stratum.lastNumber_eq (hc : Stratum j c) : lastNumber c = j := by
  obtain ⟨others, last, rfl, hlast, -⟩ := hc
  rw [lastNumber, List.getLast?_concat, Option.bind_some, hlast, auxiliaryNumber?_auxiliary]
  rfl

/-- The sorted clauses of all definitions stand in the order of their numbers. -/
theorem pairwise_lastNumber (hds : definitions f = .ok ds) :
    ((ds.flatMap (·.clauses)).map sortClause).Pairwise fun c c' =>
      lastNumber c ≤ lastNumber c' := by
  have hnumber {j : Nat} {d : Definition} (hj : ds[j]? = some d) {c : Clause}
      (hc : c ∈ d.clauses) : lastNumber (sortClause c) = j :=
    (stratum_sortClause hds hj hc).lastNumber_eq
  rw [List.pairwise_map, List.pairwise_flatMap]
  -- the numbers are equal within a definition, and grow from one definition to the next
  constructor
  · intro d hd
    obtain ⟨j, hj⟩ := List.mem_iff_getElem?.mp hd
    refine List.pairwise_of_forall_mem_list fun c hc c' hc' => ?_
    rw [hnumber hj hc, hnumber hj hc']
  · rw [List.pairwise_iff_getElem]
    intro i j hi hj hij c hc c' hc'
    rw [hnumber (List.getElem?_eq_getElem hi) hc, hnumber (List.getElem?_eq_getElem hj) hc']
    exact hij.le

theorem exists_definition (hc : c ∈ ds.flatMap (·.clauses)) :
    ∃ (j : Nat) (d : Definition), ds[j]? = some d ∧ c ∈ d.clauses := by
  obtain ⟨d, hd, hcd⟩ := List.mem_flatMap.mp hc
  obtain ⟨j, hj⟩ := List.mem_iff_getElem?.mp hd
  exact ⟨j, d, hj, hcd⟩

theorem mem_flatMap_of_getElem? (hj : ds[j]? = some d) (hc : c ∈ d.clauses) :
    c ∈ ds.flatMap (·.clauses) :=
  List.mem_flatMap.mpr ⟨d, List.mem_of_getElem? hj, hc⟩

/-- Clauses that are written alike come from the same definition. -/
theorem number_eq_of_clauseText_eq (hds : definitions f = .ok ds) {d' : Definition} {c' : Clause}
    (hi : ds[i]? = some d) (hj : ds[j]? = some d') (hc : c ∈ d.clauses) (hc' : c' ∈ d'.clauses)
    (htext : clauseText (sortClause c) = clauseText (sortClause c')) : i = j := by
  obtain ⟨hcanonical, hne⟩ := canonical_of_definitions hds
  have hmem := mem_flatMap_of_getElem? hi hc
  have hmem' := mem_flatMap_of_getElem? hj hc'
  have hsame : sortClause c = sortClause c' :=
    eq_of_clauseText_eq (fun l hl => hcanonical c hmem l (mem_sortClause.mp hl))
      (fun l hl => hcanonical c' hmem' l (mem_sortClause.mp hl)) (sortClause_ne_nil (hne c hmem))
      (sortClause_ne_nil (hne c' hmem')) htext
  rw [← (stratum_sortClause hds hi hc).lastNumber_eq, hsame,
    (stratum_sortClause hds hj hc').lastNumber_eq]

/-- The clauses that are kept, each with the number of its definition. -/
theorem exists_numbers (hds : definitions f = .ok ds) :
    ∃ numbers, List.Forall₂ (fun j c => Stratum j c ∧
        ∃ d : Definition, ds[j]? = some d ∧ ∃ c' ∈ d.clauses, c = sortClause c')
        numbers (deduplicate (ds.flatMap (·.clauses))) ∧
      numbers.Pairwise (· ≤ ·) ∧ ∀ j, j ∈ numbers ↔ j < ds.length := by
  obtain ⟨hcanonical, hne⟩ := canonical_of_definitions hds
  have hkept : ∀ c ∈ deduplicate (ds.flatMap (·.clauses)), Stratum (lastNumber c) c ∧
      ∃ d : Definition, ds[lastNumber c]? = some d ∧ ∃ c' ∈ d.clauses, c = sortClause c' := by
    intro c hc
    obtain ⟨c', hc', rfl⟩ := List.mem_map.mp (mem_of_mem_eraseDupsBy _ hc)
    obtain ⟨j, d, hj, hcd⟩ := exists_definition hc'
    have hstratum := stratum_sortClause hds hj hcd
    rw [hstratum.lastNumber_eq]
    exact ⟨hstratum, d, hj, c', hcd, rfl⟩
  -- a clause shows its number, so the row of numbers is read off the clauses
  refine ⟨(deduplicate (ds.flatMap (·.clauses))).map lastNumber, ?_, ?_, fun j => ?_⟩
  · rw [List.forall₂_map_left_iff]
    exact List.forall₂_same.mpr hkept
  · rw [List.pairwise_map]
    exact (pairwise_lastNumber hds).sublist (eraseDupsBy_sublist _ _)
  · constructor
    · intro hj
      obtain ⟨c, hc, rfl⟩ := List.mem_map.mp hj
      obtain ⟨-, d, hd, -⟩ := hkept c hc
      exact (List.getElem?_eq_some_iff.mp hd).1
    · intro hlt
      -- some clause of the definition is kept, and it has the number of the definition
      have hj := List.getElem?_eq_getElem hlt
      obtain ⟨hformula, -, hdefine⟩ := getElem?_definitions hds hj
      obtain ⟨c, hc⟩ := List.exists_mem_of_ne_nil _ (define_ne_nil hformula hdefine)
      refine List.mem_map.mpr ⟨sortClause c, ?_, (stratum_sortClause hds hj hc).lastNumber_eq⟩
      exact sortClause_mem_deduplicate hcanonical hne (mem_flatMap_of_getElem? hj hc)

/-- **The clauses of a formula are definitions in strata.**  Every formula has its clauses, and each
definition finds the names of its operands handed out before.  The names are `n0`, `n1`, …, one for
each subformula that is binary or the negation of something compound.  All clauses but the last
belong to a definition: sorted last in them is its name or the opposite, and the other literals are
about letters, constants and names with smaller numbers.  They stand in the order of the
definitions, each of which has one at least.  The last clause is the literal that stands for the
formula.  No two clauses of different definitions are written alike, so leaving out repetitions
never takes one for the other. -/
theorem definitions_stratified (f : Formula Letter) :
    ∃ e root defining, transform f = .ok e ∧ definitionsInTurn f = .ok e.definitions ∧
      e.definitions.map (·.name) = (List.range e.definitions.length).map auxiliary ∧
      (e.definitions.map (·.formula)).Nodup ∧
      (∀ g, g ∈ e.definitions.map (·.formula) ↔ (∃ p, f.at? p = some g) ∧
        ((∃ op l r, g = .bin op l r) ∨ ∃ h, g = .neg h ∧ h.isLeaf = false)) ∧
      e.clauses = defining ++ [[root]] ∧ literalFor (names f) f = .ok root ∧
      (∀ d ∈ e.definitions, d.formula = f → root = literal d.name) ∧
      (∃ numbers, List.Forall₂ (fun j c => Stratum j c ∧
          ∃ d : Definition, e.definitions[j]? = some d ∧ ∃ c' ∈ d.clauses, c = sortClause c')
          numbers defining ∧
        numbers.Pairwise (· ≤ ·) ∧ ∀ j, j ∈ numbers ↔ j < e.definitions.length) ∧
      ∀ (i j : Nat) (d d' : Definition), e.definitions[i]? = some d → e.definitions[j]? = some d' →
        ∀ c ∈ d.clauses, ∀ c' ∈ d'.clauses,
          clauseText (sortClause c) = clauseText (sortClause c') → i = j := by
  obtain ⟨e, root, htransform, hds, hroot, hclauses⟩ := transform_eq_ok f
  refine ⟨e, root, _, htransform, (definitionsInTurn_eq f).trans hds, map_name_definitions hds, ?_,
    fun g => ?_, hclauses, hroot, fun d hd hformula => ?_, exists_numbers hds,
    fun i j d d' hi hj c hc c' hc' => number_eq_of_clauseText_eq hds hi hj hc hc'⟩
  · rw [map_formula_definitions hds]
    exact nodup_namingOrder f
  · rw [map_formula_definitions hds, mem_namingOrder, mem_rightToLeft_iff_at?, needsName_iff]
  · obtain ⟨k, hk, hname, -⟩ := of_mem_definitions hds hd
    rw [hformula] at hk
    rw [literalFor_named hk] at hroot
    rw [hname]
    exact (Except.ok.inj hroot).symm

/-- In `(a∧b)↔¬(a∧b)` the conjunction is defined once, before its negation and the whole formula;
no clause of the negation is written like one of the whole formula. -/
theorem definitions_stratified_shared :
    let both : Formula Letter := .bin .and (.var ⟨'a', rfl⟩) (.var ⟨'b', rfl⟩)
    let f : Formula Letter := .bin .iff both (.neg both)
    ∃ e, transform f = .ok e ∧
      e.definitions.map (·.name) = [auxiliary 0, auxiliary 1, auxiliary 2] ∧
      e.definitions.map (·.formula) = [both, .neg both, f] ∧
      e.clauses.getLast? = some [literal (auxiliary 2)] ∧
      ∀ (d d' : Definition), e.definitions[1]? = some d → e.definitions[2]? = some d' →
        ∀ c ∈ d.clauses, ∀ c' ∈ d'.clauses,
          clauseText (sortClause c) ≠ clauseText (sortClause c') := by
  intro both f
  obtain ⟨e, root, defining, htransform, hturn, -, -, -, hclauses, hroot, -, -, hdistinct⟩ :=
    definitions_stratified f
  obtain ⟨ds, hds, hnames, hformulas⟩ : ∃ ds, definitionsInTurn f = .ok ds ∧
      ds.map (·.name) = [auxiliary 0, auxiliary 1, auxiliary 2] ∧
      ds.map (·.formula) = [both, .neg both, f] := ⟨_, rfl, rfl, rfl⟩
  have hlast : literalFor (names f) f = .ok (literal (auxiliary 2)) := rfl
  obtain rfl := Except.ok.inj (hds.symm.trans hturn)
  obtain rfl := Except.ok.inj (hlast.symm.trans hroot)
  refine ⟨e, htransform, hnames, hformulas, ?_, fun d d' hd hd' c hc c' hc' htext => ?_⟩
  · rw [hclauses, List.getLast?_concat]
  · exact absurd (hdistinct 1 2 d d' hd hd' c hc c' hc' htext) (by decide)

end Propositional.Tseytin
