import Propositional.Proofs.Tseytin.Extension

/-!
# Names are handed out from the bottom up

A definition speaks of the names of the sides of its formula.  When the names are handed out one
after another, and each definition is made as soon as its name is there, these names have been
handed out before: in the order of naming every formula stands behind its subformulas.  The
definitions so made are therefore those that are made with the names of the whole formula at hand.

* `Tseytin.ChildrenFirst`, `Tseytin.childrenFirst_rightToLeft` — children stand before parents;
* `Tseytin.literalFor_congr`, `Tseytin.define_congr` — a definition looks up nothing but what stands
  below its formula;
* `Tseytin.definitionsInTurn`, `Tseytin.definitionsInTurn_eq` — names and definitions in turn.
-/

namespace Propositional.Tseytin

variable {f g h c : Formula Letter} {xs ys : List (Formula Letter)}

/-! ## Children before parents -/

/-- In the list every formula stands behind its children. -/
inductive ChildrenFirst : List (Formula Letter) → Prop
  | nil : ChildrenFirst []
  | snoc {xs : List (Formula Letter)} {g : Formula Letter} (hxs : ChildrenFirst xs)
      (hg : ∀ c ∈ g.children, c ∈ xs) : ChildrenFirst (xs ++ [g])

namespace ChildrenFirst

theorem append (hxs : ChildrenFirst xs) (hys : ChildrenFirst ys) : ChildrenFirst (xs ++ ys) := by
  induction hys with
  | nil =>
    rw [List.append_nil]
    exact hxs
  | snoc _ hg ih =>
    rw [← List.append_assoc]
    exact .snoc ih fun c hc => List.mem_append_right _ (hg c hc)

/-- Such a list holds with a formula all its subformulas. -/
theorem mem_of_mem_rightToLeft (hxs : ChildrenFirst xs) (hg : g ∈ xs) (hh : h ∈ rightToLeft g) :
    h ∈ xs := by
  induction hxs generalizing g with
  | nil => cases hg
  | @snoc xs last _ hlast ih =>
    rcases List.mem_append.mp hg with hg | hg
    · exact List.mem_append_left _ (ih hg hh)
    · rw [List.mem_singleton] at hg
      subst hg
      rcases mem_rightToLeft_iff.mp hh with rfl | ⟨c, hc, hhc⟩
      · exact List.mem_append_right _ (List.mem_singleton_self h)
      · exact List.mem_append_left _ (ih (hlast c hc) hhc)

/-- Leaving out repetitions keeps the first of equal formulas, and so keeps children in front. -/
theorem eraseDups (hxs : ChildrenFirst xs) : ChildrenFirst xs.eraseDups := by
  induction hxs with
  | nil => exact .nil
  | @snoc xs g _ hg ih =>
    rw [List.eraseDups_append]
    by_cases hmem : g ∈ xs
    · have hnone : List.removeAll [g] xs = [] := by simp [List.removeAll, hmem]
      rw [hnone, List.eraseDups_nil, List.append_nil]
      exact ih
    · have hlast : List.removeAll [g] xs = [g] := by simp [List.removeAll, hmem]
      rw [hlast]
      exact .snoc ih fun c hc => List.mem_eraseDups.mpr (hg c hc)

end ChildrenFirst

/-- Subformulas are listed before the formulas they stand in. -/
theorem childrenFirst_rightToLeft (f : Formula Letter) : ChildrenFirst (rightToLeft f) := by
  induction f with
  | var a => exact .snoc .nil fun c hc => absurd hc List.not_mem_nil
  | const b => exact .snoc .nil fun c hc => absurd hc List.not_mem_nil
  | neg f ih =>
    refine .snoc ih fun c hc => ?_
    rw [Formula.children, List.mem_singleton] at hc
    exact hc ▸ mem_rightToLeft_self f
  | bin op l r ihl ihr =>
    rw [rightToLeft, ← List.append_assoc]
    refine .snoc (ihr.append ihl) fun c hc => ?_
    rw [Formula.children, List.mem_pair] at hc
    rcases hc with rfl | rfl
    · exact List.mem_append_right _ (mem_rightToLeft_self _)
    · exact List.mem_append_left _ (mem_rightToLeft_self _)

/-! ## Names in turn -/

/-- Every formula below the given one that gets a name stands in the list. -/
def Ready (before : List (Formula Letter)) (g : Formula Letter) : Prop :=
  ∀ c ∈ g.children, ∀ h ∈ rightToLeft c, needsName h = true → h ∈ before

/-- In the list every formula stands behind the formulas below it that get a name. -/
inductive InTurn : List (Formula Letter) → Prop
  | nil : InTurn []
  | snoc {xs : List (Formula Letter)} {g : Formula Letter} (hxs : InTurn xs) (hg : Ready xs g) :
      InTurn (xs ++ [g])

theorem ChildrenFirst.inTurn (hxs : ChildrenFirst xs) : InTurn (xs.filter needsName) := by
  induction hxs with
  | nil => exact .nil
  | @snoc xs g hxs hg ih =>
    rw [List.filter_append]
    by_cases hneeds : needsName g = true
    · rw [List.filter_singleton, hneeds]
      refine .snoc ih fun c hc h hh hname => ?_
      exact List.mem_filter.mpr ⟨hxs.mem_of_mem_rightToLeft (hg c hc) hh, hname⟩
    · rw [List.filter_singleton, Bool.eq_false_of_not_eq_true hneeds]
      simpa using ih

/-- So when a formula is defined, the names of its sides have been handed out. -/
theorem inTurn_namingOrder (f : Formula Letter) : InTurn (namingOrder f) :=
  (childrenFirst_rightToLeft f).eraseDups.inTurn

/-! ## Definitions in turn -/

/-- Equal names below a formula give it equal literals, unless it has a name itself. -/
theorem literalFor_congr {known known' : Names}
    (hsame : ∀ h ∈ rightToLeft g, known.get? h = known'.get? h) :
    literalFor known g = literalFor known' g := by
  induction g with
  | var a => rw [literalFor, literalFor, hsame _ (mem_rightToLeft_self _)]
  | const b => rw [literalFor, literalFor, hsame _ (mem_rightToLeft_self _)]
  | neg g ih =>
    have hoperand := ih fun h hh => hsame h (List.mem_append_left _ hh)
    rw [literalFor, literalFor, hsame _ (mem_rightToLeft_self _), hoperand]
  | bin op l r => rw [literalFor, literalFor, hsame _ (mem_rightToLeft_self _)]

/-- A definition looks up names of what stands below its formula only. -/
theorem define_congr {known known' : Names} (name : Literal)
    (hsame : ∀ c ∈ g.children, ∀ h ∈ rightToLeft c, known.get? h = known'.get? h) :
    define known name g = define known' name g := by
  cases g with
  | var a => rfl
  | const b => rfl
  | neg g => rw [define, define, literalFor_congr (hsame g (List.mem_singleton_self g))]
  | bin op l r =>
    rw [define, define, literalFor_congr (hsame l (List.mem_pair.mpr (Or.inl rfl))),
      literalFor_congr (hsame r (List.mem_pair.mpr (Or.inr rfl)))]

/-- Gives a formula the next name and defines it with the names handed out so far. -/
def handOut (state : Names × List Definition) (g : Formula Letter) :
    Except Error (Names × List Definition) :=
  let number := state.2.length
  let known := state.1.insert g (auxiliary number)
  match definitionOf known g number with
  | .ok d => .ok (known, state.2 ++ [d])
  | .error e => .error e

/-- The definitions of a formula, each made as soon as its name is handed out. -/
def definitionsInTurn (f : Formula Letter) : Except Error (List Definition) :=
  ((namingOrder f).foldlM handOut (.empty, [])).map Prod.snd

/-- The names handed out so far are those of the whole formula, as far as they go. -/
def KnownSoFar (f : Formula Letter) (xs : List (Formula Letter)) (known : Names) : Prop :=
  ∀ h, known.get? h = if h ∈ xs then (names f).get? h else none

/-- Below a formula whose turn it is, the names handed out so far are all there are. -/
theorem KnownSoFar.get?_below {known : Names} (hknown : KnownSoFar f (xs ++ [g]) known)
    (hready : Ready xs g) (hc : c ∈ g.children) (hh : h ∈ rightToLeft c) :
    known.get? h = (names f).get? h := by
  rw [hknown h]
  split
  · rfl
  · next hnew =>
    symm
    apply get?_names_eq_none
    by_contra hneeds
    exact hnew (List.mem_append_left _ (hready c hc h hh (Bool.eq_true_of_not_eq_false hneeds)))

/-- Handing out the names from the front makes the definitions that are made with all names. -/
theorem foldlM_handOut (hxs : InTurn xs) (hfront : xs <+: namingOrder f) :
    ∃ known ds, xs.foldlM handOut (.empty, []) = .ok (known, ds) ∧ KnownSoFar f xs known ∧
      (xs.zipIdx.mapM fun (g, number) => definitionOf (names f) g number) = .ok ds := by
  induction hxs with
  | nil => exact ⟨.empty, [], rfl, fun h => rfl, rfl⟩
  | @snoc xs g _ hready ih =>
    obtain ⟨known, ds, hfold, hknown, hds⟩ := ih ((List.prefix_append xs [g]).trans hfront)
    have hlength : ds.length = xs.length := by
      have hsame := (mapM_eq_ok_iff.mp hds).length_eq
      rw [List.length_zipIdx] at hsame
      exact hsame.symm
    have hk : (namingOrder f)[xs.length]? = some g := by
      obtain ⟨rest, hrest⟩ := hfront
      rw [← hrest, List.append_assoc, List.getElem?_append_right (Nat.le_refl _), Nat.sub_self]
      rfl
    -- the new name is the one that the formula has in the table of all names
    have hextended : KnownSoFar f (xs ++ [g]) (known.insert g (auxiliary ds.length)) := by
      intro h
      rw [Table.get?_insert, hknown h, hlength]
      by_cases hg : h = g
      · rw [hg, if_pos rfl, if_pos (List.mem_append_right xs (List.mem_singleton_self g))]
        exact (get?_names.mpr ⟨xs.length, hk, rfl⟩).symm
      · simp [hg]
    obtain ⟨cs, hd, -⟩ := definitionOf_names hk
    have hturn : definitionOf (known.insert g (auxiliary ds.length)) g ds.length =
        .ok ⟨auxiliary xs.length, g, cs⟩ := by
      rw [definitionOf, define_congr _ fun c hc h hh => hextended.get?_below hready hc hh, hlength]
      exact hd
    refine ⟨_, ds ++ [⟨auxiliary xs.length, g, cs⟩], ?_, hextended, ?_⟩
    · rw [List.foldlM_append, hfold]
      show List.foldlM handOut (known, ds) [g] = _
      rw [List.foldlM_cons, handOut, hturn]
      rfl
    · rw [List.zipIdx_append, List.zipIdx_singleton, Nat.zero_add]
      exact mapM_eq_ok_iff.mpr (List.rel_append (mapM_eq_ok_iff.mp hds) (.cons hd .nil))

/-- Handing out the names one after another, every definition finds the names that it needs. -/
theorem definitionsInTurn_eq (f : Formula Letter) : definitionsInTurn f = definitions f := by
  obtain ⟨known, ds, hfold, -, hds⟩ := foldlM_handOut (inTurn_namingOrder f) List.prefix_rfl
  rw [definitionsInTurn, hfold]
  exact hds.symm

end Propositional.Tseytin
