import Propositional.Proofs.Tseytin.Extension

/-!
# The order of literals in a clause

A clause is sorted by keys: letters and constants come before names, names by their numbers.  The
number of a name is read off its digits, so `n10` comes behind `n2`.  Among literals with smaller
numbers a name therefore comes last, whatever their signs are.

* `Text.decimal?_toDigits`, `Tseytin.auxiliaryNumber?_auxiliary` — the number of a name;
* `Tseytin.SortKey.before_trans`, `Tseytin.SortKey.before_total` — keys are ordered;
* `Tseytin.Below`                — literals about letters, constants and smaller numbers;
* `Tseytin.sortClause_of_below`  — the name with the greatest number is sorted last.
-/

namespace Propositional

/-! ## Numbers of names -/

namespace Text

theorem digitValue?_of_isDigit {c : Char} (hc : c.isDigit = true) :
    digitValue? c = some (c.toNat - '0'.toNat) := by
  have hrange : 0x30 ≤ c.toNat ∧ c.toNat < 0x30 + 10 := by
    simp only [Char.isDigit, Bool.and_eq_true, decide_eq_true_eq, UInt32.le_iff_toNat_le] at hc
    exact ⟨hc.1, Nat.lt_succ_of_le hc.2⟩
  -- the run of these digits is the first one
  have hfirst : (decide (0x30 ≤ c.toNat) && decide (c.toNat < 0x30 + 10)) = true := by
    simp [hrange]
  rw [digitValue?, zeros, List.find?_cons_of_pos (by exact hfirst)]
  rfl

/-- ASCII digits are read as what they write. -/
theorem decimalFrom?_of_isDigit {digits : List Char} (h : ∀ c ∈ digits, c.isDigit = true)
    (value : Nat) : decimalFrom? value digits = some (Nat.ofDigitChars 10 digits value) := by
  induction digits generalizing value with
  | nil => rw [decimalFrom?, Nat.ofDigitChars_nil]
  | cons c rest ih =>
    obtain ⟨hc, hrest⟩ := List.forall_mem_cons.mp h
    rw [decimalFrom?, digitValue?_of_isDigit hc, Option.bind_some, ih hrest, Nat.ofDigitChars_cons]

/-- The decimal digits of a number write it. -/
theorem decimal?_toDigits (k : Nat) : decimal? (Nat.toDigits 10 k) = some k := by
  have hdigits : ∀ c ∈ Nat.toDigits 10 k, c.isDigit = true := fun c hc =>
    Nat.isDigit_of_mem_toDigits (by decide) (by decide) hc
  rw [decimal?, if_neg (by simp [Nat.toDigits_ne_nil]), decimalFrom?_of_isDigit hdigits]
  simp

end Text

namespace Tseytin

theorem afterMark_auxiliary (k : Nat) : afterMark (auxiliary k) = Nat.toDigits 10 k := by
  have hlast : (Nat.toDigits 10 k).getLast? ≠ some '\n' := by
    intro hnewline
    have hdigit := Nat.isDigit_of_mem_toDigits (by decide) (by decide)
      (List.mem_of_getLast? hnewline)
    cases hdigit
  simp [afterMark, toList_auxiliary, hlast]

/-- The number of a name is read off it. -/
theorem auxiliaryNumber?_auxiliary (k : Nat) : auxiliaryNumber? (auxiliary k) = some k := by
  rw [auxiliaryNumber?, afterMark_auxiliary, Text.decimal?_toDigits]

/-- A single character has nothing behind a mark. -/
theorem afterMark_singleton (c : Char) : afterMark (String.ofList [c]) = [] := by
  rw [afterMark, String.toList_ofList]
  split
  · next rest hrest =>
    cases hrest
    rfl
  · rfl

/-- A single character is no name with a number. -/
theorem auxiliaryNumber?_singleton (c : Char) : auxiliaryNumber? (String.ofList [c]) = none := by
  rw [auxiliaryNumber?, afterMark_singleton]
  rfl

/-! ## The order of keys -/

namespace SortKey

variable {a b c : SortKey}

/-- Keys are compared by their group, the number, the base and the sign, in this order. -/
theorem before_iff :
    a.before b = true ↔
      a.group < b.group ∨ a.group = b.group ∧
        (a.number < b.number ∨ a.number = b.number ∧
          (a.base < b.base ∨ a.base = b.base ∧ (a.negated = true → b.negated = true))) := by
  unfold before
  -- the first component in which the keys differ decides
  split
  · next hgroup => simp [hgroup]
  split
  · next hgroup hnumber =>
    rw [not_not] at hgroup
    simp [hgroup, hnumber]
  split
  · next hgroup hnumber hbase =>
    rw [not_not] at hgroup hnumber
    simp [hgroup, hnumber, hbase]
  · next hgroup hnumber hbase =>
    rw [not_not] at hgroup hnumber hbase
    rw [hgroup, hnumber, hbase]
    cases a.negated <;> simp

/-- The order of the keys is transitive. -/
theorem before_trans (hab : a.before b = true) (hbc : b.before c = true) :
    a.before c = true := by
  -- component by component: what is strict in one of the two comparisons is strict in the result
  rw [before_iff] at *
  rcases hab with hab | ⟨hgroup, hab⟩
  · rcases hbc with hbc | ⟨hgroup, -⟩
    · exact Or.inl (Nat.lt_trans hab hbc)
    · exact Or.inl (hgroup ▸ hab)
  rcases hbc with hbc | ⟨hgroup', hbc⟩
  · exact Or.inl (hgroup ▸ hbc)
  refine Or.inr ⟨hgroup.trans hgroup', ?_⟩
  rcases hab with hab | ⟨hnumber, hab⟩
  · rcases hbc with hbc | ⟨hnumber, -⟩
    · exact Or.inl (Nat.lt_trans hab hbc)
    · exact Or.inl (hnumber ▸ hab)
  rcases hbc with hbc | ⟨hnumber', hbc⟩
  · exact Or.inl (hnumber ▸ hbc)
  refine Or.inr ⟨hnumber.trans hnumber', ?_⟩
  rcases hab with hab | ⟨hbase, hab⟩
  · rcases hbc with hbc | ⟨hbase, -⟩
    · exact Or.inl (String.lt_trans hab hbc)
    · exact Or.inl (hbase ▸ hab)
  rcases hbc with hbc | ⟨hbase', hbc⟩
  · exact Or.inl (hbase ▸ hbc)
  exact Or.inr ⟨hbase.trans hbase', fun hneg => hbc (hab hneg)⟩

/-- Of two keys one comes before the other. -/
theorem before_total (a b : SortKey) : (a.before b || b.before a) = true := by
  rw [Bool.or_eq_true, before_iff, before_iff]
  rcases Nat.lt_trichotomy a.group b.group with hlt | hgroup | hgt
  · exact Or.inl (Or.inl hlt)
  · rcases Nat.lt_trichotomy a.number b.number with hlt | hnumber | hgt
    · exact Or.inl (Or.inr ⟨hgroup, Or.inl hlt⟩)
    · by_cases hlt : a.base < b.base
      · exact Or.inl (Or.inr ⟨hgroup, Or.inr ⟨hnumber, Or.inl hlt⟩⟩)
      by_cases hgt : b.base < a.base
      · exact Or.inr (Or.inr ⟨hgroup.symm, Or.inr ⟨hnumber.symm, Or.inl hgt⟩⟩)
      have hbase : a.base = b.base :=
        String.le_antisymm (String.not_lt.mp hgt) (String.not_lt.mp hlt)
      cases hneg : a.negated with
      | false => exact Or.inl (Or.inr ⟨hgroup, Or.inr ⟨hnumber, Or.inr ⟨hbase, nofun⟩⟩⟩)
      | true =>
        exact Or.inr
          (Or.inr ⟨hgroup.symm, Or.inr ⟨hnumber.symm, Or.inr ⟨hbase.symm, fun _ => rfl⟩⟩⟩)
    · exact Or.inr (Or.inr ⟨hgroup.symm, Or.inl hgt⟩)
  · exact Or.inr (Or.inl hgt)

end SortKey

/-! ## The last literal -/

variable {c lows : Clause} {j : Nat} {k l : Literal}

/-- A sorted clause has its literals in the order of their keys. -/
theorem pairwise_sortClause (c : Clause) :
    (sortClause c).Pairwise fun l m => (sortKey l).before (sortKey m) = true :=
  @List.pairwise_mergeSort _ (fun l m : Literal => (sortKey l).before (sortKey m))
    (fun _ _ _ => SortKey.before_trans) (fun _ _ => SortKey.before_total _ _) c

/-- Where a literal comes behind all others, it is the last one of the sorted clause. -/
theorem exists_sortClause_eq_append (hperm : c.Perm (lows ++ [k]))
    (hlast : ∀ l ∈ lows, (sortKey k).before (sortKey l) = false) :
    ∃ others, sortClause c = others ++ [k] ∧ others.Perm lows := by
  have hsorted := pairwise_sortClause c
  have hperm' : (sortClause c).Perm (lows ++ [k]) := (List.mergeSort_perm c _).trans hperm
  have hmem : k ∈ sortClause c :=
    hperm'.mem_iff.mpr (List.mem_append_right _ (List.mem_singleton_self k))
  obtain ⟨others, behind, heq⟩ := List.append_of_mem hmem
  rw [heq] at hsorted hperm'
  -- what stands behind it is one of the others, and would have to come before it
  have hrest : (others ++ behind).Perm lows := by
    have hcons : (k :: (others ++ behind)).Perm (k :: lows) :=
      List.perm_middle.symm.trans (hperm'.trans (List.perm_append_singleton k lows))
    exact hcons.cons_inv
  have hnone : behind = [] := by
    rw [List.eq_nil_iff_forall_not_mem]
    intro l hl
    have hbefore := List.rel_of_pairwise_cons (List.pairwise_append.mp hsorted).2.1 hl
    rw [hlast l (hrest.mem_iff.mp (List.mem_append_right _ hl))] at hbefore
    cases hbefore
  subst hnone
  exact ⟨others, heq, (List.append_nil others) ▸ hrest⟩

/-- The literal is about a letter or about a name with a smaller number than the given one, or it is
a constant. -/
def Below (j : Nat) (l : Literal) : Prop :=
  (∃ a : Letter, l.name = a.name) ∨ (∃ b, l = literal (constantName b)) ∨
    ∃ i < j, l.name = auxiliary i

theorem sortKey_auxiliary (hk : k.name = auxiliary j) : sortKey k = ⟨1, j, "", k.negated⟩ := by
  rw [sortKey, hk, auxiliaryNumber?_auxiliary]

/-- A name does not come before literals below its number. -/
theorem not_before_of_below (hk : k.name = auxiliary j) (hl : Below j l) :
    (sortKey k).before (sortKey l) = false := by
  rw [sortKey_auxiliary hk]
  have hplain {c : Char} (hname : l.name = String.ofList [c]) :
      (SortKey.mk 1 j "" k.negated).before (sortKey l) = false := by
    rw [sortKey, hname, auxiliaryNumber?_singleton]
    rfl
  rcases hl with ⟨a, ha⟩ | ⟨b, rfl⟩ | ⟨i, hij, hi⟩
  · exact hplain ha
  · exact hplain (literal_text (.constant b)).2
  · rw [sortKey_auxiliary hi]
    have hne : j ≠ i := by omega
    simp [SortKey.before, hne]
    omega

/-- Among literals below its number a name is sorted last. -/
theorem sortClause_of_below (hperm : c.Perm (lows ++ [k])) (hk : k.name = auxiliary j)
    (hlows : ∀ l ∈ lows, Below j l) :
    ∃ others, sortClause c = others ++ [k] ∧ ∀ l ∈ others, Below j l := by
  obtain ⟨others, heq, hothers⟩ :=
    exists_sortClause_eq_append hperm fun l hl => not_before_of_below hk (hlows l hl)
  exact ⟨others, heq, fun l hl => hlows l (hothers.mem_iff.mp hl)⟩

end Tseytin

end Propositional
