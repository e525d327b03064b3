import Mathlib.Data.Finset.Dedup
import Mathlib.Data.Nat.Bits
import Mathlib.Data.Nat.Digits.Defs
import Propositional.Proofs.Counting

/-!
# How often a valuation comes up among the rows

The row of a number gives the name at a place the binary digit at that place.  Taking the first name
away takes the last digit of the number away, so rows are compared with valuations by induction on
the names.  A name that comes again further back is overwritten there.  Its first digit then counts
for nothing, and every valuation comes up twice as often.  A new name fixes the last digit.

* `Assignment.keys_row`, `Assignment.get?_row_cons` — the names of a row, and their values;
* `Assignment.countP_row`     — how many numbers have a row with given values;
* `Assignment.ofDigits_row`   — with distinct names a row writes its number in binary digits;
* `Assignment.all_uniform`    — the main result.
-/

namespace Propositional

/-- Half of the numbers below an even bound end in either digit. -/
theorem countP_range_two_mul (p : Nat → Bool) (m : Nat) :
    (List.range (2 * m)).countP p =
      (List.range m).countP (fun i => p (Nat.bit false i)) +
        (List.range m).countP fun i => p (Nat.bit true i) := by
  induction m with
  | zero => rfl
  | succ m ih =>
    have hbound : 2 * (m + 1) = 2 * m + 1 + 1 := by omega
    rw [hbound, List.range_succ, List.range_succ, List.range_succ]
    simp only [List.countP_append, List.countP_singleton, ih, Nat.bit_false_apply,
      Nat.bit_true_apply]
    omega

namespace Assignment

variable {κ : Type} [DecidableEq κ] {names : List κ} {a : κ} {v : κ → Bool} {number : Nat}

/-! ## Rows -/

/-- A row lists the names, each where it comes first. -/
theorem keys_row (names : List κ) (number : Nat) : (row names number).keys = names.eraseDups := by
  have hfirst : (names.zipIdx.map fun p => (p.1, number.testBit p.2)).map Prod.fst = names := by
    rw [List.map_map]
    show names.zipIdx.map Prod.fst = names
    exact List.zipIdx_map_fst 0 names
  show (Table.ofList (names.zipIdx.map fun p => (p.1, number.testBit p.2))).keys = _
  rw [Table.keys_ofList, hfirst]

/-- A row gives a value to its names and to nothing else. -/
theorem isSome_get?_row : ((row names number).get? a).isSome = true ↔ a ∈ names := by
  rw [Table.isSome_get?_iff, keys_row, List.mem_eraseDups]

/-- The first name has the last digit, unless it comes again; the other names have their values in
the row of the digits before it. -/
theorem get?_row_cons (a : κ) (names : List κ) (digit : Bool) (number : Nat) (k : κ) :
    (row (a :: names) (Nat.bit digit number)).get? k =
      ((row names number).get? k).or (if k = a then some digit else none) := by
  have hentries : ((a :: names).zipIdx.map fun p => (p.1, (Nat.bit digit number).testBit p.2)) =
      (a, digit) :: names.zipIdx.map fun p => (p.1, number.testBit p.2) := by
    rw [List.zipIdx_cons', List.map_cons, List.map_map]
    simp [Function.comp_def, Nat.testBit_bit_succ]
  show (Table.ofList ((a :: names).zipIdx.map fun p =>
      (p.1, (Nat.bit digit number).testBit p.2))).get? k =
    ((Table.ofList (names.zipIdx.map fun p => (p.1, number.testBit p.2))).get? k).or _
  rw [hentries, Table.get?_ofList, Table.get?_ofList, List.reverse_cons, List.lookup_append]
  by_cases hk : k = a
  · simp [hk]
  · have hb : (k == a) = false := by simpa using hk
    simp [hk, hb, List.lookup_cons]

theorem get?_row_cons_of_mem {k : κ} (hk : k ∈ names) (digit : Bool) :
    (row (a :: names) (Nat.bit digit number)).get? k = (row names number).get? k := by
  rw [get?_row_cons, Option.or_of_isSome (isSome_get?_row.mpr hk)]

theorem get?_row_cons_self (ha : a ∉ names) (digit : Bool) :
    (row (a :: names) (Nat.bit digit number)).get? a = some digit := by
  have hnone : (row names number).get? a = none := by
    rw [← Option.not_isSome_iff_eq_none, isSome_get?_row]
    exact ha
  rw [get?_row_cons, hnone, Option.none_or, if_pos rfl]

/-! ## Counting rows -/

/-- A row has given values when the row without the first name has them and the last digit is the
value of the first name, where this name does not come again. -/
theorem row_cons_agrees_iff {digit : Bool} :
    (∀ b ∈ a :: names, (row (a :: names) (Nat.bit digit number)).get? b = some (v b)) ↔
      (∀ b ∈ names, (row names number).get? b = some (v b)) ∧ (a ∈ names ∨ digit = v a) := by
  have hrest : (∀ b ∈ names, (row (a :: names) (Nat.bit digit number)).get? b = some (v b)) ↔
      ∀ b ∈ names, (row names number).get? b = some (v b) :=
    forall₂_congr fun b hb => by rw [get?_row_cons_of_mem hb]
  rw [List.forall_mem_cons, hrest]
  by_cases ha : a ∈ names
  · -- the first name is overwritten, so its value is that of a later place
    rw [get?_row_cons_of_mem ha]
    exact ⟨fun h => ⟨h.2, Or.inl ha⟩, fun h => ⟨h.1 a ha, h.1⟩⟩
  · rw [get?_row_cons_self ha, Option.some.injEq, and_comm]
    simp [ha]

/-- Of the rows of all numbers with as many digits as there are names, those with given values are
as many as the places at which a name is overwritten leave open. -/
theorem countP_row (names : List κ) (v : κ → Bool) :
    (List.range (2 ^ names.length)).countP
        (fun number => ∀ a ∈ names, (row names number).get? a = some (v a)) =
      2 ^ (names.length - names.toFinset.card) := by
  induction names with
  | nil => simp
  | cons a names ih =>
    have hcard : names.toFinset.card ≤ names.length := List.toFinset_card_le names
    -- the numbers that end in a digit: all of them are open, or none when the digit is not right
    have hdigit : ∀ digit : Bool, (List.range (2 ^ names.length)).countP (fun number =>
          ∀ b ∈ a :: names, (row (a :: names) (Nat.bit digit number)).get? b = some (v b)) =
        if a ∈ names ∨ digit = v a then 2 ^ (names.length - names.toFinset.card) else 0 := by
      intro digit
      simp only [row_cons_agrees_iff]
      by_cases hright : a ∈ names ∨ digit = v a
      · simp only [hright, and_true, if_true]
        exact ih
      · simp [hright]
    rw [List.length_cons, Nat.pow_succ', countP_range_two_mul, hdigit, hdigit]
    by_cases ha : a ∈ names
    · -- the digit is overwritten, so both halves count
      have hsame : (a :: names).toFinset.card = names.toFinset.card := by
        rw [List.toFinset_cons, Finset.insert_eq_of_mem (List.mem_toFinset.mpr ha)]
      have hexponent : names.length + 1 - names.toFinset.card =
          names.length - names.toFinset.card + 1 := by omega
      rw [hsame, hexponent, Nat.pow_succ]
      simp only [ha, true_or, if_true]
      omega
    · -- the digit has to be the value of the new name, so one half counts
      have hnew : (a :: names).toFinset.card = names.toFinset.card + 1 := by
        rw [List.toFinset_cons, Finset.card_insert_of_notMem (mt List.mem_toFinset.mp ha)]
      have hexponent : names.length + 1 - (names.toFinset.card + 1) =
          names.length - names.toFinset.card := by omega
      rw [hnew, hexponent]
      cases hv : v a <;> simp [ha]

/-! ## Rows as binary digits -/

/-- With distinct names, the values of a row are the binary digits of its number. -/
theorem ofDigits_row (hnodup : names.Nodup) (hnumber : number < 2 ^ names.length) :
    Nat.ofDigits 2 (names.map fun a => ((row names number).value a).toNat) = number := by
  induction names generalizing number with
  | nil =>
    have hzero : number = 0 := by simpa using hnumber
    rw [hzero]
    rfl
  | cons a names ih =>
    obtain ⟨hnew, hrest⟩ := List.nodup_cons.mp hnodup
    -- the least significant digit belongs to the first name, the others to the other names
    cases number using Nat.bitCasesOn with
    | bit digit number =>
      have hvalues : ∀ b ∈ names, ((row (a :: names) (Nat.bit digit number)).value b).toNat =
          ((row names number).value b).toNat := by
        intro b hb
        rw [value, value, get?_row_cons_of_mem hb]
      rw [List.length_cons, Nat.bit_lt_two_pow_succ_iff] at hnumber
      rw [List.map_cons, Nat.ofDigits_cons, List.map_congr_left hvalues, ih hrest hnumber, value,
        get?_row_cons_self hnew, Option.getD_some, Nat.bit_val]
      exact Nat.add_comm _ _

/-! ## All rows -/

/-- The assignments are the rows with the numbers below `2 ^ n`. -/
theorem mem_all {s : Assignment κ} :
    s ∈ all names ↔ ∃ number < 2 ^ names.length, row names number = s := by
  simp only [all, List.mem_map, List.mem_range]
  rfl

theorem getElem?_all (h : number < 2 ^ names.length) :
    (all names)[number]? = some (row names number) := by
  have hrange : (List.range (Nat.pow 2 names.length))[number]? = some number :=
    List.getElem?_range h
  rw [all, List.getElem?_map, hrange, Option.map_some]

/-- **The enumeration is uniform.**  For `n` names it has `2ⁿ` rows.  A row gives a value to each of
the names and to nothing else.  With `d` distinct names, any values for them come up in exactly
`2ⁿ⁻ᵈ` of the rows.  When no name is repeated, the row at a place is the one whose values are the
binary digits of the place, the first name having the least significant one. -/
theorem all_uniform (names : List κ) :
    (all names).length = 2 ^ names.length ∧
      (∀ s ∈ all names, s.keys = names.eraseDups) ∧
      (∀ v : κ → Bool,
        (all names).countP (fun s => s.entries = names.eraseDups.map fun a => (a, v a)) =
          2 ^ (names.length - names.toFinset.card)) ∧
      (names.Nodup → ∀ (place : Nat) (s : Assignment κ), (all names)[place]? = some s ↔
        s ∈ all names ∧ Nat.ofDigits 2 (names.map fun a => (s.value a).toNat) = place) := by
  refine ⟨length_all names, ?_, ?_, ?_⟩
  · intro s hs
    obtain ⟨number, -, rfl⟩ := mem_all.mp hs
    exact keys_row names number
  · intro v
    -- an assignment is that of `v` when it has the values of `v` on the names
    have hvalues : ∀ number : Nat,
        (row names number).entries = names.eraseDups.map (fun a => (a, v a)) ↔
          ∀ a ∈ names, (row names number).get? a = some (v a) := by
      intro number
      rw [← keys_row names number, Table.entries_eq_map_iff, keys_row]
      simp only [List.mem_eraseDups]
    rw [← countP_row names v, all, List.countP_map]
    refine List.countP_congr fun number _ => ?_
    simp only [Function.comp_apply, decide_eq_true_eq]
    exact hvalues number
  · intro hnodup place s
    constructor
    · intro hrow
      obtain ⟨hplace, -⟩ := List.getElem?_eq_some_iff.mp hrow
      rw [length_all] at hplace
      obtain rfl : row names place = s := Option.some.inj ((getElem?_all hplace).symm.trans hrow)
      exact ⟨mem_all.mpr ⟨place, hplace, rfl⟩, ofDigits_row hnodup hplace⟩
    · rintro ⟨hs, hdigits⟩
      obtain ⟨number, hnumber, rfl⟩ := mem_all.mp hs
      obtain rfl : number = place := (ofDigits_row hnodup hnumber).symm.trans hdigits
      exact getElem?_all hnumber

/-- With one of three names repeated, the values `a` true and `b` false come up in two rows of
eight.  The row at place six gives the first of three names false and the others true. -/
theorem all_uniform_three_names :
    (all ["a", "b", "a"]).countP (fun s => s.entries = [("a", true), ("b", false)]) = 2 ∧
      ["a", "b", "c"].Nodup ∧
      ∃ s, (all ["a", "b", "c"])[6]? = some s ∧
        s.entries = [("a", false), ("b", true), ("c", true)] := by
  have hnodup : ["a", "b", "c"].Nodup := by decide
  have hmem : row ["a", "b", "c"] 6 ∈ all ["a", "b", "c"] := mem_all.mpr ⟨6, by decide, rfl⟩
  have hrow := ((all_uniform ["a", "b", "c"]).2.2.2 hnodup 6 (row ["a", "b", "c"] 6)).mpr
    ⟨hmem, by decide⟩
  exact ⟨(all_uniform ["a", "b", "a"]).2.2.1 fun name => name = "a", hnodup, _, hrow, by decide⟩

end Assignment

end Propositional
