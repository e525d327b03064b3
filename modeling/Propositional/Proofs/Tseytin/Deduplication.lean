import Mathlib.Algebra.Group.Nat.Defs
import Propositional.Proofs.Tseytin.LiteralOrder
import Propositional.Proofs.Tseytin.Sufficiency

/-!
# Sorted clauses without repetition

The keys by which a clause is sorted are compared in four parts.  Among literals about letters,
constants and numbered names they amount to one strict order: what is written with a single
character stands in alphabetical order before the names, these stand in the order of their numbers,
and a literal stands before its negation.  Different literals have different keys, so a sorted
clause depends only on which literals it has, and how often.

Repetitions are found by comparing texts.  No literal is written with a comma or with nothing at
all, so clauses with the same text are the same clause, and what is left out repeats a clause up to
the order of its literals.

A number is read before it is compared.  One with too many digits is refused, so nothing is sorted
then.

* `Tseytin.Precedes`, `Tseytin.eq_or_precedes` — the order of literals, and sorting by it;
* `Tseytin.sortClause_eq_iff`  — clauses are sorted alike when they have the same literals;
* `Tseytin.clauseText_eq_iff`  — clauses are written alike when they are the same;
* `Tseytin.deduplicate_eq`     — repetitions are those of sorted clauses;
* `Tseytin.IsReduction`, `Tseytin.isReduction_deduplicate` — what is left without repetitions;
* `Tseytin.sortAll_eq_ok`, `Tseytin.sortAll_eq_error_iff` — which numbers can be read;
* `Tseytin.deduplicate_exact`  — the main result.
-/

namespace Propositional.Tseytin

variable {l m : Literal} {c d : Clause} {clauses : List Clause} {s t : Subject}

/-! ## The order of literals -/

namespace Subject

/-- The strict order of what literals are about: letters and constants in alphabetical order, then
names in the order of their numbers. -/
def Precedes : Subject → Subject → Prop
  | named j, named k => j < k
  | named _, _ => False
  | _, named _ => True
  | s, t => s.text < t.text

theorem Precedes.asymm (h : s.Precedes t) : ¬ t.Precedes s := by
  cases s with
  | named j =>
    cases t with
    | named k => exact Nat.lt_asymm h
    | letter a => cases h
    | constant b => cases h
  | letter a =>
    cases t with
    | named k => exact id
    | letter a' => exact String.lt_asymm h
    | constant b => exact String.lt_asymm h
  | constant b =>
    cases t with
    | named k => exact id
    | letter a => exact String.lt_asymm h
    | constant b' => exact String.lt_asymm h

/-- The key of a literal about a subject. -/
def key (negated : Bool) : Subject → SortKey
  | named k => ⟨1, k, "", negated⟩
  | s => ⟨0, 0, s.text, negated⟩

end Subject

/-- The strict order of literals: that of what they are about, a literal before its negation. -/
def Precedes (l m : Literal) : Prop :=
  ∃ s t : Subject, l.name = s.text ∧ m.name = t.text ∧
    (s.Precedes t ∨ s = t ∧ l.negated = false ∧ m.negated = true)

theorem Precedes.asymm (h : Precedes l m) : ¬ Precedes m l := by
  rintro ⟨t', s', ht', hs', hback⟩
  obtain ⟨s, t, hs, ht, hbefore⟩ := h
  -- a name is the name of one subject only
  obtain rfl := Subject.text_injective (hs.symm.trans hs')
  obtain rfl := Subject.text_injective (ht.symm.trans ht')
  rcases hbefore with hbefore | ⟨rfl, hl, hm⟩
  · rcases hback with hback | ⟨rfl, -, -⟩
    · exact hbefore.asymm hback
    · exact hbefore.asymm hbefore
  · rcases hback with hback | ⟨-, hm', -⟩
    · exact hback.asymm hback
    · rw [hm] at hm'
      cases hm'

/-- The key of a literal is computed from its name as the key of what the name is for. -/
theorem sortKey_eq_key (hs : l.name = s.text) : sortKey l = s.key l.negated := by
  cases s with
  | letter a => rw [sortKey, hs, Subject.text, Letter.name, auxiliaryNumber?_singleton]; rfl
  | constant b => rw [sortKey, hs, Subject.text, constantName, auxiliaryNumber?_singleton]; rfl
  | named k => exact sortKey_auxiliary hs

/-- What comes first by its key is about what comes first, or about the same. -/
theorem Subject.precedes_of_before {x y : Bool} (h : (s.key x).before (t.key y) = true) :
    s.Precedes t ∨ s = t ∧ (x = true → y = true) := by
  rw [SortKey.before_iff] at h
  -- names go by their numbers, the others by their texts, and the others come first
  cases s with
  | named j =>
    cases t with
    | named k => simpa [key, Precedes] using h
    | letter a => simp [key] at h
    | constant b => simp [key] at h
  | letter a =>
    cases t with
    | named k => exact Or.inl trivial
    | letter a' => simpa [key, Precedes, text_injective.eq_iff] using h
    | constant b => simpa [key, Precedes, text_injective.eq_iff] using h
  | constant b =>
    cases t with
    | named k => exact Or.inl trivial
    | letter a => simpa [key, Precedes, text_injective.eq_iff] using h
    | constant b' => simpa [key, Precedes, text_injective.eq_iff] using h

/-- A literal that comes first by its key is the same or comes first in the strict order. -/
theorem eq_or_precedes (hl : Canonical l) (hm : Canonical m)
    (h : (sortKey l).before (sortKey m) = true) : l = m ∨ Precedes l m := by
  obtain ⟨s, hs⟩ := hl
  obtain ⟨t, ht⟩ := hm
  rw [sortKey_eq_key hs, sortKey_eq_key ht] at h
  rcases Subject.precedes_of_before h with hst | ⟨rfl, hsign⟩
  · exact Or.inr ⟨s, t, hs, ht, Or.inl hst⟩
  · -- about the same subject, the signs decide
    by_cases hsame : l.negated = m.negated
    · exact Or.inl (Signed.ext hsame (hs.trans ht.symm))
    · right
      refine ⟨s, s, hs, ht, Or.inr ⟨rfl, ?_⟩⟩
      cases hneg : l.negated <;> cases hneg' : m.negated <;> simp_all

/-! ## Sorting -/

/-- Sorting rearranges a clause. -/
theorem sortClause_perm (c : Clause) : (sortClause c).Perm c :=
  List.mergeSort_perm c _

/-- A sorted clause is in strict order, but for literals that it has more than once. -/
theorem pairwise_precedes_sortClause (hc : ∀ l ∈ c, Canonical l) :
    (sortClause c).Pairwise fun l m => l = m ∨ Precedes l m := by
  refine (pairwise_sortClause c).imp_of_mem fun hl hm h => ?_
  exact eq_or_precedes (hc _ (mem_sortClause.mp hl)) (hc _ (mem_sortClause.mp hm)) h

/-- Clauses are sorted alike when they have the same literals. -/
theorem sortClause_eq_iff (hc : ∀ l ∈ c, Canonical l) (hd : ∀ l ∈ d, Canonical l) :
    sortClause c = sortClause d ↔ c.Perm d := by
  constructor
  · intro h
    exact (sortClause_perm c).symm.trans (h ▸ sortClause_perm d)
  · intro h
    have hperm : (sortClause c).Perm (sortClause d) :=
      (sortClause_perm c).trans (h.trans (sortClause_perm d).symm)
    -- rows in one strict order that have the same elements are equal
    refine hperm.eq_of_pairwise ?_ (pairwise_precedes_sortClause hc)
      (pairwise_precedes_sortClause hd)
    rintro l m - - (rfl | hlm) hml
    · rfl
    · exact (hml.resolve_right hlm.asymm).symm

/-- A sorted clause stays as it is. -/
theorem sortClause_sortClause (hc : ∀ l ∈ c, Canonical l) :
    sortClause (sortClause c) = sortClause c :=
  (sortClause_eq_iff (fun l hl => hc l (mem_sortClause.mp hl)) hc).mpr (sortClause_perm c)

/-! ## Clauses that are written alike -/

theorem Subject.text_ne_empty (s : Subject) : s.text ≠ "" := by
  intro hempty
  have hchars := congrArg String.toList hempty
  cases s with
  | letter a => simp [text, Letter.name] at hchars
  | constant b => simp [text, constantName] at hchars
  | named k =>
    rw [text, toList_auxiliary] at hchars
    cases hchars

theorem text_ne_empty (hl : Canonical l) : l.text ≠ "" := by
  obtain ⟨s, hs⟩ := hl
  rw [Signed.text]
  split
  · intro hempty
    have hchars := congrArg String.toList hempty
    simp at hchars
  · rw [hs]
    exact s.text_ne_empty

/-- Only the clause without literals has the empty text. -/
theorem clauseText_ne_empty (hc : ∀ l ∈ c, Canonical l) (hne : c ≠ []) : clauseText c ≠ "" := by
  intro hempty
  have hchars := congrArg String.toList hempty
  rw [toList_clauseText] at hchars
  cases c with
  | nil => exact hne rfl
  | cons l rest =>
    have htext : l.text.toList ≠ [] := by
      rw [Ne, String.toList_eq_nil_iff]
      exact text_ne_empty (hc l List.mem_cons_self)
    cases rest with
    | nil =>
      rw [List.map_singleton, List.intercalate_singleton] at hchars
      exact htext hchars
    | cons m rest =>
      rw [List.map_cons, List.map_cons, List.intercalate_cons_cons] at hchars
      simp at hchars

/-- Clauses are written alike when they are the same. -/
theorem clauseText_eq_iff (hc : ∀ l ∈ c, Canonical l) (hd : ∀ l ∈ d, Canonical l) :
    clauseText c = clauseText d ↔ c = d := by
  refine ⟨fun h => ?_, fun h => h ▸ rfl⟩
  by_cases hcne : c = []
  · subst hcne
    by_contra hne
    exact clauseText_ne_empty hd (Ne.symm hne) h.symm
  by_cases hdne : d = []
  · subst hdne
    exact absurd h (clauseText_ne_empty hc hcne)
  exact eq_of_clauseText_eq hc hd hcne hdne h

/-! ## Leaving out repetitions -/

/-- Clauses with the same text are the same, so what is left out are repetitions of sorted
clauses. -/
theorem deduplicate_eq (h : ∀ c ∈ clauses, ∀ l ∈ c, Canonical l) :
    deduplicate clauses = (clauses.map sortClause).eraseDups := by
  have hsorted : ∀ d ∈ clauses.map sortClause, ∀ l ∈ d, Canonical l := by
    intro d hd l hl
    obtain ⟨c, hc, rfl⟩ := List.mem_map.mp hd
    exact h c hc l (mem_sortClause.mp hl)
  rw [deduplicate]
  apply eraseDupsBy_eq_eraseDups
  intro c hc d hd
  rw [beq_iff_eq]
  exact clauseText_eq_iff (hsorted c hc) (hsorted d hd)

/-- The place at which a clause comes first, its literals in any order. -/
def firstPlace (clauses : List Clause) (d : Clause) : Nat :=
  clauses.findIdx fun c => c.Perm d

theorem idxOf_sortClause (h : ∀ c ∈ clauses, ∀ l ∈ c, Canonical l) (hd : ∀ l ∈ d, Canonical l) :
    (clauses.map sortClause).idxOf (sortClause d) = firstPlace clauses (sortClause d) := by
  rw [List.idxOf, List.findIdx_map]
  refine findIdx_congr fun c hc => ?_
  rw [Function.comp_apply, Bool.eq_iff_iff, beq_iff_eq, decide_eq_true_eq,
    sortClause_eq_iff (h c hc) hd]
  exact ⟨fun hperm => hperm.trans (sortClause_perm d).symm,
    fun hperm => hperm.trans (sortClause_perm d)⟩

/-- Clauses that others come down to when the order of literals does not count. -/
structure IsReduction (result clauses : List Clause) : Prop where
  -- What is left are sorted clauses, in strict order but for repeated literals.
  given : ∀ d ∈ result, ∃ c ∈ clauses, d = sortClause c
  sorted : ∀ d ∈ result, d.Pairwise fun l m => l = m ∨ Precedes l m
  -- Every clause has the literals of one that is left, and of no other.
  covered : ∀ c ∈ clauses, ∃! d, d ∈ result ∧ c.Perm d
  distinct : result.Pairwise fun d e => ¬ d.Perm e
  -- What is left stands in the order in which it came first.
  inOrder : result.Pairwise fun d e => firstPlace clauses d < firstPlace clauses e

/-- Leaving out repetitions keeps one of every clause, in the order of the first ones. -/
theorem isReduction_deduplicate (h : ∀ c ∈ clauses, ∀ l ∈ c, Canonical l) :
    IsReduction (deduplicate clauses) clauses := by
  have hmem : ∀ {d}, d ∈ deduplicate clauses ↔ ∃ c ∈ clauses, sortClause c = d := by
    intro d
    rw [deduplicate_eq h, List.mem_eraseDups, List.mem_map]
  -- what is left is sorted, so rearrangements of each other are equal
  have hsame : ∀ {d e}, d ∈ deduplicate clauses → e ∈ deduplicate clauses → d.Perm e → d = e := by
    intro d e hd he hperm
    obtain ⟨c, hc, rfl⟩ := hmem.mp hd
    obtain ⟨c', hc', rfl⟩ := hmem.mp he
    rw [sortClause_eq_iff (h c hc) (h c' hc')]
    exact (sortClause_perm c).symm.trans (hperm.trans (sortClause_perm c'))
  constructor
  case given =>
    intro d hd
    obtain ⟨c, hc, rfl⟩ := hmem.mp hd
    exact ⟨c, hc, rfl⟩
  case sorted =>
    intro d hd
    obtain ⟨c, hc, rfl⟩ := hmem.mp hd
    exact pairwise_precedes_sortClause (h c hc)
  case covered =>
    intro c hc
    have hsorted : sortClause c ∈ deduplicate clauses := hmem.mpr ⟨c, hc, rfl⟩
    refine ⟨sortClause c, ⟨hsorted, (sortClause_perm c).symm⟩, fun d hd => ?_⟩
    exact hsame hd.1 hsorted (hd.2.symm.trans (sortClause_perm c).symm)
  case distinct =>
    have hnodup : (deduplicate clauses).Nodup := by
      rw [deduplicate_eq h]
      exact nodup_eraseDups _
    exact hnodup.imp_of_mem fun hd he hne hperm => hne (hsame hd he hperm)
  case inOrder =>
    have hplaces := pairwise_idxOf_eraseDups (clauses.map sortClause)
    rw [← deduplicate_eq h] at hplaces
    refine hplaces.imp_of_mem fun hd he hlt => ?_
    obtain ⟨c, hc, rfl⟩ := hmem.mp hd
    obtain ⟨c', hc', rfl⟩ := hmem.mp he
    rwa [idxOf_sortClause h (h c hc), idxOf_sortClause h (h c' hc')] at hlt

/-- What holds of all literals of all clauses holds of those that are left. -/
theorem IsReduction.forall_mem {result : List Clause} (hred : IsReduction result clauses)
    {p : Literal → Prop} (h : ∀ c ∈ clauses, ∀ l ∈ c, p l) : ∀ d ∈ result, ∀ l ∈ d, p l := by
  intro d hd l hl
  obtain ⟨c, hc, rfl⟩ := hred.given d hd
  exact h c hc l (mem_sortClause.mp hl)

/-- Sorting what is left changes nothing. -/
theorem IsReduction.map_sortClause {result : List Clause} (hred : IsReduction result clauses)
    (h : ∀ c ∈ clauses, ∀ l ∈ c, Canonical l) : result.map sortClause = result := by
  have hfixed : ∀ d ∈ result, sortClause d = id d := by
    intro d hd
    obtain ⟨c, hc, rfl⟩ := hred.given d hd
    exact sortClause_sortClause (h c hc)
  exact (List.map_congr_left hfixed).trans (List.map_id _)

/-- What is sorted and without repetition stays as it is. -/
theorem deduplicate_deduplicate (h : ∀ c ∈ clauses, ∀ l ∈ c, Canonical l) :
    deduplicate (deduplicate clauses) = deduplicate clauses := by
  have hred : IsReduction (deduplicate clauses) clauses := isReduction_deduplicate h
  rw [deduplicate_eq (hred.forall_mem h), hred.map_sortClause h, deduplicate_eq h]
  exact eraseDups_of_nodup (nodup_eraseDups _)

/-! ## Numbers that can be read -/

/-- The number of the literal does not have too many digits to be read. -/
def Readable (l : Literal) : Prop :=
  (afterMark l.name).length ≤ Text.digitLimit

instance : Decidable (Readable l) :=
  inferInstanceAs (Decidable (_ ≤ _))

/-- For such literals, only the number of digits decides whether there is a key. -/
theorem readKey_of_canonical (hl : Canonical l) :
    readKey l =
      if Text.digitLimit < (afterMark l.name).length then
        .error (.longNumber (afterMark l.name).length)
      else .ok (sortKey l) := by
  have hnumber : Text.digitLimit < (afterMark l.name).length →
      (auxiliaryNumber? l.name).isSome = true := by
    intro hlong
    obtain ⟨s, hs⟩ := hl
    rw [hs] at hlong ⊢
    -- what is written with one character has no digits at all
    cases s with
    | letter a =>
      rw [Subject.text, Letter.name, afterMark_singleton] at hlong
      cases hlong
    | constant b =>
      rw [Subject.text, constantName, afterMark_singleton] at hlong
      cases hlong
    | named k => rw [Subject.text, auxiliaryNumber?_auxiliary, Option.isSome_some]
  rw [readKey]
  by_cases hlong : Text.digitLimit < (afterMark l.name).length
  · simp [hlong, hnumber hlong]
  · simp [hlong]

/-- A key can be read when the number of the name is not too long. -/
theorem exists_readKey_eq_ok_iff (hl : Canonical l) :
    (∃ key, readKey l = .ok key) ↔ Readable l := by
  rw [readKey_of_canonical hl, Readable, ← Nat.not_lt]
  split <;> simp_all

theorem readKey_eq_error_iff (hl : Canonical l) {e : Error} :
    readKey l = .error e ↔ ¬ Readable l ∧ e = .longNumber (afterMark l.name).length := by
  rw [readKey_of_canonical hl, Readable, Nat.not_le]
  split <;> simp_all [eq_comm]

/-- Sorting succeeds where every number can be read. -/
theorem sortAll_eq_ok (h : ∀ c ∈ clauses, ∀ l ∈ c, Canonical l)
    (hread : ∀ c ∈ clauses, ∀ l ∈ c, Readable l) :
    sortAll clauses = .ok (clauses.map sortClause) := by
  obtain ⟨keys, hkeys⟩ : ∃ keys, clauses.flatten.mapM readKey = .ok keys := by
    refine exists_mapM_eq_ok fun l hl => ?_
    obtain ⟨c, hc, hlc⟩ := List.mem_flatten.mp hl
    exact (exists_readKey_eq_ok_iff (h c hc l hlc)).mpr (hread c hc l hlc)
  rw [sortAll, hkeys]
  rfl

/-- Sorting fails at the first literal with a number that cannot be read. -/
theorem sortAll_eq_error_iff (h : ∀ c ∈ clauses, ∀ l ∈ c, Canonical l) {e : Error} :
    sortAll clauses = .error e ↔
      ∃ before l after, clauses.flatten = before ++ l :: after ∧ (∀ m ∈ before, Readable m) ∧
        ¬ Readable l ∧ e = .longNumber (afterMark l.name).length := by
  have hcanonical : ∀ l ∈ clauses.flatten, Canonical l := by
    intro l hl
    obtain ⟨c, hc, hlc⟩ := List.mem_flatten.mp hl
    exact h c hc l hlc
  have hmap : sortAll clauses = .error e ↔ clauses.flatten.mapM readKey = .error e := by
    rw [sortAll]
    cases clauses.flatten.mapM readKey <;> simp [Except.map]
  rw [hmap, mapM_eq_error_iff]
  refine exists_congr fun before => exists_congr fun l => exists_congr fun after => ?_
  refine and_congr_right fun hall => ?_
  rw [hall] at hcanonical
  have hl : Canonical l := hcanonical l (by simp)
  have hbefore : ∀ m ∈ before, Canonical m := fun m hm => hcanonical m (List.mem_append_left _ hm)
  rw [readKey_eq_error_iff hl]
  refine and_congr_left fun _ => forall₂_congr fun m hm => ?_
  exact exists_readKey_eq_ok_iff (hbefore m hm)

/-- A number with one digit too many cannot be read. -/
theorem sortAll_long_number :
    Canonical (literal (auxiliary (10 ^ Text.digitLimit))) ∧
      sortAll [[literal (auxiliary (10 ^ Text.digitLimit))]] =
        .error (.longNumber (Text.digitLimit + 1)) := by
  have hcanonical : Canonical (literal (auxiliary (10 ^ Text.digitLimit))) :=
    canonical_literal (.named _)
  have hname : (literal (auxiliary (10 ^ Text.digitLimit))).name =
      auxiliary (10 ^ Text.digitLimit) := (literal_text (.named _)).2
  have hdigits : (afterMark (literal (auxiliary (10 ^ Text.digitLimit))).name).length =
      Text.digitLimit + 1 := by
    rw [hname, afterMark_auxiliary]
    -- the power has one digit more than the exponent says
    refine Nat.le_antisymm ?_ (Nat.lt_of_not_le ?_)
    · rw [Nat.length_toDigits_le_iff (by decide) (Nat.succ_pos _)]
      exact Nat.pow_lt_pow_right (by decide) (Nat.lt_succ_self _)
    · rw [Nat.length_toDigits_le_iff (by decide) (by decide)]
      exact Nat.lt_irrefl _
  refine ⟨hcanonical, (sortAll_eq_error_iff (by simpa using hcanonical)).mpr ?_⟩
  refine ⟨[], _, [], rfl, nofun, ?_, ?_⟩
  · rw [Readable, hdigits]
    exact Nat.not_succ_le_self _
  · rw [hdigits]

/-! ## The main result -/

/-- **Sorting brings clauses with the same literals together, and nothing else.**  Of clauses over
letters, constants and numbered names, with numbers that can be read, each is sorted into the strict
order of literals, and two are sorted alike when one is a permutation of the other.  Without
repetitions one clause is left for all permutations of a clause, in the order in which they came
first, and these are sorted and without repetitions already. -/
theorem deduplicate_exact (h : ∀ c ∈ clauses, ∀ l ∈ c, Canonical l)
    (hread : ∀ c ∈ clauses, ∀ l ∈ c, Readable l) :
    sortAll clauses = .ok (clauses.map sortClause) ∧
      (∀ c ∈ clauses, (sortClause c).Perm c ∧
        (sortClause c).Pairwise fun l m => l = m ∨ Precedes l m) ∧
      (∀ c ∈ clauses, ∀ d ∈ clauses, sortClause c = sortClause d ↔ c.Perm d) ∧
      IsReduction (deduplicate clauses) clauses ∧
      sortAll (deduplicate clauses) = .ok (deduplicate clauses) ∧
      deduplicate (deduplicate clauses) = deduplicate clauses := by
  have hred : IsReduction (deduplicate clauses) clauses := isReduction_deduplicate h
  have hagain : sortAll (deduplicate clauses) = .ok (deduplicate clauses) := by
    rw [sortAll_eq_ok (hred.forall_mem h) (hred.forall_mem hread), hred.map_sortClause h]
  refine ⟨sortAll_eq_ok h hread, ?_, ?_, hred, hagain, deduplicate_deduplicate h⟩
  · exact fun c hc => ⟨sortClause_perm c, pairwise_precedes_sortClause (h c hc)⟩
  · exact fun c hc d hd => sortClause_eq_iff (h c hc) (h d hd)

/-- A clause with a repeated literal and a permutation of it, with another clause between them. -/
theorem deduplicate_exact_permuted :
    ∃ clauses : List Clause,
      clauses = [["n10", "b", "n2", "b"], ["-n2", "⊤"], ["b", "n2", "b", "n10"]].map
        (·.map literal) ∧
      (∀ c ∈ clauses, ∀ l ∈ c, Canonical l) ∧ (∀ c ∈ clauses, ∀ l ∈ c, Readable l) ∧
      sortClause (["n10", "b", "n2", "b"].map literal) =
        sortClause (["b", "n2", "b", "n10"].map literal) ∧
      IsReduction (deduplicate clauses) clauses := by
  have hb : Canonical (literal "b") := ⟨.letter ⟨'b', by decide⟩, by decide⟩
  have htop : Canonical (literal "⊤") := ⟨.constant true, by decide⟩
  have htwo : Canonical (literal "n2") := ⟨.named 2, by decide⟩
  have htwo' : Canonical (literal "-n2") := ⟨.named 2, by decide⟩
  have hten : Canonical (literal "n10") := ⟨.named 10, by decide⟩
  have h : ∀ c ∈ [["n10", "b", "n2", "b"], ["-n2", "⊤"], ["b", "n2", "b", "n10"]].map
      (·.map literal), ∀ l ∈ c, Canonical l := by
    simp [hb, htop, htwo, htwo', hten]
  have hread : ∀ c ∈ [["n10", "b", "n2", "b"], ["-n2", "⊤"], ["b", "n2", "b", "n10"]].map
      (·.map literal), ∀ l ∈ c, Readable l := by
    decide
  obtain ⟨-, -, hsame, hred, -⟩ := deduplicate_exact h hread
  exact ⟨_, rfl, h, hread, (hsame _ (by simp) _ (by simp)).mpr (by decide), hred⟩

end Propositional.Tseytin
