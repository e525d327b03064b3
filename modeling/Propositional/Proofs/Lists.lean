import Mathlib.Data.List.Forall2
import Mathlib.Data.List.Induction
import Mathlib.Data.List.Nodup

/-!
# Lists without repetitions, and lists of results

Facts about lists on which the theory of formulas and clauses rests.

* `nodup_eraseDups`, `eraseDupsBy_sublist`, `mem_of_mem_eraseDupsBy`, `exists_mem_eraseDupsBy`,
  `eraseDupsBy_append_singleton`, `eraseDups_append_of_subset`, `eraseDups_of_nodup`,
  `eraseDupsBy_eq_eraseDups` — leaving out what came before;
* `pairwise_idxOf_eraseDups`, `pairwise_eraseDups_filterMap` — what is left stands in the order of
  first occurrence;
* `mapM_eq_ok_iff`, `mem_iff_of_mapM_eq_ok`, `exists_mapM_eq_ok` — a row of computations succeeds
  when each of them does, with their values;
* `bind_eq_error_iff`, `mapM_eq_error_iff`, `mapM_eq_error_iff_of_pairwise` — where an error comes
  from, and which one it is for a row in some order;
* `forall_mem_iff_of_forall₂`, `forall_mem_of_forall₂`, `exists_mem_iff_of_forall₂` — properties of
  related lists;
* `exists_getElem?_of_forall₂`, `exists_forall₂` — their elements one by one, and a list of related
  elements;
* `find?_eq_some_iff_of_pairwise`, `findIdx_congr` — the first element with a property, in a row in
  some order, and its place;
* `flatMap_ite_eq_intercalate` — a row in place of an element.
-/

namespace Propositional

variable {α β ε : Type}

/-! ## Leaving out repetitions -/

/-- A list without its repetitions has none. -/
theorem nodup_eraseDups [BEq α] [LawfulBEq α] (xs : List α) : xs.eraseDups.Nodup := by
  match xs with
  | [] => simp
  | x :: xs =>
    rw [List.eraseDups_cons, List.nodup_cons]
    refine ⟨?_, nodup_eraseDups _⟩
    rw [List.mem_eraseDups, List.mem_filter]
    simp
termination_by xs.length
decreasing_by exact Nat.lt_succ_of_le (List.length_filter_le _ _)

/-- What is left comes from the list, and stands in the same order. -/
theorem eraseDupsBy_sublist (same : α → α → Bool) (xs : List α) :
    (xs.eraseDupsBy same).Sublist xs := by
  match xs with
  | [] => simp
  | y :: xs =>
    rw [List.eraseDupsBy_cons]
    exact ((eraseDupsBy_sublist same _).trans List.filter_sublist).cons_cons y
termination_by xs.length
decreasing_by exact Nat.lt_succ_of_le (List.length_filter_le _ _)

theorem mem_of_mem_eraseDupsBy {same : α → α → Bool} {x : α} (xs : List α)
    (h : x ∈ xs.eraseDupsBy same) : x ∈ xs :=
  (eraseDupsBy_sublist same xs).subset h

/-- Of what is left out, something that it repeats is left. -/
theorem exists_mem_eraseDupsBy {same : α → α → Bool} (hrefl : ∀ x, same x x = true) {x : α}
    (xs : List α) (hx : x ∈ xs) : ∃ y ∈ xs.eraseDupsBy same, same x y = true := by
  match xs with
  | [] => cases hx
  | y :: xs =>
    rw [List.eraseDupsBy_cons]
    rcases List.mem_cons.mp hx with rfl | hx
    · exact ⟨x, List.mem_cons_self, hrefl x⟩
    · cases hsame : same x y with
      | true => exact ⟨y, List.mem_cons_self, hsame⟩
      | false =>
        -- it does not repeat the first element, so it is still there when that one is taken out
        have hkept : x ∈ xs.filter fun b => same b y = false :=
          List.mem_filter.mpr ⟨hx, by simp [hsame]⟩
        obtain ⟨z, hz, hxz⟩ := exists_mem_eraseDupsBy hrefl _ hkept
        exact ⟨z, List.mem_cons_of_mem _ hz, hxz⟩
termination_by xs.length
decreasing_by exact Nat.lt_succ_of_le (List.length_filter_le _ _)

/-- A last element that repeats nothing before it stays last. -/
theorem eraseDupsBy_append_singleton {same : α → α → Bool} {x : α} (xs : List α)
    (h : ∀ y ∈ xs, same x y = false) :
    (xs ++ [x]).eraseDupsBy same = xs.eraseDupsBy same ++ [x] := by
  match xs with
  | [] => simp [List.eraseDupsBy_cons]
  | y :: xs =>
    have hxy : same x y = false := h y List.mem_cons_self
    have hfilter : [x].filter (fun b => same b y = false) = [x] := by simp [hxy]
    have hrest : ∀ z ∈ xs.filter (fun b => same b y = false), same x z = false :=
      fun z hz => h z (List.mem_cons_of_mem _ (List.mem_filter.mp hz).1)
    rw [List.cons_append, List.eraseDupsBy_cons, List.eraseDupsBy_cons, List.filter_append, hfilter,
      eraseDupsBy_append_singleton _ hrest]
    rfl
termination_by xs.length
decreasing_by exact Nat.lt_succ_of_le (List.length_filter_le _ _)

/-- One more element stays last, unless it came before. -/
theorem eraseDups_append_singleton [BEq α] [LawfulBEq α] (xs : List α) (x : α) :
    (xs ++ [x]).eraseDups = if x ∈ xs then xs.eraseDups else xs.eraseDups ++ [x] := by
  rw [List.eraseDups_append]
  by_cases h : x ∈ xs
  · simp [List.removeAll, h]
  · have hkept : [x].removeAll xs = [x] := by simp [List.removeAll, h]
    rw [hkept, if_neg h, List.eraseDups_cons, List.filter_nil, List.eraseDups_nil]

/-- What came before is left out, however much it is. -/
theorem eraseDups_append_of_subset [BEq α] [LawfulBEq α] {xs ys : List α} (h : ys ⊆ xs) :
    (xs ++ ys).eraseDups = xs.eraseDups := by
  have hnone : ys.removeAll xs = [] := by
    rw [List.removeAll, List.filter_eq_nil_iff]
    intro y hy
    simpa using h hy
  rw [List.eraseDups_append, hnone, List.eraseDups_nil, List.append_nil]

theorem eraseDups_of_nodup [BEq α] [LawfulBEq α] {xs : List α} (h : xs.Nodup) :
    xs.eraseDups = xs := by
  induction xs using List.reverseRecOn with
  | nil => rfl
  | append_singleton xs x ih =>
    rw [← List.concat_eq_append, List.nodup_concat] at h
    rw [eraseDups_append_singleton, if_neg h.1, ih h.2]

/-- What is left stands in the order in which it came first. -/
theorem pairwise_idxOf_eraseDups [BEq α] [LawfulBEq α] (xs : List α) :
    xs.eraseDups.Pairwise fun x y => xs.idxOf x < xs.idxOf y := by
  induction xs using List.reverseRecOn with
  | nil => exact List.Pairwise.nil
  | append_singleton xs x ih =>
    -- the places of what came before do not change
    have hkept : xs.eraseDups.Pairwise fun y z => (xs ++ [x]).idxOf y < (xs ++ [x]).idxOf z := by
      refine ih.imp_of_mem fun hy hz hlt => ?_
      rw [List.idxOf_append_of_mem (List.mem_eraseDups.mp hy),
        List.idxOf_append_of_mem (List.mem_eraseDups.mp hz)]
      exact hlt
    rw [eraseDups_append_singleton]
    split
    · exact hkept
    · next hnew =>
      refine List.pairwise_append.mpr ⟨hkept, List.pairwise_singleton _ _, fun y hy z hz => ?_⟩
      obtain rfl := List.mem_singleton.mp hz
      have hplace : xs.idxOf y < xs.length := List.idxOf_lt_length_of_mem (List.mem_eraseDups.mp hy)
      rw [List.idxOf_append_of_mem (List.mem_eraseDups.mp hy), List.idxOf_append, if_neg hnew]
      omega

/-- Where being the same is being equal, the same elements are left out. -/
theorem eraseDupsBy_eq_eraseDups [BEq α] [LawfulBEq α] {same : α → α → Bool} (xs : List α)
    (h : ∀ x ∈ xs, ∀ y ∈ xs, same x y = true ↔ x = y) : xs.eraseDupsBy same = xs.eraseDups := by
  match xs with
  | [] => rfl
  | y :: xs =>
    have hfilter : (xs.filter fun x => same x y = false) = xs.filter fun x => !x == y := by
      refine List.filter_congr fun x hx => ?_
      have hsame := h x (List.mem_cons_of_mem y hx) y List.mem_cons_self
      rw [Bool.eq_iff_iff, decide_eq_true_eq, Bool.not_eq_true', beq_eq_false_iff_ne, Ne, ← hsame,
        Bool.not_eq_true]
    have hrest : ∀ x ∈ xs.filter (fun x => !x == y), ∀ z ∈ xs.filter (fun x => !x == y),
        same x z = true ↔ x = z := fun x hx z hz =>
      h x (List.mem_cons_of_mem y (List.mem_filter.mp hx).1) z
        (List.mem_cons_of_mem y (List.mem_filter.mp hz).1)
    rw [List.eraseDupsBy_cons, List.eraseDups_cons, hfilter, eraseDupsBy_eq_eraseDups _ hrest]
termination_by xs.length
decreasing_by exact Nat.lt_succ_of_le (List.length_filter_le _ _)

/-- Of elements found along a row in some order, each is left where it is found first: before all
places where a later one is found. -/
theorem pairwise_eraseDups_filterMap [DecidableEq α] {R : β → β → Prop} {g : β → Option α}
    {xs : List β} (h : xs.Pairwise R) :
    (xs.filterMap g).eraseDups.Pairwise fun a b =>
      ∃ x ∈ xs, g x = some a ∧ ∀ y ∈ xs, g y = some b → R x y := by
  induction xs using List.reverseRecOn with
  | nil => exact List.Pairwise.nil
  | append_singleton xs x ih =>
    obtain ⟨hxs, -, hcross⟩ := List.pairwise_append.mp h
    have hlast : ∀ y ∈ xs, R y x := fun y hy => hcross y hy x (List.mem_singleton_self x)
    -- where an element is found first does not change with one more place at the end
    have hfound : (xs.filterMap g).eraseDups.Pairwise fun a b =>
        ∃ y ∈ xs ++ [x], g y = some a ∧ ∀ z ∈ xs ++ [x], g z = some b → R y z := by
      refine (ih hxs).imp ?_
      rintro a b ⟨y, hy, hya, hbefore⟩
      refine ⟨y, List.mem_append_left _ hy, hya, List.forall_mem_append.mpr ⟨hbefore, ?_⟩⟩
      exact List.forall_mem_singleton.mpr fun _ => hlast y hy
    rw [List.filterMap_append]
    cases hx : g x with
    | none =>
      rw [List.filterMap_cons_none hx, List.filterMap_nil, List.append_nil]
      exact hfound
    | some b =>
      rw [List.filterMap_cons_some hx, List.filterMap_nil, eraseDups_append_singleton]
      split
      · exact hfound
      · next hnew =>
        rw [List.pairwise_append]
        refine ⟨hfound, List.pairwise_singleton _ _, fun a ha b' hb' => ?_⟩
        obtain rfl := List.mem_singleton.mp hb'
        obtain ⟨y, hy, hya⟩ := List.mem_filterMap.mp (List.mem_eraseDups.mp ha)
        refine ⟨y, List.mem_append_left _ hy, hya, List.forall_mem_append.mpr ⟨?_, ?_⟩⟩
        · exact fun z hz hzb => absurd (List.mem_filterMap.mpr ⟨z, hz, hzb⟩) hnew
        · exact List.forall_mem_singleton.mpr fun _ => hlast y hy

/-! ## Results of computations -/

/-- One step after another succeeds when the first does and the second does on its value. -/
theorem bind_eq_ok_iff {x : Except ε α} {g : α → Except ε β} {b : β} :
    x >>= g = .ok b ↔ ∃ a, x = .ok a ∧ g a = .ok b := by
  cases x with
  | error e => simp [bind, Except.bind]
  | ok a => simp [bind, Except.bind]

/-- One step after another fails when the first does, or the second does on its value. -/
theorem bind_eq_error_iff {x : Except ε α} {g : α → Except ε β} {e : ε} :
    x >>= g = .error e ↔ x = .error e ∨ ∃ a, x = .ok a ∧ g a = .error e := by
  cases x with
  | error e' => simp [bind, Except.bind]
  | ok a => simp [bind, Except.bind]

/-- A row of computations succeeds with the row of their values. -/
theorem mapM_eq_ok_iff {g : α → Except ε β} {xs : List α} {ys : List β} :
    xs.mapM g = .ok ys ↔ List.Forall₂ (fun x y => g x = .ok y) xs ys := by
  induction xs generalizing ys with
  | nil =>
    rw [List.mapM_nil, List.forall₂_nil_left_iff]
    exact ⟨fun h => (Except.ok.inj h).symm, fun h => h ▸ rfl⟩
  | cons x xs ih =>
    rw [List.mapM_cons, bind_eq_ok_iff, List.forall₂_cons_left_iff]
    constructor
    · rintro ⟨y, hy, h⟩
      obtain ⟨zs, hzs, hys⟩ := bind_eq_ok_iff.mp h
      exact ⟨y, zs, hy, ih.mp hzs, (Except.ok.inj hys).symm⟩
    · rintro ⟨y, zs, hy, hzs, rfl⟩
      exact ⟨y, hy, bind_eq_ok_iff.mpr ⟨zs, ih.mpr hzs, rfl⟩⟩

/-- Lists of related elements agree on a property of all their elements. -/
theorem forall_mem_iff_of_forall₂ {R : α → β → Prop} {p : α → Prop} {q : β → Prop}
    {xs : List α} {ys : List β} (h : List.Forall₂ R xs ys) (hR : ∀ {x y}, R x y → (p x ↔ q y)) :
    (∀ x ∈ xs, p x) ↔ ∀ y ∈ ys, q y := by
  induction h with
  | nil => simp
  | cons hxy _ ih => rw [List.forall_mem_cons, List.forall_mem_cons, hR hxy, ih]

/-- What every element has that is related to another one, all elements of a related list have. -/
theorem forall_mem_of_forall₂ {R : α → β → Prop} {q : β → Prop} {xs : List α} {ys : List β}
    (h : List.Forall₂ R xs ys) (hR : ∀ {x y}, R x y → q y) : ∀ y ∈ ys, q y :=
  (forall_mem_iff_of_forall₂ (p := fun _ => True) h fun hxy => iff_of_true trivial (hR hxy)).mp
    fun _ _ => trivial

/-- A relation that is the graph of a function holds between a row and its image. -/
theorem forall₂_iff_eq_map {R : α → β → Prop} {g : α → β} (h : ∀ x y, R x y ↔ y = g x) {xs : List α}
    {ys : List β} : List.Forall₂ R xs ys ↔ ys = xs.map g := by
  have hgraph : R = fun x y => g x = y := by
    funext x y
    exact propext ((h x y).trans eq_comm)
  rw [hgraph, ← List.forall₂_map_left_iff (R := (· = ·)), List.forall₂_eq_eq_eq]
  exact eq_comm

/-- Elements of related lists that stand at the same place are related. -/
theorem exists_getElem?_of_forall₂ {R : α → β → Prop} {xs : List α} {ys : List β}
    (h : List.Forall₂ R xs ys) {j : Nat} {y : β} (hy : ys[j]? = some y) :
    ∃ x, xs[j]? = some x ∧ R x y := by
  induction h generalizing j with
  | nil => cases hy
  | cons hxy _ ih =>
    cases j with
    | zero =>
      cases hy
      exact ⟨_, rfl, hxy⟩
    | succ j => exact ih hy

/-- Elements that are related to something make a list that is related to a list. -/
theorem exists_forall₂ {R : α → β → Prop} {ys : List β} (h : ∀ y ∈ ys, ∃ x, R x y) :
    ∃ xs, List.Forall₂ R xs ys := by
  induction ys with
  | nil => exact ⟨[], .nil⟩
  | cons y ys ih =>
    obtain ⟨x, hx⟩ := h y List.mem_cons_self
    obtain ⟨xs, hxs⟩ := ih fun z hz => h z (List.mem_cons_of_mem _ hz)
    exact ⟨x :: xs, .cons hx hxs⟩

/-- Lists of related elements agree on a property of some of their elements. -/
theorem exists_mem_iff_of_forall₂ {R : α → β → Prop} {p : α → Prop} {q : β → Prop}
    {xs : List α} {ys : List β} (h : List.Forall₂ R xs ys) (hR : ∀ {x y}, R x y → (p x ↔ q y)) :
    (∃ x ∈ xs, p x) ↔ ∃ y ∈ ys, q y := by
  have hnone := forall_mem_iff_of_forall₂ (p := fun x => ¬ p x) (q := fun y => ¬ q y) h
    fun hxy => not_congr (hR hxy)
  simpa using not_congr hnone

/-- The values of a row of computations are those that its elements lead to. -/
theorem mem_iff_of_mapM_eq_ok {g : α → Except ε β} {xs : List α} {ys : List β}
    (h : xs.mapM g = .ok ys) {y : β} : y ∈ ys ↔ ∃ x ∈ xs, g x = .ok y := by
  rw [exists_mem_iff_of_forall₂ (p := fun x => g x = .ok y) (q := fun z => z = y)
    (mapM_eq_ok_iff.mp h)]
  · simp
  · intro x z hz
    rw [hz, Except.ok.injEq]

/-- A row of computations fails with the error of the first one that fails. -/
theorem mapM_eq_error_iff {g : α → Except ε β} {xs : List α} {e : ε} :
    xs.mapM g = .error e ↔
      ∃ before x after, xs = before ++ x :: after ∧ (∀ y ∈ before, ∃ z, g y = .ok z) ∧
        g x = .error e := by
  induction xs with
  | nil =>
    constructor
    · intro h
      cases h
    · rintro ⟨before, x, after, h, -⟩
      exact absurd h.symm (List.append_ne_nil_of_right_ne_nil _ (List.cons_ne_nil x after))
  | cons x xs ih =>
    rw [List.mapM_cons, bind_eq_error_iff]
    constructor
    · -- it fails at the first element, or it succeeds there and fails further back
      rintro (hx | ⟨y, hy, h⟩)
      · exact ⟨[], x, xs, rfl, by simp, hx⟩
      · rcases bind_eq_error_iff.mp h with hrest | ⟨ys, -, hpure⟩
        · obtain ⟨before, x', after, rfl, hbefore, hx'⟩ := ih.mp hrest
          exact ⟨x :: before, x', after, rfl, List.forall_mem_cons.mpr ⟨⟨y, hy⟩, hbefore⟩, hx'⟩
        · cases hpure
    · rintro ⟨before, x', after, h, hbefore, hx'⟩
      rcases List.cons_eq_append_iff.mp h with ⟨rfl, heq⟩ | ⟨before, rfl, rfl⟩
      · cases heq
        exact Or.inl hx'
      · obtain ⟨⟨y, hy⟩, hbefore⟩ := List.forall_mem_cons.mp hbefore
        have hrest := ih.mpr ⟨before, x', after, rfl, hbefore, hx'⟩
        exact Or.inr ⟨y, hy, bind_eq_error_iff.mpr (Or.inl hrest)⟩

/-- A row that stands in some order fails with the error of an element before which all elements
succeed. -/
theorem mapM_eq_error_iff_of_pairwise {R : α → α → Prop} (hR : ∀ {x y}, R x y → ¬ R y x)
    {g : α → Except ε β} {xs : List α} (hxs : xs.Pairwise R) {e : ε} :
    xs.mapM g = .error e ↔
      ∃ x ∈ xs, g x = .error e ∧ ∀ y ∈ xs, R y x → ∃ z, g y = .ok z := by
  rw [mapM_eq_error_iff]
  constructor
  · rintro ⟨before, x, after, rfl, hbefore, hx⟩
    refine ⟨x, List.mem_append_right _ List.mem_cons_self, hx, fun y hy hyx => ?_⟩
    obtain ⟨-, htail, -⟩ := List.pairwise_append.mp hxs
    rcases List.mem_append.mp hy with hy | hy
    · exact hbefore y hy
    rcases List.mem_cons.mp hy with rfl | hy
    · exact absurd hyx (hR hyx)
    · exact absurd ((List.pairwise_cons.mp htail).1 y hy) (hR hyx)
  · rintro ⟨x, hmem, hx, hearlier⟩
    obtain ⟨before, after, rfl⟩ := List.append_of_mem hmem
    obtain ⟨-, -, hcross⟩ := List.pairwise_append.mp hxs
    exact ⟨before, x, after, rfl, fun y hy =>
      hearlier y (List.mem_append_left _ hy) (hcross y hy x List.mem_cons_self), hx⟩

theorem exists_mapM_eq_ok {g : α → Except ε β} {xs : List α} (h : ∀ x ∈ xs, ∃ y, g x = .ok y) :
    ∃ ys, xs.mapM g = .ok ys := by
  induction xs with
  | nil => exact ⟨[], rfl⟩
  | cons x xs ih =>
    obtain ⟨y, hy⟩ := h x List.mem_cons_self
    obtain ⟨ys, hys⟩ := ih fun z hz => h z (List.mem_cons_of_mem _ hz)
    exact ⟨y :: ys, mapM_eq_ok_iff.mpr (.cons hy (mapM_eq_ok_iff.mp hys))⟩

theorem exists_mapM_eq_ok_iff {g : α → Except ε β} {xs : List α} :
    (∃ ys, xs.mapM g = .ok ys) ↔ ∀ x ∈ xs, ∃ y, g x = .ok y := by
  constructor
  · rintro ⟨ys, hys⟩
    exact forall_mem_of_forall₂ (mapM_eq_ok_iff.mp hys).flip fun hx => ⟨_, hx⟩
  · exact exists_mapM_eq_ok

/-! ## Finding an element -/

/-- In a row that stands in some order, the first element with a property is the one that stands
before all others with it. -/
theorem find?_eq_some_iff_of_pairwise {R : α → α → Prop} (hR : ∀ {x y}, R x y → ¬ R y x)
    {xs : List α} (hxs : xs.Pairwise R) {p : α → Bool} {x : α} :
    xs.find? p = some x ↔ x ∈ xs ∧ p x = true ∧ ∀ y ∈ xs, p y = true → y = x ∨ R x y := by
  have hfirst : ∀ {z}, xs.find? p = some z →
      z ∈ xs ∧ p z = true ∧ ∀ y ∈ xs, p y = true → y = z ∨ R z y := by
    intro z hz
    obtain ⟨hpz, before, after, rfl, hbefore⟩ := List.find?_eq_some_iff_append.mp hz
    refine ⟨List.mem_append_right _ List.mem_cons_self, hpz, fun y hy hpy => ?_⟩
    obtain ⟨-, htail, -⟩ := List.pairwise_append.mp hxs
    rcases List.mem_append.mp hy with hy | hy
    · have hnot := hbefore y hy
      rw [hpy] at hnot
      cases hnot
    · exact (List.mem_cons.mp hy).imp_right ((List.pairwise_cons.mp htail).1 y)
  refine ⟨hfirst, fun ⟨hx, hpx, hothers⟩ => ?_⟩
  obtain ⟨z, hz⟩ := Option.isSome_iff_exists.mp (List.find?_isSome.mpr ⟨x, hx, hpx⟩)
  obtain ⟨hzmem, hpz, hzfirst⟩ := hfirst hz
  -- two elements that stand before each other are the same
  rcases hothers z hzmem hpz with rfl | hxz
  · exact hz
  rcases hzfirst x hx hpx with rfl | hzx
  · exact hz
  · exact absurd hzx (hR hxz)

theorem findIdx_congr {p q : α → Bool} {xs : List α} (h : ∀ x ∈ xs, p x = q x) :
    xs.findIdx p = xs.findIdx q := by
  induction xs with
  | nil => rfl
  | cons x xs ih =>
    obtain ⟨hx, hxs⟩ := List.forall_mem_cons.mp h
    rw [List.findIdx_cons, List.findIdx_cons, hx, ih hxs]

/-! ## Replacing an element -/

/-- A row in place of an element stands between the parts that the element separates. -/
theorem flatMap_ite_eq_intercalate [DecidableEq α] (a : α) (ys xs : List α) :
    (xs.flatMap fun x => if x = a then ys else [x]) = ys.intercalate (xs.splitOn a) := by
  induction xs with
  | nil => rfl
  | cons x xs ih =>
    obtain ⟨part, parts, hparts⟩ := List.exists_cons_of_ne_nil (List.splitOn_ne_nil a xs)
    rw [List.flatMap_cons, ih, List.splitOn_cons_eq_if_modifyHead, hparts]
    by_cases h : x = a
    · rw [if_pos h, if_pos (beq_iff_eq.mpr h), List.intercalate_cons_cons, List.nil_append]
    · rw [if_neg h, if_neg (mt beq_iff_eq.mp h), List.modifyHead_cons,
        List.intercalate_cons_cons_left, List.singleton_append]

end Propositional
