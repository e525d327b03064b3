import Propositional.Proofs.Lists
import Propositional.Proofs.Positions

/-!
# Depths in pre-order

In pre-order, what stands between a node and one of its children stands below the node.  So the
parent of a position is the nearest one before it that is one level less deep, and it is found from
the depths alone.

The depths determine the positions, then: going along them, the parent of the next position is known
already, and so is whether it has had its first child.

* `Position.length_lt_of_precedes`  — what stands between a node and its children is deeper;
* `NearestAbove`, `Formula.nearestAbove_iff` — the parent of a position, found by depths;
* `Formula.positions_eq_of_depths`  — formulas with the same depths have the same positions.
-/

namespace Propositional

/-! ## Between a node and its children -/

namespace Position

variable {q r : Position} {s : Step}

/-- What stands between a node and one of its children stands below the node. -/
theorem isPrefix_of_precedes (hq : Precedes q r) (hr : Precedes r (q ++ [s])) : q <+: r := by
  induction q generalizing r with
  | nil => exact List.nil_prefix
  | cons t rest ih =>
    cases r with
    | nil => cases hq
    | cons u r =>
      rw [precedes_cons_iff] at hq
      rw [List.cons_append, precedes_cons_iff] at hr
      -- the first step neither grows nor shrinks, since it ends where it began
      obtain rfl : t = u := by
        rcases hq with hlt | ⟨rfl, -⟩
        · rcases hr with hgt | ⟨rfl, -⟩
          · omega
          · rfl
        · rfl
      have hq : Precedes rest r := (hq.resolve_left (Nat.lt_irrefl _)).2
      have hr : Precedes r (rest ++ [s]) := (hr.resolve_left (Nat.lt_irrefl _)).2
      exact List.cons_prefix_cons.mpr ⟨rfl, ih hq hr⟩

theorem length_lt_of_precedes (hq : Precedes q r) (hr : Precedes r (q ++ [s])) :
    q.length < r.length := by
  have habove : q <+: r := isPrefix_of_precedes hq hr
  refine Nat.lt_of_le_of_ne habove.length_le fun hlength => ?_
  rw [habove.eq_of_length hlength] at hq
  exact Precedes.irrefl r hq

theorem precedes_append_singleton (p : Position) (s : Step) : Precedes p (p ++ [s]) := by
  have hbelow := (precedes_append_left_iff p [] [s]).mpr .nil
  rwa [List.append_nil] at hbelow

end Position

/-! ## Parents -/

/-- In a row of depths, the nearest place before another one that is one level less deep. -/
def NearestAbove (depths : List Nat) (i j : Nat) : Prop :=
  j < i ∧ ∃ d, depths[i]? = some (d + 1) ∧ depths[j]? = some d ∧
    ∀ k, j < k → k < i → depths[k]? ≠ some d

theorem NearestAbove.unique {depths : List Nat} {i j k : Nat} (hj : NearestAbove depths i j)
    (hk : NearestAbove depths i k) : j = k := by
  obtain ⟨hji, d, hi, hjd, hafterj⟩ := hj
  obtain ⟨hki, d', hi', hkd, hafterk⟩ := hk
  obtain rfl : d = d' := by
    rw [hi] at hi'
    simpa using hi'
  rcases Nat.lt_trichotomy j k with hlt | heq | hgt
  · exact absurd hkd (hafterj k hlt hki)
  · exact heq
  · exact absurd hjd (hafterk j hgt hji)

namespace Formula

variable {α : Type} {f g : Formula α} {p q q' : Position} {s s' : Step} {i j : Nat}

theorem precedes_of_lt (hi : f.positions[i]? = some p) (hj : f.positions[j]? = some q)
    (hij : i < j) : Position.Precedes p q := by
  obtain ⟨hilt, rfl⟩ := List.getElem?_eq_some_iff.mp hi
  obtain ⟨hjlt, rfl⟩ := List.getElem?_eq_some_iff.mp hj
  exact List.pairwise_iff_getElem.mp f.pairwise_positions i j hilt hjlt hij

theorem lt_of_precedes (hi : f.positions[i]? = some p) (hj : f.positions[j]? = some q)
    (hpq : Position.Precedes p q) : i < j := by
  rcases Nat.lt_trichotomy i j with hlt | rfl | hgt
  · exact hlt
  · rw [hi] at hj
    obtain rfl : p = q := Option.some.inj hj
    exact absurd hpq (Position.Precedes.irrefl p)
  · exact absurd (precedes_of_lt hj hi hgt) hpq.asymm

/-- In pre-order, a node is the nearest one before its children that is less deep. -/
theorem nearestAbove_of_getElem? (hi : f.positions[i]? = some (q ++ [s]))
    (hj : f.positions[j]? = some q) : NearestAbove (f.positions.map List.length) i j := by
  refine ⟨lt_of_precedes hj hi (Position.precedes_append_singleton q s), q.length, ?_, ?_, ?_⟩
  · rw [List.getElem?_map, hi, Option.map_some, List.length_append, List.length_singleton]
  · rw [List.getElem?_map, hj, Option.map_some]
  · intro k hjk hki hk
    rw [List.getElem?_map] at hk
    obtain ⟨r, hr, hlength⟩ := Option.map_eq_some_iff.mp hk
    have hdeeper := Position.length_lt_of_precedes (precedes_of_lt hj hr hjk)
      (precedes_of_lt hr hi hki)
    omega

theorem nearestAbove_iff (hi : f.positions[i]? = some p) (hp : p ≠ []) :
    NearestAbove (f.positions.map List.length) i j ↔ f.positions[j]? = some p.dropLast := by
  rw [← List.dropLast_append_getLast hp] at hi
  refine ⟨fun h => ?_, nearestAbove_of_getElem? hi⟩
  -- the parent stands somewhere in the list, and only one place is the nearest
  obtain ⟨k, hk⟩ := List.getElem?_of_mem (mem_positions_of_append (List.mem_of_getElem? hi))
  rw [h.unique (nearestAbove_of_getElem? hi hk)]
  exact hk

/-! ## Positions from depths -/

/-- Where there is a second child, there is a first one. -/
theorem first_mem_positions (h : q ++ [.second] ∈ f.positions) : q ++ [.first] ∈ f.positions := by
  obtain ⟨g, hg⟩ := Option.isSome_iff_exists.mp (mem_positions.mp (mem_positions_of_append h))
  rw [mem_positions, at?_append_singleton hg] at h ⊢
  cases g with
  | var a => cases h
  | const b => cases h
  | neg g => cases h
  | bin op l r => rfl

/-- Where two formulas have the same positions up to a place, they do not have different children of
one node there. -/
theorem not_first_and_second (hbefore : ∀ k < i, f.positions[k]? = g.positions[k]?)
    (hf : f.positions[i]? = some (q ++ [.first])) : g.positions[i]? ≠ some (q ++ [.second]) := by
  intro hg
  -- the first child comes before the second one, and would come up again
  obtain ⟨k, hk⟩ := List.getElem?_of_mem (first_mem_positions (List.mem_of_getElem? hg))
  have hfirst : Position.Precedes (q ++ [.first]) (q ++ [.second]) :=
    (Position.precedes_append_left_iff q _ _).mpr (.rel Nat.one_lt_two)
  have hki : k < i := lt_of_precedes hk hg hfirst
  rw [← hbefore k hki] at hk
  exact Position.Precedes.irrefl _ (precedes_of_lt hk hf hki)

/-- Formulas with the same depths and with the same positions up to a place have the same position
there, where it is one below the root. -/
theorem eq_of_depths (h : f.positions.map List.length = g.positions.map List.length)
    (hbefore : ∀ k < i, f.positions[k]? = g.positions[k]?)
    (hf : f.positions[i]? = some (q ++ [s])) (hg : g.positions[i]? = some (q' ++ [s'])) :
    q ++ [s] = q' ++ [s'] := by
  -- the parents stand at the nearest place that is one level less deep, which is the same
  obtain ⟨j, hj⟩ := List.getElem?_of_mem (mem_positions_of_append (List.mem_of_getElem? hf))
  have hfabove : NearestAbove (f.positions.map List.length) i j := nearestAbove_of_getElem? hf hj
  have hgabove : g.positions[j]? = some q' := by
    rw [h, nearestAbove_iff hg (List.concat_ne_nil s' q'), List.dropLast_concat] at hfabove
    exact hfabove
  obtain rfl : q = q' := by
    rw [← hbefore j hfabove.1, hj] at hgabove
    exact Option.some.inj hgabove
  cases s with
  | first =>
    cases s' with
    | first => rfl
    | second => exact absurd hg (not_first_and_second hbefore hf)
  | second =>
    cases s' with
    | first => exact absurd hf (not_first_and_second (fun k hk => (hbefore k hk).symm) hg)
    | second => rfl

/-- The depths in pre-order determine the positions. -/
theorem positions_eq_of_depths (h : f.positions.map List.length = g.positions.map List.length) :
    f.positions = g.positions := by
  refine List.ext_getElem? fun i => ?_
  -- the positions listed before are the same, and the depth fixes the next one
  induction i using Nat.strongRecOn with
  | ind i ih =>
    have hdepths : f.positions[i]?.map List.length = g.positions[i]?.map List.length := by
      rw [← List.getElem?_map, h, List.getElem?_map]
    cases hf : f.positions[i]? with
    | none =>
      rw [hf, Option.map_none, eq_comm, Option.map_eq_none_iff] at hdepths
      exact hdepths.symm
    | some p =>
      rw [hf, Option.map_some, eq_comm, Option.map_eq_some_iff] at hdepths
      obtain ⟨p', hg, hlength⟩ := hdepths
      rw [hg, Option.some_inj]
      rcases List.eq_nil_or_concat' p with rfl | ⟨q, s, rfl⟩
      · exact (List.eq_nil_of_length_eq_zero hlength).symm
      rcases List.eq_nil_or_concat' p' with rfl | ⟨q', s', rfl⟩
      · simp at hlength
      · exact eq_of_depths h ih hf hg

end Formula

end Propositional
