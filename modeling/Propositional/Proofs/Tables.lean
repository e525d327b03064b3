import Mathlib.Data.List.Induction
import Mathlib.Data.List.Nodup
import Propositional.Proofs.Lists
import Propositional.Table

/-!
# Looking up in tables

What a table says about a key, in terms of the row of entries that it was made of.

* `Table.get?_eq_some_iff`     — a key has the value of its entry;
* `Table.isSome_get?_iff`, `Table.ext_get?`, `Table.ext_getD` — the keys are those with values, and
  tables with the same keys and values are equal;
* `Table.get?_ofList`          — of several entries for one key the last one counts;
* `Table.get?_ofList_eq_some_iff`, `Table.entries_ofList` — with distinct keys, every entry counts
  and stands in its place;
* `Table.keys_ofList`          — a key stands where it came first.
-/

namespace Propositional

variable {κ ν : Type} [DecidableEq κ]

/-- In a row of entries with distinct keys, looking up a key finds its entry. -/
theorem lookup_eq_some_iff_mem {entries : List (κ × ν)} (h : (entries.map Prod.fst).Nodup)
    {key : κ} {value : ν} : entries.lookup key = some value ↔ (key, value) ∈ entries := by
  induction entries with
  | nil => simp
  | cons entry rest ih =>
    obtain ⟨k, v⟩ := entry
    rw [List.map_cons, List.nodup_cons] at h
    obtain ⟨hnew, hrest⟩ := h
    rw [List.lookup_cons, List.mem_cons]
    by_cases hk : key = k
    · subst hk
      -- an entry further back would repeat the key
      have hback : (key, value) ∉ rest := fun hm => hnew (List.mem_map.mpr ⟨_, hm, rfl⟩)
      simp [hback, eq_comm]
    · have hb : (key == k) = false := by simpa using hk
      rw [hb, ih hrest]
      simp [hk]

/-- The entry of a new key is put at the end. -/
theorem setEntry_of_not_mem {key : κ} (value : ν) {entries : List (κ × ν)}
    (h : key ∉ entries.map Prod.fst) : setEntry key value entries = entries ++ [(key, value)] := by
  induction entries with
  | nil => rfl
  | cons entry rest ih =>
    obtain ⟨k, v⟩ := entry
    rw [List.map_cons, List.mem_cons, not_or] at h
    rw [setEntry, if_neg (Ne.symm h.1), ih h.2, List.cons_append]

namespace Table

/-- A key has the value that stands beside it. -/
theorem get?_eq_some_iff (t : Table κ ν) {key : κ} {value : ν} :
    t.get? key = some value ↔ (key, value) ∈ t.entries :=
  lookup_eq_some_iff_mem t.nodup

/-- A key has a value when it is listed. -/
theorem isSome_get?_iff (t : Table κ ν) {key : κ} : (t.get? key).isSome = true ↔ key ∈ t.keys := by
  rw [Option.isSome_iff_exists, keys, List.mem_map]
  simp only [t.get?_eq_some_iff, Prod.exists, exists_and_right, exists_eq_right]

/-- The entries are the keys with their values. -/
theorem entries_eq_filterMap (t : Table κ ν) :
    t.entries = t.keys.filterMap fun k => (t.get? k).map fun v => (k, v) := by
  have hentry : ∀ e ∈ t.entries,
      ((fun k => (t.get? k).map fun v => (k, v)) ∘ Prod.fst) e = some e := by
    rintro ⟨k, v⟩ he
    rw [Function.comp, t.get?_eq_some_iff.mpr he, Option.map_some]
  rw [keys, List.filterMap_map, List.filterMap_congr hentry, List.filterMap_some]

/-- A table has the values of a function when each of its keys has. -/
theorem entries_eq_map_iff (t : Table κ ν) {v : κ → ν} :
    t.entries = t.keys.map (fun k => (k, v k)) ↔ ∀ k ∈ t.keys, t.get? k = some (v k) := by
  constructor
  · intro h k hk
    rw [t.get?_eq_some_iff, h]
    exact List.mem_map.mpr ⟨k, hk, rfl⟩
  · intro h
    rw [t.entries_eq_filterMap, ← List.filterMap_eq_map]
    exact List.filterMap_congr fun k hk => by rw [h k hk, Option.map_some, Function.comp]

/-- Tables that list the same keys with the same values are equal. -/
theorem ext_get? {t u : Table κ ν} (hkeys : t.keys = u.keys)
    (hvalues : ∀ key, t.get? key = u.get? key) : t = u := by
  have hentries : t.entries = u.entries := by
    rw [t.entries_eq_filterMap, u.entries_eq_filterMap, hkeys]
    simp only [hvalues]
  cases t
  cases u
  cases hentries
  rfl

/-- It is enough to compare the values with one and the same value in the place of missing ones. -/
theorem ext_getD {t u : Table κ ν} (hkeys : t.keys = u.keys) (d : ν)
    (hvalues : ∀ key, (t.get? key).getD d = (u.get? key).getD d) : t = u := by
  refine ext_get? hkeys fun key => ?_
  have hlisted : (t.get? key).isSome = (u.get? key).isSome := by
    rw [Bool.eq_iff_iff, isSome_get?_iff, isSome_get?_iff, hkeys]
  have hvalue := hvalues key
  -- neither table has a value, or both have, and then it is the one that is compared
  revert hlisted hvalue
  cases t.get? key <;> cases u.get? key <;> simp

/-- The empty table has no values. -/
@[simp]
theorem get?_empty (key : κ) : (empty : Table κ ν).get? key = none := rfl

/-- Of several entries for one key, the last one counts. -/
theorem get?_ofList (entries : List (κ × ν)) (key : κ) :
    (ofList entries).get? key = entries.reverse.lookup key := by
  suffices hfold : ∀ t : Table κ ν, (entries.foldl (fun t e => t.insert e.1 e.2) t).get? key =
      (entries.reverse.lookup key).or (t.get? key) by
    rw [ofList, hfold, get?_empty, Option.or_none]
  induction entries with
  | nil => intro t; simp
  | cons entry rest ih =>
    intro t
    obtain ⟨k, v⟩ := entry
    rw [List.foldl_cons, ih, List.reverse_cons, List.lookup_append, get?_insert, Option.or_assoc]
    by_cases hk : key = k
    · simp [hk]
    · have hb : (key == k) = false := by simpa using hk
      simp [hk, hb, List.lookup_cons]

/-- When no key is repeated, every entry counts. -/
theorem get?_ofList_eq_some_iff {entries : List (κ × ν)} (h : (entries.map Prod.fst).Nodup)
    {key : κ} {value : ν} : (ofList entries).get? key = some value ↔ (key, value) ∈ entries := by
  have hrev : (entries.reverse.map Prod.fst).Nodup := by
    rw [List.map_reverse, List.nodup_reverse]
    exact h
  rw [get?_ofList, lookup_eq_some_iff_mem hrev, List.mem_reverse]

/-- When no key is repeated, the table has the entries in their order. -/
theorem entries_ofList {entries : List (κ × ν)} (h : (entries.map Prod.fst).Nodup) :
    (ofList entries).entries = entries := by
  induction entries using List.reverseRecOn with
  | nil => rfl
  | append_singleton entries entry ih =>
    rw [List.map_append, List.map_singleton, List.nodup_append_comm, List.singleton_append,
      List.nodup_cons] at h
    obtain ⟨hnew, hdistinct⟩ := h
    have hbefore : (ofList entries).entries = entries := ih hdistinct
    have hlast : (ofList (entries ++ [entry])).entries =
        setEntry entry.1 entry.2 (ofList entries).entries := by
      rw [ofList, List.foldl_concat]
      rfl
    rw [hlast, hbefore, setEntry_of_not_mem entry.2 hnew]

/-- The keys are those of the entries, each where it came first. -/
theorem keys_ofList (entries : List (κ × ν)) :
    (ofList entries).keys = (entries.map Prod.fst).eraseDups := by
  induction entries using List.reverseRecOn with
  | nil => rfl
  | append_singleton entries entry ih =>
    have hlast : ofList (entries ++ [entry]) = (ofList entries).insert entry.1 entry.2 := by
      rw [ofList, List.foldl_concat]
      rfl
    rw [hlast, keys_insert, ih, List.map_append, List.map_singleton, eraseDups_append_singleton]
    simp only [List.mem_eraseDups]

/-- A key without entry has no value. -/
theorem get?_ofList_eq_none {entries : List (κ × ν)} {key : κ} (h : key ∉ entries.map Prod.fst) :
    (ofList entries).get? key = none := by
  rw [get?_ofList, List.lookup_eq_none_iff]
  intro entry hentry
  refine bne_iff_ne.mpr ?_
  rintro rfl
  exact h (List.mem_map.mpr ⟨entry, List.mem_reverse.mp hentry, rfl⟩)

end Table

end Propositional
