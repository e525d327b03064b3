/-!
# Tables

Finite maps that remember the order in which their keys came.  A key keeps its first place and its
last value, and no key stands twice; the latter is part of the type.

* `Table`          — entries with distinct keys;
* `Table.get?`     — the value of a key;
* `Table.insert`   — gives a key a value, in its place if it has one and at the end otherwise;
* `Table.ofList`   — the table of a row of entries, later ones winning;
* `Table.keys`, `Table.map` — the keys in order, and a change of all values.
-/

namespace Propositional

variable {κ ν μ : Type}

/-- Entries in which a key gets a value: in its place if it has one, at the end otherwise. -/
def setEntry [DecidableEq κ] (key : κ) (value : ν) : List (κ × ν) → List (κ × ν)
  | [] => [(key, value)]
  | (k, v) :: rest => if k = key then (k, value) :: rest else (k, v) :: setEntry key value rest

/-- Setting an entry keeps the keys, except that a new key is put at the end. -/
theorem map_fst_setEntry [DecidableEq κ] (key : κ) (value : ν) (entries : List (κ × ν)) :
    (setEntry key value entries).map Prod.fst =
      if key ∈ entries.map Prod.fst then entries.map Prod.fst
      else entries.map Prod.fst ++ [key] := by
  induction entries with
  | nil => simp [setEntry]
  | cons entry rest ih =>
    obtain ⟨k, v⟩ := entry
    by_cases h : k = key
    · simp [setEntry, h]
    · have hne : key ≠ k := fun e => h e.symm
      rw [setEntry, if_neg h, List.map_cons, ih]
      by_cases hmem : key ∈ rest.map Prod.fst
      · simp [hmem]
      · simp [hmem, hne]

/-- Setting an entry leaves no key twice. -/
theorem nodup_setEntry [DecidableEq κ] (key : κ) (value : ν) {entries : List (κ × ν)}
    (h : (entries.map Prod.fst).Nodup) : ((setEntry key value entries).map Prod.fst).Nodup := by
  rw [map_fst_setEntry]
  split
  · exact h
  · next hmem =>
    rw [List.nodup_append]
    refine ⟨h, by simp, ?_⟩
    intro a ha b hb
    rw [List.mem_singleton] at hb
    subst hb
    exact fun e => hmem (e ▸ ha)

/-- A finite map that remembers the order of its keys. -/
structure Table (κ ν : Type) where
  entries : List (κ × ν)
  -- No key stands twice.
  nodup : (entries.map Prod.fst).Nodup := by simp

namespace Table

/-- The table without entries. -/
def empty : Table κ ν :=
  ⟨[], by simp⟩

/-- The keys in order. -/
def keys (t : Table κ ν) : List κ :=
  t.entries.map Prod.fst

/-- The value of a key. -/
def get? [DecidableEq κ] (t : Table κ ν) (key : κ) : Option ν :=
  t.entries.lookup key

/-- Whether a key has a value. -/
def has [DecidableEq κ] (t : Table κ ν) (key : κ) : Bool :=
  (t.get? key).isSome

/-- Gives a key a value.  A key that is there keeps its place. -/
def insert [DecidableEq κ] (t : Table κ ν) (key : κ) (value : ν) : Table κ ν :=
  ⟨setEntry key value t.entries, nodup_setEntry key value t.nodup⟩

/-- The table of a row of entries: a key stands where it came first with the value that came
last. -/
def ofList [DecidableEq κ] (entries : List (κ × ν)) : Table κ ν :=
  entries.foldl (fun t e => t.insert e.1 e.2) empty

/-- Changes every value, keys and order stay. -/
def map (f : ν → μ) (t : Table κ ν) : Table κ μ :=
  ⟨t.entries.map fun e => (e.1, f e.2), by simpa [Function.comp_def] using t.nodup⟩

/-- Inserting keeps the keys, except that a new key is put at the end. -/
theorem keys_insert [DecidableEq κ] (t : Table κ ν) (key : κ) (value : ν) :
    (t.insert key value).keys = if key ∈ t.keys then t.keys else t.keys ++ [key] :=
  map_fst_setEntry key value t.entries

/-- An inserted key has the inserted value, every other key the value that it had. -/
theorem get?_insert [DecidableEq κ] (t : Table κ ν) (key k : κ) (value : ν) :
    (t.insert key value).get? k = if k = key then some value else t.get? k := by
  obtain ⟨entries, _⟩ := t
  simp only [get?, insert]
  induction entries with
  | nil =>
    by_cases h : k = key
    · simp [setEntry, h]
    · have hb : (k == key) = false := by simpa using h
      simp [setEntry, List.lookup_cons, h, hb]
  | cons entry rest ih =>
    obtain ⟨k', v⟩ := entry
    by_cases h : k' = key
    · -- The entry is the one that the insertion changes.
      by_cases hk : k = key
      · simp [setEntry, h, hk]
      · have hb : (k == key) = false := by simpa using hk
        simp [setEntry, List.lookup_cons, h, hk, hb]
    · -- The insertion goes on behind the entry.
      by_cases hk : k = k'
      · simp [setEntry, h, hk]
      · have hb : (k == k') = false := by simpa using hk
        have hrest : (rest.map Prod.fst).Nodup := by
          have hall : (((k', v) :: rest).map Prod.fst).Nodup := ‹_›
          exact (List.nodup_cons.mp hall).2
        simpa [setEntry, List.lookup_cons, h, hb] using ih hrest

end Table

end Propositional
