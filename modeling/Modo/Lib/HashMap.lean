import Mathlib.Data.List.AList

/-!
# Hash maps

A hash map is a list of entries with distinct keys.  Its order stands for no
iteration order: nothing below depends on it.  Looking up, inserting and erasing
are those of `AList`; `len` and `retain` are added here, with how they go together
with the others.  Lists of pairs, where the first entry of a key counts, have a
lemma of their own (`lookup_filter_ne`).
-/

theorem List.lookup_filter_ne {K V : Type*} [DecidableEq K] (key other : K)
    (entries : List (K × V)) :
    (entries.filter fun entry => entry.1 != key).lookup other =
      if other = key then none else entries.lookup other := by
  induction entries with
  | nil => simp
  | cons entry rest ih =>
      obtain ⟨name, value⟩ := entry
      by_cases hname : name = key
      · rw [List.filter_cons_of_neg (by simpa using hname), ih, List.lookup_cons]
        by_cases hother : other = key
        · rw [if_pos hother, if_pos hother]
        · rw [if_neg hother, if_neg hother, hname, beq_false_of_ne hother]
      · rw [List.filter_cons_of_pos (by simpa using hname), List.lookup_cons, List.lookup_cons, ih]
        by_cases hother : other = key
        · rw [if_pos hother, if_pos hother, hother, beq_false_of_ne (Ne.symm hname)]
        · rw [if_neg hother, if_neg hother]

/-- A finite map. -/
abbrev HashMap (K V : Type*) := AList fun _ : K => V

namespace AList

variable {K V : Type*}

/-- The number of entries. -/
def len (map : HashMap K V) : ℕ := map.entries.length

/-- Keep the entries that satisfy `p`. -/
def retain (p : K → V → Bool) (map : HashMap K V) : HashMap K V where
  entries := map.entries.filter fun entry => p entry.1 entry.2
  nodupKeys := map.nodupKeys.sublist List.filter_sublist

theorem len_eq_length_keys (map : HashMap K V) : map.len = map.keys.length := by
  simp [len, keys, List.keys]

@[simp] theorem len_empty : (∅ : HashMap K V).len = 0 := rfl

theorem len_retain_le (p : K → V → Bool) (map : HashMap K V) : (map.retain p).len ≤ map.len :=
  List.length_filter_le _ _

variable [DecidableEq K]

theorem len_insert_of_mem {key : K} {map : HashMap K V} (hmem : key ∈ map) (value : V) :
    (map.insert key value).len = map.len := by
  rw [len_eq_length_keys, keys_insert, List.length_cons, List.length_erase_of_mem hmem,
    len_eq_length_keys]
  have hpos : 0 < map.keys.length := List.length_pos_of_mem hmem
  omega

theorem len_insert_of_notMem {key : K} {map : HashMap K V} (hmem : key ∉ map) (value : V) :
    (map.insert key value).len = map.len + 1 := by
  rw [len_eq_length_keys, keys_insert, List.length_cons, List.erase_of_not_mem hmem,
    len_eq_length_keys]

theorem len_erase_of_mem {key : K} {map : HashMap K V} (hmem : key ∈ map) :
    (map.erase key).len = map.len - 1 := by
  rw [len_eq_length_keys, keys_erase, List.length_erase_of_mem hmem, len_eq_length_keys]

/-- Look up a key that may be the inserted one. -/
theorem lookup_insert_eq (key other : K) (value : V) (map : HashMap K V) :
    (map.insert key value).lookup other = if other = key then some value else map.lookup other := by
  by_cases hkey : other = key
  · subst hkey
    rw [lookup_insert, if_pos rfl]
  · rw [lookup_insert_ne hkey, if_neg hkey]

theorem lookup_erase_eq (key other : K) (map : HashMap K V) :
    (map.erase key).lookup other = if other = key then none else map.lookup other := by
  by_cases hkey : other = key
  · subst hkey
    rw [lookup_erase, if_pos rfl]
  · rw [lookup_erase_ne hkey, if_neg hkey]

theorem lookup_retain (p : K → V → Bool) (map : HashMap K V) (key : K) :
    (map.retain p).lookup key = (map.lookup key).filter (p key) := by
  ext value
  rw [← Option.mem_def, mem_lookup_iff, retain, List.mem_filter, ← mem_lookup_iff]
  simp [Option.mem_def, Option.filter_eq_some_iff]

/-- Insert the entries of a list, one after the other. -/
def insertAll (entries : List (K × V)) (map : HashMap K V) : HashMap K V :=
  entries.foldl (fun map entry => map.insert entry.1 entry.2) map

@[simp] theorem insertAll_nil (map : HashMap K V) : insertAll [] map = map := rfl

theorem insertAll_cons (entry : K × V) (rest : List (K × V)) (map : HashMap K V) :
    insertAll (entry :: rest) map = insertAll rest (map.insert entry.1 entry.2) := rfl

theorem insertAll_append (first second : List (K × V)) (map : HashMap K V) :
    insertAll (first ++ second) map = insertAll second (insertAll first map) :=
  List.foldl_append

/-- Where no key is inserted twice, what is found is what was inserted. -/
theorem lookup_insertAll {entries : List (K × V)} (hnodup : (entries.map Prod.fst).Nodup)
    {key : K} {value : V} :
    (insertAll entries ∅).lookup key = some value ↔ (key, value) ∈ entries := by
  suffices hmap : ∀ map : HashMap K V, (insertAll entries map).lookup key = some value ↔
      (key, value) ∈ entries ∨ key ∉ entries.map Prod.fst ∧ map.lookup key = some value by
    rw [hmap]
    simp
  intro map
  induction entries generalizing map with
  | nil => simp
  | cons entry rest ih =>
      obtain ⟨name, first⟩ := entry
      rw [List.map_cons, List.nodup_cons] at hnodup
      rw [insertAll_cons, ih hnodup.2, lookup_insert_eq]
      by_cases hname : key = name
      · subst hname
        have habsent : (key, value) ∉ rest := fun hmem =>
          hnodup.1 (List.mem_map.mpr ⟨_, hmem, rfl⟩)
        simp [hnodup.1, habsent, eq_comm]
      · simp [hname]

end AList
