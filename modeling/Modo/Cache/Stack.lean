import Mathlib.Data.List.Induction
import Modo.Cache.Lru

/-!
# Which keys a cache holds

A cache that is used through it alone touches a key at a time: it looks the key up, and puts
it where it is missing.  The keys then are the `capacity` that were touched last, and one more
touch keeps them so (`touch_entriesOf`).
-/

namespace Modo.Cache

variable {K V : Type*} [DecidableEq K]

/-- The keys, each once, last touched first. -/
def recent (keys : List K) : List K := keys.foldl (fun kept key => key :: kept.erase key) []

namespace RecencyList

/-- Look a key up, and put it if it is missing. -/
def touch (capacity : ℕ+) (key : K) (value : V) (entries : RecencyList K V) : RecencyList K V :=
  match get key entries with
  | (some _, touched) => touched
  | (none, touched) => put capacity key value touched

section Touch

variable {capacity : ℕ+} {key : K} {value : V} {entries : RecencyList K V}

theorem touch_of_get_isSome (hget : (get key entries).1.isSome) :
    touch capacity key value entries = (get key entries).2 := by
  unfold touch
  cases h : get key entries with
  | mk found touched =>
      cases found with
      | some found => rfl
      | none => simp [h] at hget

theorem get_of_eq_none (hget : (get key entries).1 = none) : (get key entries).2 = entries := by
  unfold get at hget ⊢
  cases h : entries.lookup key with
  | some value => simp [h] at hget
  | none => rfl

theorem touch_of_get_eq_none (hget : (get key entries).1 = none) :
    touch capacity key value entries = put capacity key value (get key entries).2 := by
  unfold touch
  cases h : get key entries with
  | mk found touched =>
      cases found with
      | some found => simp [h] at hget
      | none => rfl

end Touch

end RecencyList

theorem recent_concat (keys : List K) (key : K) :
    recent (keys ++ [key]) = key :: (recent keys).erase key := by
  rw [recent, List.foldl_append]
  rfl

theorem nodup_recent (keys : List K) : (recent keys).Nodup := by
  induction keys using List.reverseRecOn with
  | nil => exact List.nodup_nil
  | append_singleton keys key ih =>
      rw [recent_concat]
      exact List.nodup_cons.mpr ⟨ih.not_mem_erase, ih.erase key⟩

theorem mem_recent {keys : List K} {key : K} : key ∈ recent keys ↔ key ∈ keys := by
  induction keys using List.reverseRecOn with
  | nil => rfl
  | append_singleton keys last ih =>
      rw [recent_concat, List.mem_cons, List.mem_append, List.mem_singleton, or_comm]
      by_cases heq : key = last
      · exact iff_of_true (.inr heq) (.inr heq)
      · rw [List.mem_erase_of_ne heq, ih]

/-! ## The last keys -/

/-- The entries of some keys, least recently used first. -/
def entriesOf (value : K → V) (keys : List K) : RecencyList K V :=
  keys.reverse.map fun key => (key, value key)

variable {value : K → V} {kept : List K} {key : K}

theorem lookup_entriesOf (keys : List K) :
    (entriesOf value keys).lookup key = if key ∈ keys then some (value key) else none := by
  have hmap : ∀ keys : List K, (keys.map fun key => (key, value key)).lookup key =
      if key ∈ keys then some (value key) else none := by
    intro keys
    induction keys with
    | nil => rfl
    | cons first rest ih =>
        rw [List.map_cons, List.lookup_cons, ih]
        by_cases heq : key = first
        · rw [heq, beq_self_eq_true, if_pos List.mem_cons_self]
        · rw [beq_false_of_ne heq]
          simp [heq]
  rw [entriesOf, hmap]
  simp

theorem without_entriesOf (hnodup : kept.Nodup) :
    RecencyList.without key (entriesOf value kept) = entriesOf value (kept.erase key) := by
  rw [RecencyList.without, entriesOf, List.filter_map, entriesOf, hnodup.erase_eq_filter,
    List.filter_reverse]
  rfl

/-- Among the first `n + 1` elements, erasing one makes room for another. -/
theorem erase_take_succ {elements : List K} (n : ℕ) (hmem : key ∈ elements.take (n + 1)) :
    (elements.take (n + 1)).erase key = (elements.erase key).take n := by
  induction elements generalizing n with
  | nil => simp at hmem
  | cons first rest ih =>
      by_cases heq : first = key
      · rw [heq, List.take_succ_cons, List.erase_cons_head, List.erase_cons_head]
      · rw [List.take_succ_cons] at hmem ⊢
        have hrest := (List.mem_cons.mp hmem).resolve_left (Ne.symm heq)
        cases n with
        | zero => simp at hrest
        | succ n =>
            have hne : (first == key) = false := beq_false_of_ne heq
            rw [List.erase_cons_tail (by simp [hne]), List.erase_cons_tail (by simp [hne]),
              List.take_succ_cons, ih n hrest]

/-- Erasing an element behind the first ones leaves them. -/
theorem take_erase_of_notMem {elements : List K} (n : ℕ) (hmem : key ∉ elements.take (n + 1)) :
    (elements.erase key).take n = elements.take n := by
  induction elements generalizing n with
  | nil => rfl
  | cons first rest ih =>
      rw [List.take_succ_cons, List.mem_cons, not_or] at hmem
      rw [List.erase_cons_tail (by simpa using Ne.symm hmem.1)]
      cases n with
      | zero => rfl
      | succ n => rw [List.take_succ_cons, List.take_succ_cons, ih n hmem.2]

omit [DecidableEq K] in
theorem map_fst_entriesOf (keys : List K) : (entriesOf value keys).map Prod.fst = keys.reverse := by
  rw [entriesOf, List.map_map]
  exact List.map_id _

omit [DecidableEq K] in
theorem entriesOf_cons (first : K) (rest : List K) :
    entriesOf value (first :: rest) = entriesOf value rest ++ [(first, value first)] := by
  simp [entriesOf]

/-- A touched key comes to the front of those that are kept. -/
theorem touch_entriesOf (capacity : ℕ+) (hnodup : kept.Nodup) :
    RecencyList.touch capacity key (value key) (entriesOf value (kept.take capacity)) =
      entriesOf value ((key :: kept.erase key).take capacity) := by
  obtain ⟨room, hroom⟩ : ∃ room, (capacity : ℕ) = room + 1 :=
    ⟨capacity - 1, (Nat.sub_add_cancel capacity.pos).symm⟩
  have htake : (key :: kept.erase key).take capacity = key :: (kept.erase key).take room := by
    rw [hroom, List.take_succ_cons]
  by_cases hmem : key ∈ kept.take capacity
  · have hget : RecencyList.get key (entriesOf value (kept.take capacity)) =
        (some (value key), entriesOf value ((kept.take capacity).erase key) ++
          [(key, value key)]) := by
      rw [RecencyList.get, lookup_entriesOf, if_pos hmem]
      simp only [without_entriesOf (hnodup.sublist (List.take_sublist _ _))]
    have herase : (kept.take capacity).erase key = (kept.erase key).take room := by
      rw [hroom] at hmem ⊢
      exact erase_take_succ room hmem
    rw [RecencyList.touch, hget, htake, herase, entriesOf_cons]
  · have hget : RecencyList.get key (entriesOf value (kept.take capacity)) =
        (none, entriesOf value (kept.take capacity)) := by
      rw [RecencyList.get, lookup_entriesOf, if_neg hmem]
    have hkeys : key ∉ (entriesOf value (kept.take capacity)).map Prod.fst := by
      rw [map_fst_entriesOf, List.mem_reverse]
      exact hmem
    have hlength : (entriesOf value (kept.take capacity)).length =
        min (capacity : ℕ) kept.length := by simp [entriesOf]
    rw [RecencyList.touch, hget, htake, entriesOf_cons,
      take_erase_of_notMem room (hroom ▸ hmem)]
    simp only [RecencyList.put, if_neg hkeys, hlength]
    split_ifs with hfull
    · -- the key that was touched longest ago goes
      have hlt : room < kept.length := by omega
      have hlast : kept.take capacity = kept.take room ++ [kept[room]] := by
        rw [hroom, List.take_succ_eq_append_getElem hlt]
      rw [hlast, entriesOf, List.reverse_append]
      rfl
    · rw [List.take_of_length_le (show kept.length ≤ capacity by omega),
        List.take_of_length_le (show kept.length ≤ room by omega)]

end Modo.Cache
