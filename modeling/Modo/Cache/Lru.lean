import Mathlib.Data.List.Nodup
import Mathlib.Data.PNat.Basic
import Modo.Lib.HashMap

/-!
# The LRU cache

`LruCache` keeps its entries in a hash map and the order of their use in a
queue, whose front is the least recently used key.  `get` and `put` move the key
to the back.

What the cache is for is said by a list of entries in the order of their use, the
`RecencyList`.  `Represents` relates the two, `get_represents` and
`put_represents` say that the operations keep it, and `lru_refines` follows for
every sequence of operations.
-/

namespace Modo.Cache

variable {K V : Type*} [DecidableEq K]

/-! ## The cache -/

structure LruCache (K V : Type*) where
  map : HashMap K V
  /-- The keys, least recently used first. -/
  order : List K
  capacity : ℕ+

namespace LruCache

def new (capacity : ℕ+) : LruCache K V where
  map := ∅
  order := []
  capacity := capacity

/-- Take the key out of the queue, at its position. -/
def unlink (key : K) (order : List K) : List K :=
  match order.idxOf? key with
  | none => order
  | some pos => order.eraseIdx pos

def get (key : K) (cache : LruCache K V) : Option V × LruCache K V :=
  if key ∈ cache.map then
    (cache.map.lookup key, { cache with order := unlink key cache.order ++ [key] })
  else (none, cache)

/-- What `put` does before it inserts: an existing key leaves the queue, a new one
evicts the front of the queue when the cache is full. -/
def makeRoom (key : K) (cache : LruCache K V) : LruCache K V :=
  if key ∈ cache.map then { cache with order := unlink key cache.order }
  else if cache.capacity ≤ cache.map.len then
    match cache.order with
    | [] => cache
    | evicted :: order => { cache with map := cache.map.erase evicted, order := order }
  else cache

def put (key : K) (value : V) (cache : LruCache K V) : LruCache K V :=
  let cache := makeRoom key cache
  { cache with map := cache.map.insert key value, order := cache.order ++ [key] }

end LruCache

/-! ## The reference -/

/-- The entries, least recently used first. -/
abbrev RecencyList (K V : Type*) := List (K × V)

namespace RecencyList

/-- The other entries. -/
def without (key : K) (entries : RecencyList K V) : RecencyList K V :=
  entries.filter fun entry => entry.1 != key

/-- A key that is there becomes the most recently used. -/
def get (key : K) (entries : RecencyList K V) : Option V × RecencyList K V :=
  match entries.lookup key with
  | some value => (some value, without key entries ++ [(key, value)])
  | none => (none, entries)

/-- The key becomes the most recently used, with the new value; a new key that
would exceed the capacity evicts the least recently used one. -/
def put (capacity : ℕ+) (key : K) (value : V) (entries : RecencyList K V) : RecencyList K V :=
  if key ∈ entries.map Prod.fst then without key entries ++ [(key, value)]
  else if (capacity : ℕ) < entries.length + 1 then entries.tail ++ [(key, value)]
  else entries ++ [(key, value)]

end RecencyList

/-! ## Operations keep the representation -/

/-- The cache holds the entries, in their order. -/
structure Represents (cache : LruCache K V) (entries : RecencyList K V) : Prop where
  order_eq : cache.order = entries.map Prod.fst
  lookup_eq : ∀ key, cache.map.lookup key = entries.lookup key
  nodup : cache.order.Nodup
  len_le : cache.map.len ≤ cache.capacity

theorem unlink_eq_erase (key : K) (order : List K) :
    LruCache.unlink key order = order.erase key :=
  (List.erase_eq_eraseIdx order key).symm

section Represents

variable {cache : LruCache K V} {entries : RecencyList K V}

theorem Represents.mem_iff (hrepresents : Represents cache entries) {key : K} :
    key ∈ cache.map ↔ key ∈ cache.order := by
  rw [← AList.lookup_isSome, hrepresents.lookup_eq, List.lookup_isSome_iff, hrepresents.order_eq,
    List.mem_map]
  simp only [beq_iff_eq, eq_comm (a := key)]

/-- The queue holds each key of the map once. -/
theorem Represents.order_perm (hrepresents : Represents cache entries) :
    cache.order.Perm cache.map.keys := by
  rw [List.perm_ext_iff_of_nodup hrepresents.nodup cache.map.keys_nodup]
  intro key
  rw [← AList.mem_keys, hrepresents.mem_iff]

theorem Represents.length_eq (hrepresents : Represents cache entries) :
    entries.length = cache.map.len := by
  have horder := hrepresents.order_perm.length_eq
  rw [hrepresents.order_eq, List.length_map] at horder
  rw [horder, AList.len_eq_length_keys]

end Represents

theorem lookup_without (key other : K) (entries : RecencyList K V) :
    (entries.without key).lookup other = if other = key then none else entries.lookup other :=
  List.lookup_filter_ne key other entries

theorem map_fst_without (key : K) {entries : RecencyList K V}
    (hnodup : (entries.map Prod.fst).Nodup) :
    (entries.without key).map Prod.fst = (entries.map Prod.fst).erase key := by
  rw [hnodup.erase_eq_filter, List.filter_map, RecencyList.without]
  rfl

/-- An entry put behind entries that do not have its key. -/
theorem lookup_append_entry {kept : RecencyList K V} {key : K} (hkept : kept.lookup key = none)
    (value : V) (other : K) :
    (kept ++ [(key, value)]).lookup other =
      if other = key then some value else kept.lookup other := by
  rw [List.lookup_append, List.lookup_cons, List.lookup_nil]
  by_cases hother : other = key
  · rw [if_pos hother, hother, hkept, beq_self_eq_true, Option.none_or]
  · rw [if_neg hother, beq_false_of_ne hother, Option.or_none]

theorem nodup_erase_append (key : K) {order : List K} (hnodup : order.Nodup) :
    (order.erase key ++ [key]).Nodup := by
  rw [List.nodup_append]
  refine ⟨hnodup.erase key, List.nodup_singleton key, ?_⟩
  intro other hother last hlast
  rw [List.mem_singleton] at hlast
  rw [hlast]
  exact ((hnodup.mem_erase_iff).mp hother).1

section Operations

variable {cache : LruCache K V} {entries : RecencyList K V}

theorem get_represents (hrepresents : Represents cache entries) (key : K) :
    (cache.get key).1 = (entries.get key).1 ∧
      Represents (cache.get key).2 (entries.get key).2 := by
  unfold LruCache.get RecencyList.get
  cases hlookup : entries.lookup key with
  | none =>
      have habsent : key ∉ cache.map := by
        rw [← AList.lookup_eq_none, hrepresents.lookup_eq, hlookup]
      rw [if_neg habsent]
      exact ⟨rfl, hrepresents⟩
  | some value =>
      have hpresent : key ∈ cache.map := by
        rw [← AList.lookup_isSome, hrepresents.lookup_eq, hlookup, Option.isSome_some]
      rw [if_pos hpresent, hrepresents.lookup_eq, hlookup, unlink_eq_erase]
      refine ⟨rfl, ⟨?_, ?_, nodup_erase_append key hrepresents.nodup, hrepresents.len_le⟩⟩
      · rw [List.map_append, List.map_singleton,
          map_fst_without key (hrepresents.order_eq ▸ hrepresents.nodup), hrepresents.order_eq]
      · intro other
        rw [hrepresents.lookup_eq, lookup_append_entry (by simp [lookup_without]), lookup_without]
        by_cases hother : other = key
        · rw [if_pos hother, hother, hlookup]
        · rw [if_neg hother, if_neg hother]

/-- The front of the queue is evicted. -/
theorem evict_represents {evicted : K × V} {rest : RecencyList K V}
    (hrepresents : Represents cache (evicted :: rest)) :
    Represents { cache with map := cache.map.erase evicted.1, order := rest.map Prod.fst }
      rest := by
  have hnodup : (evicted.1 :: rest.map Prod.fst).Nodup := by
    have horder := hrepresents.order_eq
    rw [List.map_cons] at horder
    exact horder ▸ hrepresents.nodup
  rw [List.nodup_cons] at hnodup
  refine ⟨rfl, ?_, hnodup.2, ?_⟩
  · intro other
    rw [AList.lookup_erase_eq, hrepresents.lookup_eq, List.lookup_cons]
    by_cases hother : other = evicted.1
    · rw [if_pos hother, hother, eq_comm, List.lookup_eq_none_iff]
      intro entry hentry
      have hne : evicted.1 ≠ entry.1 := fun heq => hnodup.1 (heq ▸ List.mem_map_of_mem hentry)
      simpa using hne
    · rw [if_neg hother, beq_false_of_ne hother]
  · refine le_trans ?_ hrepresents.len_le
    rw [AList.len_eq_length_keys, AList.len_eq_length_keys, AList.keys_erase]
    exact List.length_erase_le

/-- A new key takes a free place. -/
theorem insert_represents (hrepresents : Represents cache entries) {key : K}
    (habsent : key ∉ cache.map) (hroom : cache.map.len < cache.capacity) (value : V) :
    Represents { cache with map := cache.map.insert key value, order := cache.order ++ [key] }
      (entries ++ [(key, value)]) := by
  refine ⟨?_, ?_, ?_, ?_⟩
  · rw [List.map_append, List.map_singleton, hrepresents.order_eq]
  · intro other
    rw [AList.lookup_insert_eq, hrepresents.lookup_eq, lookup_append_entry]
    rw [← hrepresents.lookup_eq, AList.lookup_eq_none]
    exact habsent
  · have habsent' : key ∉ cache.order := hrepresents.mem_iff.not.mp habsent
    have hnodup := nodup_erase_append key hrepresents.nodup
    rwa [List.erase_of_not_mem habsent'] at hnodup
  · rw [AList.len_insert_of_notMem habsent]
    exact hroom

theorem put_represents (hrepresents : Represents cache entries) (key : K) (value : V) :
    Represents (cache.put key value) (entries.put cache.capacity key value) := by
  unfold LruCache.put LruCache.makeRoom RecencyList.put
  by_cases hpresent : key ∈ cache.map
  · have hmem : key ∈ entries.map Prod.fst := hrepresents.order_eq ▸ hrepresents.mem_iff.mp hpresent
    rw [if_pos hpresent, if_pos hmem, unlink_eq_erase]
    refine ⟨?_, ?_, nodup_erase_append key hrepresents.nodup, ?_⟩
    · rw [List.map_append, List.map_singleton,
        map_fst_without key (hrepresents.order_eq ▸ hrepresents.nodup), hrepresents.order_eq]
    · intro other
      rw [AList.lookup_insert_eq, hrepresents.lookup_eq,
        lookup_append_entry (by simp [lookup_without]), lookup_without]
      by_cases hother : other = key
      · rw [if_pos hother, if_pos hother]
      · rw [if_neg hother, if_neg hother, if_neg hother]
    · rw [AList.len_insert_of_mem hpresent]
      exact hrepresents.len_le
  · have hmem : key ∉ entries.map Prod.fst :=
      hrepresents.order_eq ▸ hrepresents.mem_iff.not.mp hpresent
    rw [if_neg hpresent, if_neg hmem, hrepresents.length_eq]
    by_cases hfull : (cache.capacity : ℕ) ≤ cache.map.len
    · rw [if_pos hfull, if_pos (Nat.lt_succ_of_le hfull)]
      -- a full cache has a front to evict, since its capacity is not zero
      cases entries with
      | nil =>
          have hlength := hrepresents.length_eq
          have hpos := cache.capacity.pos
          rw [List.length_nil] at hlength
          omega
      | cons evicted rest =>
          have horder : cache.order = evicted.1 :: rest.map Prod.fst := hrepresents.order_eq
          rw [horder]
          refine insert_represents (evict_represents hrepresents) ?_ ?_ value
          · rw [AList.mem_erase]
            exact fun hkey => hpresent hkey.2
          · have hevicted : evicted.1 ∈ cache.map := by
              rw [hrepresents.mem_iff, horder]
              exact List.mem_cons_self
            have hlength := hrepresents.length_eq
            have hle := hrepresents.len_le
            rw [List.length_cons] at hlength
            simp only [AList.len_erase_of_mem hevicted]
            omega
    · rw [if_neg hfull, if_neg (by omega)]
      exact insert_represents hrepresents hpresent (Nat.lt_of_not_le hfull) value

end Operations

/-! ## Sequences of operations -/

/-- A call. -/
inductive Operation (K V : Type*) where
  | get (key : K)
  | put (key : K) (value : V)

/-- The value returned, if any, and the cache after a call. -/
def LruCache.perform (cache : LruCache K V) : Operation K V → Option V × LruCache K V
  | .get key => cache.get key
  | .put key value => (none, cache.put key value)

/-- The values returned by the calls, and the cache after them. -/
def LruCache.run : LruCache K V → List (Operation K V) → List (Option V) × LruCache K V
  | cache, [] => ([], cache)
  | cache, operation :: rest =>
      let (result, next) := cache.perform operation
      let (results, final) := next.run rest
      (result :: results, final)

/-- A call on the reference. -/
def RecencyList.perform (capacity : ℕ+) (entries : RecencyList K V) :
    Operation K V → Option V × RecencyList K V
  | .get key => entries.get key
  | .put key value => (none, entries.put capacity key value)

/-- The values the reference returns, and its entries at the end. -/
def RecencyList.run (capacity : ℕ+) :
    RecencyList K V → List (Operation K V) → List (Option V) × RecencyList K V
  | entries, [] => ([], entries)
  | entries, operation :: rest =>
      let (result, next) := entries.perform capacity operation
      let (results, final) := RecencyList.run capacity next rest
      (result :: results, final)

theorem new_represents (capacity : ℕ+) :
    Represents (LruCache.new capacity : LruCache K V) [] where
  order_eq := rfl
  lookup_eq key := by simp [LruCache.new]
  nodup := List.nodup_nil
  len_le := Nat.zero_le _

@[simp] theorem capacity_perform (cache : LruCache K V) (operation : Operation K V) :
    (cache.perform operation).2.capacity = cache.capacity := by
  cases operation with
  | get key =>
      simp only [LruCache.perform, LruCache.get]
      split <;> rfl
  | put key value =>
      simp only [LruCache.perform, LruCache.put, LruCache.makeRoom]
      split_ifs
      · rfl
      · cases cache.order <;> rfl
      · rfl

theorem perform_represents {cache : LruCache K V} {entries : RecencyList K V}
    (hrepresents : Represents cache entries) (operation : Operation K V) :
    (cache.perform operation).1 = (entries.perform cache.capacity operation).1 ∧
      Represents (cache.perform operation).2 (entries.perform cache.capacity operation).2 := by
  cases operation with
  | get key => exact get_represents hrepresents key
  | put key value => exact ⟨rfl, put_represents hrepresents key value⟩

/-- Every run returns what the reference returns. -/
theorem run_represents {cache : LruCache K V} {entries : RecencyList K V}
    (hrepresents : Represents cache entries) (operations : List (Operation K V)) :
    (cache.run operations).1 = (entries.run cache.capacity operations).1 ∧
      Represents (cache.run operations).2 (entries.run cache.capacity operations).2 ∧
      (cache.run operations).2.capacity = cache.capacity := by
  induction operations generalizing cache entries with
  | nil => exact ⟨rfl, hrepresents, rfl⟩
  | cons operation rest ih =>
      obtain ⟨hresult, hnext⟩ := perform_represents hrepresents operation
      obtain ⟨hresults, hfinal, hcapacity⟩ := ih hnext
      rw [capacity_perform] at hresults hfinal hcapacity
      refine ⟨?_, hfinal, hcapacity⟩
      simp only [LruCache.run, RecencyList.run, hresult, hresults]

/-- **The cache behaves as the reference**: after any calls on a new cache it has
returned what the reference returns and holds its entries; the queue is a
permutation of the keys of the map without duplicates, and there are at most
`capacity` entries. -/
theorem lru_refines (capacity : ℕ+) (operations : List (Operation K V)) :
    ((LruCache.new capacity).run operations).1 = (RecencyList.run capacity [] operations).1 ∧
    ((LruCache.new capacity).run operations).2.order =
      (RecencyList.run capacity [] operations).2.map Prod.fst ∧
    (∀ key, ((LruCache.new capacity).run operations).2.map.lookup key =
      (RecencyList.run capacity [] operations).2.lookup key) ∧
    ((LruCache.new capacity).run operations).2.order.Nodup ∧
    ((LruCache.new capacity).run operations).2.order.Perm
      ((LruCache.new capacity).run operations).2.map.keys ∧
    ((LruCache.new capacity).run operations).2.map.len ≤ capacity := by
  obtain ⟨hresults, hrepresents, hcapacity⟩ := run_represents (new_represents capacity) operations
  refine ⟨hresults, hrepresents.order_eq, hrepresents.lookup_eq, hrepresents.nodup,
    hrepresents.order_perm, ?_⟩
  have hle := hrepresents.len_le
  rw [hcapacity] at hle
  exact hle

/-- The example of the documentation. -/
example : ((LruCache.new 2).run [.put "a" 1, .put "b" 2, .get "a", .put "c" 3, .get "b"]).1 =
    [none, none, some 1, none, none] := by
  decide

end Modo.Cache
