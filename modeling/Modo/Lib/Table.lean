import Mathlib.Data.List.Basic
import Mathlib.Data.List.Nodup
import Mathlib.Data.List.Pairwise

/-!
# Tables with a primary key and a unique index

A `Table key slot` is a list of rows in which no two rows share a primary key
`key row`, and no two rows share an entry of a unique index.  The index may be
partial: `slot row` is `none` for a row the index does not cover.

The statements are the four that change a table.  `insert` and `update` fail,
without effect, when they would violate a constraint; `modify` is an update
that cannot violate the index, because every row it changes keeps its entry or
leaves the index; `delete` never fails.

Row order carries no meaning.  What a statement does is read off `get?`, the
row stored under a key: `get?_insert`, `get?_update`, `get?_modify` and
`get?_delete` say it for every key.  `IsLimited` describes the answers of a
`SELECT … ORDER BY … LIMIT n`, which fixes neither the order of rows that
compare equal nor which of them it cuts off.
-/

/-- Rows with a primary key and one, possibly partial, unique index. -/
structure Table {Row Key Slot : Type*} (key : Row → Key) (slot : Row → Option Slot) where
  /-- The stored rows. -/
  rows : List Row
  /-- The primary key. -/
  key_nodup : (rows.map key).Nodup
  /-- The unique index. -/
  slot_nodup : (rows.filterMap slot).Nodup

namespace Table

variable {Row Key Slot : Type*} {key : Row → Key} {slot : Row → Option Slot}

/-- The table without rows. -/
def empty : Table key slot := ⟨[], List.nodup_nil, List.nodup_nil⟩

/-! ## Reading -/

/-- The row stored under a primary key. -/
def get? [DecidableEq Key] (table : Table key slot) (k : Key) : Option Row :=
  table.rows.find? fun row => key row = k

/-- The row stored under an entry of the unique index. -/
def find? [DecidableEq Slot] (table : Table key slot) (entry : Slot) : Option Row :=
  table.rows.find? fun row => slot row = some entry

theorem key_inj (table : Table key slot) {row other : Row} (hrow : row ∈ table.rows)
    (hother : other ∈ table.rows) (heq : key row = key other) : row = other :=
  List.inj_on_of_nodup_map table.key_nodup hrow hother heq

theorem slot_inj (table : Table key slot) {row other : Row} {entry : Slot}
    (hrow : row ∈ table.rows) (hother : other ∈ table.rows) (hentry : slot row = some entry)
    (heq : slot other = some entry) : row = other := by
  have hnodup := table.slot_nodup
  rw [List.Nodup, List.pairwise_filterMap] at hnodup
  have : Std.Symm fun a b : Row => ∀ i, slot a = some i → ∀ j, slot b = some j → i ≠ j :=
    ⟨fun _ _ h j hj i hi heq => h i hi j hj heq.symm⟩
  by_contra hne
  exact hnodup.forall hrow hother hne entry hentry entry heq rfl

theorem get?_eq_some [DecidableEq Key] {table : Table key slot} {k : Key} {row : Row} :
    table.get? k = some row ↔ row ∈ table.rows ∧ key row = k := by
  constructor
  · intro hget
    exact ⟨List.mem_of_find?_eq_some hget, by simpa using List.find?_some hget⟩
  · rintro ⟨hmem, rfl⟩
    obtain ⟨found, hfound⟩ : ∃ found, table.get? (key row) = some found := by
      rw [← Option.isSome_iff_exists, get?, List.find?_isSome]
      exact ⟨row, hmem, by simp⟩
    have hkey : key found = key row := by simpa using List.find?_some hfound
    rw [hfound, table.key_inj (List.mem_of_find?_eq_some hfound) hmem hkey]

theorem get?_key [DecidableEq Key] {table : Table key slot} {k : Key} {row : Row}
    (hget : table.get? k = some row) : key row = k :=
  (get?_eq_some.mp hget).2

theorem mem_of_get? [DecidableEq Key] {table : Table key slot} {k : Key} {row : Row}
    (hget : table.get? k = some row) : row ∈ table.rows :=
  (get?_eq_some.mp hget).1

theorem get?_eq_none [DecidableEq Key] {table : Table key slot} {k : Key} :
    table.get? k = none ↔ ∀ row ∈ table.rows, key row ≠ k := by
  simp [get?]

theorem find?_eq_some [DecidableEq Slot] {table : Table key slot} {entry : Slot} {row : Row} :
    table.find? entry = some row ↔ row ∈ table.rows ∧ slot row = some entry := by
  constructor
  · intro hfind
    exact ⟨List.mem_of_find?_eq_some hfind, by simpa using List.find?_some hfind⟩
  · rintro ⟨hmem, hentry⟩
    obtain ⟨found, hfound⟩ : ∃ found, table.find? entry = some found := by
      rw [← Option.isSome_iff_exists, find?, List.find?_isSome]
      exact ⟨row, hmem, by simpa using hentry⟩
    have hslot : slot found = some entry := by simpa using List.find?_some hfound
    rw [hfound, table.slot_inj (List.mem_of_find?_eq_some hfound) hmem hslot hentry]

@[simp] theorem get?_empty [DecidableEq Key] (k : Key) :
    (empty : Table key slot).get? k = none := rfl

/-! ## Writing -/

/-- `INSERT`: fails when the key or the index entry is taken. -/
def insert [DecidableEq Key] [DecidableEq Slot] (table : Table key slot) (row : Row) :
    Option (Table key slot) :=
  if h : (key row ∉ table.rows.map key) ∧ ∀ entry ∈ slot row, entry ∉ table.rows.filterMap slot then
    some
      { rows := table.rows ++ [row]
        key_nodup := by
          rw [List.map_append, List.nodup_append]
          refine ⟨table.key_nodup, by simp, ?_⟩
          intro k hk other hother heq
          rw [List.map_singleton, List.mem_singleton] at hother
          exact h.1 (hother ▸ heq ▸ hk)
        slot_nodup := by
          rw [List.filterMap_append, List.nodup_append]
          refine ⟨table.slot_nodup, ?_, ?_⟩
          · cases hslot : slot row <;> simp [hslot]
          · intro entry hentry other hother heq
            have hslot : slot row = some other := by simpa using hother
            exact h.2 other hslot (heq ▸ hentry) }
  else none

/-- `DELETE … WHERE p`. -/
def delete (table : Table key slot) (p : Row → Bool) : Table key slot where
  rows := table.rows.filter fun row => !p row
  key_nodup := table.key_nodup.sublist (List.filter_sublist.map key)
  slot_nodup := table.slot_nodup.sublist (List.filter_sublist.filterMap slot)

/-- One row under `UPDATE … SET f WHERE p`. -/
def setWhere (p : Row → Bool) (f : Row → Row) (row : Row) : Row :=
  if p row then f row else row

theorem key_setWhere {p : Row → Bool} {f : Row → Row} (hkey : ∀ row, key (f row) = key row)
    (row : Row) : key (setWhere p f row) = key row := by
  unfold setWhere
  split
  · exact hkey row
  · rfl

theorem map_key_setWhere {p : Row → Bool} {f : Row → Row}
    (hkey : ∀ row, key (f row) = key row) (rows : List Row) :
    (rows.map (setWhere p f)).map key = rows.map key := by
  rw [List.map_map]
  exact List.map_congr_left fun row _ => key_setWhere hkey row

/-- `UPDATE … SET f WHERE p`: fails when two rows would share an index entry.
No statement here changes a primary key. -/
def update [DecidableEq Slot] (table : Table key slot) (p : Row → Bool) (f : Row → Row)
    (hkey : ∀ row, key (f row) = key row) : Option (Table key slot) :=
  if h : ((table.rows.map (setWhere p f)).filterMap slot).Nodup then
    some
      { rows := table.rows.map (setWhere p f)
        key_nodup := by rw [map_key_setWhere hkey]; exact table.key_nodup
        slot_nodup := h }
  else none

/-- An update whose rows keep their index entry or leave the index. -/
def modify (table : Table key slot) (p : Row → Bool) (f : Row → Row)
    (hkey : ∀ row, key (f row) = key row)
    (hslot : ∀ row ∈ table.rows, p row = true → slot (f row) = slot row ∨ slot (f row) = none) :
    Table key slot where
  rows := table.rows.map (setWhere p f)
  key_nodup := by rw [map_key_setWhere hkey]; exact table.key_nodup
  slot_nodup := by
    have hnodup := table.slot_nodup
    rw [List.Nodup, List.pairwise_filterMap] at hnodup ⊢
    rw [List.pairwise_map]
    have hentry : ∀ row ∈ table.rows, ∀ entry, slot (setWhere p f row) = some entry →
        slot row = some entry := by
      intro row hrow entry hset
      unfold setWhere at hset
      split at hset
      · rename_i hp
        rcases hslot row hrow hp with hsame | hnone
        · rwa [← hsame]
        · simp [hnone] at hset
      · exact hset
    refine hnodup.imp_of_mem ?_
    intro row other hrow hother hne entry hset entry' hset'
    exact hne entry (hentry row hrow entry hset) entry' (hentry other hother entry' hset')

/-- An insert is refused because of the key or because of the index entry. -/
theorem taken_of_insert_eq_none [DecidableEq Key] [DecidableEq Slot] {table : Table key slot}
    {row : Row} (hrefused : table.insert row = none) :
    (∃ other ∈ table.rows, key other = key row) ∨
      ∃ entry, slot row = some entry ∧ ∃ other ∈ table.rows, slot other = some entry := by
  unfold insert at hrefused
  split at hrefused
  · cases hrefused
  · rename_i htaken
    by_contra hfree
    simp only [not_or, not_exists, not_and] at hfree
    apply htaken
    refine ⟨?_, ?_⟩
    · intro hmem
      obtain ⟨other, hother, heq⟩ := List.mem_map.mp hmem
      exact hfree.1 other hother heq
    · intro entry hentry hmem
      obtain ⟨other, hother, heq⟩ := List.mem_filterMap.mp hmem
      exact hfree.2 entry hentry other hother heq

/-! ## What a statement does to the list of rows -/

theorem rows_nodup (table : Table key slot) : table.rows.Nodup := table.key_nodup.of_map

theorem rows_insert [DecidableEq Key] [DecidableEq Slot] {table table' : Table key slot} {row : Row}
    (hinsert : table.insert row = some table') : table'.rows = table.rows ++ [row] := by
  unfold insert at hinsert
  split at hinsert
  · rw [Option.some.injEq] at hinsert
    rw [← hinsert]
  · cases hinsert

theorem rows_update [DecidableEq Slot] {table table' : Table key slot} {p : Row → Bool}
    {f : Row → Row} {hkey : ∀ row, key (f row) = key row}
    (hupdate : table.update p f hkey = some table') :
    table'.rows = table.rows.map (setWhere p f) := by
  unfold update at hupdate
  split at hupdate
  · rw [Option.some.injEq] at hupdate
    rw [← hupdate]
  · cases hupdate

/-- An update that brings no row under `q` raises no count of `q`. -/
theorem countP_setWhere_le {rows : List Row} {p q : Row → Bool} {f : Row → Row}
    (hq : ∀ row ∈ rows, p row = true → q (f row) = true → q row = true) :
    (rows.map (setWhere p f)).countP q ≤ rows.countP q := by
  rw [List.countP_map]
  apply List.countP_mono_left
  intro row hrow hset
  simp only [Function.comp, setWhere] at hset
  split at hset
  · exact hq row hrow ‹_› hset
  · exact hset

/-! ## What a statement does to the row under a key -/

section Get

variable [DecidableEq Key]

theorem get?_insert [DecidableEq Slot] {table table' : Table key slot} {row : Row}
    (hinsert : table.insert row = some table') (k : Key) :
    table'.get? k = if key row = k then some row else table.get? k := by
  unfold insert at hinsert
  split at hinsert
  · rename_i hfresh
    rw [Option.some.injEq] at hinsert
    subst hinsert
    simp only [get?, List.find?_append]
    by_cases hk : key row = k
    · have hnone : table.rows.find? (fun other => decide (key other = k)) = none := by
        rw [List.find?_eq_none]
        intro other hother
        have hne : key other ≠ k := fun heq =>
          hfresh.1 (List.mem_map.mpr ⟨other, hother, heq.trans hk.symm⟩)
        simpa using hne
      simp [hnone, hk]
    · simp [hk]
  · cases hinsert

/-- An insert that succeeds found its key free. -/
theorem get?_eq_none_of_insert [DecidableEq Slot] {table table' : Table key slot} {row : Row}
    (hinsert : table.insert row = some table') : table.get? (key row) = none := by
  unfold insert at hinsert
  split at hinsert
  · rename_i hfresh
    rw [get?_eq_none]
    intro other hother heq
    exact hfresh.1 (List.mem_map.mpr ⟨other, hother, heq⟩)
  · cases hinsert

theorem get?_delete (table : Table key slot) (p : Row → Bool) (k : Key) :
    (table.delete p).get? k = (table.get? k).filter fun row => !p row := by
  ext row
  simp only [get?_eq_some, delete, List.mem_filter, Option.filter_eq_some_iff]
  tauto

theorem get?_delete_key (table : Table key slot) (k other : Key) :
    (table.delete fun row => decide (key row = k)).get? other =
      if other = k then none else table.get? other := by
  rw [get?_delete]
  cases hget : table.get? other with
  | none => simp
  | some row =>
      have hkey : key row = other := get?_key hget
      by_cases hother : other = k <;> simp [hkey, hother]

private theorem find?_map_setWhere (rows : List Row) {p : Row → Bool} {f : Row → Row}
    (hkey : ∀ row, key (f row) = key row) (k : Key) :
    (rows.map (setWhere p f)).find? (fun row => decide (key row = k)) =
      (rows.find? fun row => decide (key row = k)).map (setWhere p f) := by
  rw [List.find?_map]
  congr 2
  funext row
  simp [Function.comp, key_setWhere hkey]

theorem get?_update [DecidableEq Slot] {table table' : Table key slot} {p : Row → Bool}
    {f : Row → Row} {hkey : ∀ row, key (f row) = key row}
    (hupdate : table.update p f hkey = some table') (k : Key) :
    table'.get? k = (table.get? k).map (setWhere p f) := by
  unfold update at hupdate
  split at hupdate
  · rw [Option.some.injEq] at hupdate
    subst hupdate
    exact find?_map_setWhere table.rows hkey k
  · cases hupdate

theorem get?_modify (table : Table key slot) {p : Row → Bool} {f : Row → Row}
    (hkey : ∀ row, key (f row) = key row)
    (hslot : ∀ row ∈ table.rows, p row = true → slot (f row) = slot row ∨ slot (f row) = none)
    (k : Key) :
    (table.modify p f hkey hslot).get? k = (table.get? k).map (setWhere p f) :=
  find?_map_setWhere table.rows hkey k

/-- An update of the row under one key. -/
theorem map_setWhere_key (table : Table key slot) (k : Key) (f : Row → Row) (other : Key) :
    (table.get? other).map (setWhere (fun row => decide (key row = k)) f) =
      if other = k then (table.get? other).map f else table.get? other := by
  cases hget : table.get? other with
  | none => simp
  | some row =>
      have hkey : key row = other := get?_key hget
      by_cases hother : other = k <;> simp [setWhere, hkey, hother]

/-- An update of the row under one key succeeds exactly when no other row
holds the index entry it writes. -/
theorem update_key_isSome [DecidableEq Slot] {table : Table key slot} {k : Key} {row : Row}
    {f : Row → Row} {hkey : ∀ row, key (f row) = key row} (hget : table.get? k = some row) :
    (table.update (fun other => decide (key other = k)) f hkey).isSome ↔
      ∀ entry, slot (f row) = some entry →
        ∀ other ∈ table.rows, key other ≠ k → slot other ≠ some entry := by
  obtain ⟨hrow, hk⟩ := get?_eq_some.mp hget
  have hsome : (table.update (fun other => decide (key other = k)) f hkey).isSome ↔
      ((table.rows.map
        (setWhere (fun other => decide (key other = k)) f)).filterMap slot).Nodup := by
    unfold update
    split
    · rename_i h
      exact iff_of_true rfl h
    · rename_i h
      exact iff_of_false (by simp) h
  rw [hsome, List.Nodup, List.pairwise_filterMap, List.pairwise_map]
  have hself : setWhere (fun other => decide (key other = k)) f row = f row := by
    simp [setWhere, hk]
  have hother : ∀ other, key other ≠ k →
      setWhere (fun other => decide (key other = k)) f other = other := by
    intro other hne
    simp [setWhere, hne]
  constructor
  · intro hpairwise entry hentry other hmem hne hslot
    have : Std.Symm fun a b : Row =>
        ∀ i, slot (setWhere (fun other => decide (key other = k)) f a) = some i →
          ∀ j, slot (setWhere (fun other => decide (key other = k)) f b) = some j → i ≠ j :=
      ⟨fun _ _ h j hj i hi heq => h i hi j hj heq.symm⟩
    have hdistinct : row ≠ other := fun heq => hne (heq ▸ hk)
    refine hpairwise.forall hrow hmem hdistinct entry ?_ entry ?_ rfl
    · rw [hself]; exact hentry
    · rw [hother other hne]; exact hslot
  · intro hfree
    have hslots := table.slot_nodup
    have hkeys := table.key_nodup
    rw [List.Nodup, List.pairwise_filterMap] at hslots
    rw [List.Nodup, List.pairwise_map] at hkeys
    refine (hslots.and hkeys).imp_of_mem ?_
    intro a b ha hb hab i hi j hj heq
    subst heq
    -- at most one of the two rows is the updated one
    by_cases hak : key a = k
    · have hbk : key b ≠ k := fun hbk => hab.2 (hak.trans hbk.symm)
      have harow : a = row := table.key_inj ha hrow (hak.trans hk.symm)
      rw [harow, hself] at hi
      rw [hother b hbk] at hj
      exact hfree i hi b hb hbk hj
    · by_cases hbk : key b = k
      · have hbrow : b = row := table.key_inj hb hrow (hbk.trans hk.symm)
        rw [hbrow, hself] at hj
        rw [hother a hak] at hi
        exact hfree i hj a ha hak hi
      · rw [hother a hak] at hi
        rw [hother b hbk] at hj
        exact hab.1 i hi i hj rfl

end Get

end Table

/-! ## `ORDER BY … LIMIT` -/

/-- `chosen` is a possible answer of `SELECT … ORDER BY … LIMIT limit` over the
rows `candidates`. -/
structure IsLimited {Row : Type*} (le : Row → Row → Prop) (limit : ℕ)
    (candidates chosen : List Row) : Prop where
  nodup : chosen.Nodup
  subset : ∀ row ∈ chosen, row ∈ candidates
  length_eq : chosen.length = min limit candidates.length
  le_rest : ∀ row ∈ chosen, ∀ other ∈ candidates, other ∉ chosen → le row other

/-- What the `LIMIT` leaves over. -/
theorem IsLimited.length_rest {Row : Type*} [DecidableEq Row] {le : Row → Row → Prop} {limit : ℕ}
    {candidates chosen : List Row} (hlimited : IsLimited le limit candidates chosen)
    (hnodup : candidates.Nodup) :
    (candidates.filter fun row => decide (row ∉ chosen)).length = candidates.length - limit := by
  have hperm : (candidates.filter fun row => decide (row ∈ chosen)).Perm chosen := by
    rw [List.perm_ext_iff_of_nodup (hnodup.filter _) hlimited.nodup]
    intro row
    rw [List.mem_filter, decide_eq_true_eq]
    exact ⟨And.right, fun hrow => ⟨hlimited.subset row hrow, hrow⟩⟩
  have hsplit := List.length_eq_length_filter_add (l := candidates)
    (fun row => decide (row ∈ chosen))
  have hrest : (candidates.filter fun row => !decide (row ∈ chosen)) =
      candidates.filter fun row => decide (row ∉ chosen) := by
    simp
  rw [hrest, hperm.length_eq, hlimited.length_eq] at hsplit
  omega

instance {Row : Type*} [DecidableEq Row] (le : Row → Row → Prop) [DecidableRel le] (limit : ℕ)
    (candidates chosen : List Row) : Decidable (IsLimited le limit candidates chosen) :=
  decidable_of_iff
    (chosen.Nodup ∧ (∀ row ∈ chosen, row ∈ candidates) ∧
      chosen.length = min limit candidates.length ∧
      ∀ row ∈ chosen, ∀ other ∈ candidates, other ∉ chosen → le row other)
    ⟨fun ⟨h₁, h₂, h₃, h₄⟩ => ⟨h₁, h₂, h₃, h₄⟩,
      fun h => ⟨h.nodup, h.subset, h.length_eq, h.le_rest⟩⟩
