import Modo.Db.Cursor

/-!
# Walking the pages of a cursor query

A reader starts without a cursor and sends back the `next_cursor` of each page
until `has_more` is false.

While the table changes between the requests, the walk neither repeats nor loses
a row as long as the cursor values are distinct and can be sent back
(`cursor_walk`).  `next_cursor` is a text and is bound as one: a blob has none,
so the walk starts from the beginning again.

On a table that does not change, rows may tie.  The next page is selected by a
strict comparison, so the rows that tie with the last row of a page are lost, and
so are the rows with `NULL` after it; a page that ends with `NULL` starts the walk
again.  `reads_all_iff` says that these are the only ways to lose a row.
-/

namespace Modo.Db

open Keyset (Walk Visit Finished Unchanged NeverRestarts returned)

/-! ## Values that can be sent back -/

/-- The text of the value, bound as a parameter, compares as the value. -/
def Returnable (sqlite : Sqlite) (showF64 : F64 → String) (affinity : Affinity) : Value → Prop
  | .text s => affinity.isNumeric = true → sqlite.numeric s = none
  | .integer _ => affinity.isNumeric = true
  | .real (.number x) =>
      affinity.isNumeric = true ∧ sqlite.numeric (showF64 (.number x)) = some x
  | .null | .real .nan | .blob _ => False

instance (sqlite : Sqlite) (showF64 : F64 → String) (affinity : Affinity) :
    (value : Value) → Decidable (Returnable sqlite showF64 affinity value)
  | .text s => inferInstanceAs (Decidable (affinity.isNumeric = true → sqlite.numeric s = none))
  | .integer _ => inferInstanceAs (Decidable (affinity.isNumeric = true))
  | .real (.number x) => inferInstanceAs (Decidable (affinity.isNumeric = true ∧
      sqlite.numeric (showF64 (.number x)) = some x))
  | .null | .real .nan | .blob _ => isFalse id

variable {sqlite : Sqlite} {showF64 : F64 → String} {query : CursorQuery} {perPage : Int64}

theorem Returnable.key_ne_bot {affinity : Affinity} {value : Value}
    (hreturnable : Returnable sqlite showF64 affinity value) : value.key ≠ ⊥ := by
  rw [Ne, ← Value.isNull_iff]
  cases value with
  | null => exact hreturnable.elim
  | real value =>
      cases value with
      | nan => exact hreturnable.elim
      | number x => exact Bool.false_ne_true
  | _ => exact Bool.false_ne_true

/-- The cursor value of a returnable value has its place in the order. -/
theorem Returnable.exists_cursorValue {affinity : Affinity} {value : Value}
    (hreturnable : Returnable sqlite showF64 affinity value) :
    ∃ cursor, cursorValue showF64 (some value) = some cursor ∧
      (affinity.apply sqlite (.text cursor)).key = value.key := by
  cases value with
  | null => exact hreturnable.elim
  | blob value => exact hreturnable.elim
  | text s =>
      refine ⟨s, rfl, ?_⟩
      by_cases hnumeric : affinity.isNumeric = true
      · simp [Affinity.apply, hnumeric, hreturnable hnumeric]
      · simp [Affinity.apply, hnumeric]
  | integer n =>
      have hnumeric : affinity.isNumeric = true := hreturnable
      refine ⟨toString n.toInt, rfl, ?_⟩
      simp only [Affinity.apply, hnumeric, sqlite.numeric_integer]
      rfl
  | real value =>
      cases value with
      | nan => exact hreturnable.elim
      | number x =>
          obtain ⟨hnumeric, hread⟩ := hreturnable
          refine ⟨showF64 (.number x), rfl, ?_⟩
          simp only [Affinity.apply, hnumeric, hread]
          rfl

/-- The cursor of a row with a returnable value stands for the row. -/
theorem exists_stands (hpos : 0 < perPage) {row : Row}
    (hreturnable : Returnable sqlite showF64 query.affinity (query.value row)) :
    ∃ cursor, (query.pager sqlite showF64 hpos).cursorOf row = some cursor ∧
      (query.pager sqlite showF64 hpos).Stands row cursor := by
  obtain ⟨cursor, hcursor, hkey⟩ := hreturnable.exists_cursorValue
  have hcell : row[query.index]? = some (query.value row) := by
    unfold CursorQuery.value
    cases hget : row[query.index]? with
    | some value => rfl
    | none => exact absurd (by simp [CursorQuery.value, hget, Value.key]) hreturnable.key_ne_bot
  refine ⟨cursor, by rw [CursorQuery.pager_cursorOf, hcell, hcursor], ?_⟩
  intro other
  have hkeys : (query.pager sqlite showF64 hpos).key row <
      (query.pager sqlite showF64 hpos).key other ↔
      query.op.holds (query.value other).key (query.value row).key = true := by
    refine OrderedKey.of_lt_of.trans ?_
    unfold CursorQuery.op
    cases query.cursorDesc <;> simp [Comparison.holds]
  have hbeyond : (query.pager sqlite showF64 hpos).beyond cursor other = true ↔
      query.op.eval sqlite query.affinity (query.value other) (.text cursor) = some true :=
    beq_iff_eq
  have habsent : (query.pager sqlite showF64 hpos).absent
      ((query.pager sqlite showF64 hpos).key other) = false ↔ (query.value other).key ≠ ⊥ := by
    simp
  rw [hbeyond, hkeys, habsent, Comparison.eval_eq_true, hkey]
  constructor
  · rintro ⟨hother, -, hholds⟩
    exact ⟨hholds, hother⟩
  · rintro ⟨hholds, hother⟩
    exact ⟨hother, hreturnable.key_ne_bot, hholds⟩

/-- Cursors are faithful when the values are `NULL` or can be sent back. -/
theorem faithful (hpos : 0 < perPage) {table : List Row}
    (hvalues : ∀ row ∈ table, query.keep row = true → query.value row = .null ∨
      Returnable sqlite showF64 query.affinity (query.value row)) :
    (query.pager sqlite showF64 hpos).Faithful table := by
  intro row hrow
  obtain ⟨hmem, hkeep⟩ := List.mem_filter.mp hrow
  have habsent : (query.pager sqlite showF64 hpos).absent
      ((query.pager sqlite showF64 hpos).key row) = decide ((query.value row).key = ⊥) := by
    simp
  rw [habsent, decide_eq_true_eq, decide_eq_false_iff_not]
  rcases hvalues row hmem hkeep with hnull | hreturnable
  · refine ⟨fun _ => ?_, fun hkey => absurd (by rw [hnull]; rfl) hkey⟩
    rw [CursorQuery.pager_cursorOf]
    unfold CursorQuery.value at hnull
    cases hget : row[query.index]? with
    | none => rfl
    | some value =>
        rw [hget, Option.getD_some] at hnull
        rw [hnull]
        rfl
  · exact ⟨fun hkey => absurd hkey hreturnable.key_ne_bot, fun _ => exists_stands hpos hreturnable⟩

/-! ## Distinct values in a table that changes -/

/-- The row comes before the other in the order of the query. -/
def CursorQuery.before (query : CursorQuery) (row other : Row) : Prop :=
  if query.cursorDesc then (query.value other).key < (query.value row).key
  else (query.value row).key < (query.value other).key

/-- The values of the cursor column are there and pairwise distinct. -/
def CursorQuery.Distinct (query : CursorQuery) (table : List Row) : Prop :=
  (∀ row ∈ table, (query.value row).isNull = false) ∧
    (table.map fun row => (query.value row).key).Nodup

instance (query : CursorQuery) (table : List Row) : Decidable (query.Distinct table) :=
  inferInstanceAs (Decidable ((∀ row ∈ table, (query.value row).isNull = false) ∧
    (table.map fun row => (query.value row).key).Nodup))

theorem CursorQuery.Distinct.nodup_key (hpos : 0 < perPage) {table : List Row}
    (hdistinct : query.Distinct table) :
    (table.map (query.pager sqlite showF64 hpos).key).Nodup := by
  have hmap := hdistinct.2.map (OrderedKey.of_injective query.cursorDesc)
  rwa [List.map_map] at hmap

theorem CursorQuery.Distinct.present (hpos : 0 < perPage) {table : List Row}
    (hdistinct : query.Distinct table) {row : Row} (hrow : row ∈ table) :
    (query.pager sqlite showF64 hpos).absent
      ((query.pager sqlite showF64 hpos).key row) = false := by
  have hpresent := hdistinct.1 row hrow
  rw [← Bool.not_eq_true, Value.isNull_iff] at hpresent
  simpa using hpresent

/-- The walk as a walk of the pager. -/
theorem walk_serves (hpos : 0 < perPage) {after : Option String}
    {visits : List (Visit Row String)}
    (hwalk : Walk (Responds sqlite showF64 query perPage) after visits) :
    Walk (query.pager sqlite showF64 hpos).Serves after visits :=
  hwalk.imp fun _ _ _ => (responds_iff_serves hpos).mp

/-- Every request is answered. -/
theorem exists_responds (hpos : 0 < perPage) (table : List Row) (after : Option String) :
    ∃ page, Responds sqlite showF64 query perPage table after page := by
  obtain ⟨page, hpage⟩ := (query.pager sqlite showF64 hpos).exists_serves table after
  exact ⟨page, (responds_iff_serves hpos).mpr hpage⟩

/-- **A walk over a table with distinct cursor values that can be sent back
returns its rows in strict order, misses no row that stays, and over a table that
does not change comes to an end after returning exactly the matching rows.** -/
theorem cursor_walk (hpos : 0 < perPage) {visits : List (Visit Row String)}
    (hwalk : Walk (Responds sqlite showF64 query perPage) none visits)
    (hdistinct : ∀ visit ∈ visits, query.Distinct visit.table)
    (hreturnable : ∀ visit ∈ visits, ∀ row ∈ visit.table, query.keep row = true →
      Returnable sqlite showF64 query.affinity (query.value row)) :
    (returned visits).Nodup ∧ (returned visits).Pairwise query.before ∧
    (Finished visits → ∀ row, query.keep row = true → (∀ visit ∈ visits, row ∈ visit.table) →
      (returned visits).count row = 1) ∧
    ∀ table, Unchanged table visits →
      visits.length ≤ (table.filter query.keep).length + 1 ∧
      (Finished visits → (returned visits).Perm (table.filter query.keep)) ∧
      (¬ Finished visits → ∃ page,
        Walk (Responds sqlite showF64 query perPage) none (visits ++ [⟨table, page⟩])) := by
  -- the walk is one of the keyset pager, whose keys are distinct and present here
  have hserves := walk_serves hpos hwalk
  have hfaithful : ∀ visit ∈ visits, (query.pager sqlite showF64 hpos).Faithful visit.table :=
    fun visit hvisit => faithful hpos fun row hrow hkeep =>
      Or.inr (hreturnable visit hvisit row hrow hkeep)
  have hkeys : ∀ visit ∈ visits,
      (visit.table.map (query.pager sqlite showF64 hpos).key).Nodup :=
    fun visit hvisit => (hdistinct visit hvisit).nodup_key hpos
  have hpresent : ∀ visit ∈ visits, ∀ row ∈ visit.table,
      (query.pager sqlite showF64 hpos).absent
        ((query.pager sqlite showF64 hpos).key row) = false :=
    fun visit hvisit row hrow => (hdistinct visit hvisit).present hpos hrow
  have hstrict : (returned visits).Pairwise query.before :=
    (hserves.strictMono hfaithful hkeys hpresent).imp fun hlt => OrderedKey.of_lt_of.mp hlt
  have hnodup : (returned visits).Nodup := by
    refine (hserves.strictMono hfaithful hkeys hpresent).imp fun hlt heq => ?_
    exact absurd (congrArg _ heq) (ne_of_lt hlt)
  refine ⟨hnodup, hstrict, ?_, ?_⟩
  · intro hfinished row hkeep hrow
    refine List.count_eq_one_of_mem hnodup ?_
    refine hserves.mem_returned hfaithful hkeys hpresent ?_ (by simp) hfinished
    exact fun visit hvisit => List.mem_filter.mpr ⟨hrow visit hvisit, hkeep⟩
  · intro table hunchanged
    have hcomplete : visits.length ≤ (table.filter query.keep).length + 1 ∧
        (Finished visits → (returned visits).Perm (table.filter query.keep)) := by
      cases visits with
      | nil => exact ⟨Nat.zero_le _, fun hfinished => absurd hfinished Keyset.not_finished_nil⟩
      | cons first later =>
          obtain rfl : first.table = table := hunchanged first List.mem_cons_self
          exact hserves.complete_of_distinct hunchanged (hfaithful first List.mem_cons_self)
            (hkeys first List.mem_cons_self) (hpresent first List.mem_cons_self)
    exact ⟨hcomplete.1, hcomplete.2, hwalk.exists_next (exists_responds hpos table)⟩

/-- A query for all rows, newest first, by the only column. -/
def allById (affinity : Affinity) : CursorQuery where
  names := ["id"]
  cursorColumn := "id"
  index := 0
  index_eq := by decide
  affinity := affinity
  cursorDesc := true
  keep _ := true

/-- Rows with one text each. -/
def textRows (texts : List String) : List Row := texts.map fun s => [.text s]

/-- Two rows a page; after the first one `c` is deleted and `d` inserted. -/
def changingWalk : List (Visit Row String) :=
  [⟨textRows ["a", "b", "c"], ⟨textRows ["c", "b"], some "b", true⟩⟩,
   ⟨textRows ["b", "d", "a"], ⟨textRows ["a"], none, false⟩⟩]

theorem changingWalk_walk :
    Walk (Responds integerSqlite (fun _ => "") (allById .text) 2) none changingWalk := by
  refine .more ⟨textRows ["c", "b", "a"], _, ⟨textRows ["c", "b", "a"], ?_, ?_, ?_⟩, rfl, ?_⟩ rfl
    (.last ⟨textRows ["a"], _, ⟨textRows ["a"], ?_, ?_, ?_⟩, rfl, ?_⟩ rfl)
  all_goals decide

theorem changingWalk_complete :
    Finished changingWalk ∧ (∀ visit ∈ changingWalk, [Value.text "b"] ∈ visit.table) ∧
      (returned changingWalk).count [.text "b"] = 1 := by
  have hfinished : Finished changingWalk := ⟨_, List.mem_cons_of_mem _ List.mem_cons_self, rfl⟩
  have hstays : ∀ visit ∈ changingWalk, [Value.text "b"] ∈ visit.table := by decide
  refine ⟨hfinished, hstays, ?_⟩
  exact (cursor_walk (by decide) changingWalk_walk (by decide)
    (by decide)).2.2.1 hfinished _ rfl hstays

/-- Two rows identified by blobs. -/
def blobRows : List Row := [[.blob [1]], [.blob [2]]]

/-- The first page of a walk over `blobRows` has no cursor, so that the second
request returns the same row. -/
theorem blob_cursor_restarts :
    ∃ visits, Walk (Responds integerSqlite (fun _ => "") (allById .blob) 1) none visits ∧
      Unchanged blobRows visits ∧ (allById .blob).Distinct blobRows ∧
      ¬ (returned visits).Nodup := by
  have hresponds : Responds integerSqlite (fun _ => "") (allById .blob) 1 blobRows none
      ⟨[[.blob [2]]], none, true⟩ := by
    refine ⟨[[.blob [2]], [.blob [1]]], _, ⟨[[.blob [2]], [.blob [1]]], ?_, ?_, ?_⟩, rfl, ?_⟩
    all_goals decide
  refine ⟨_, .more hresponds rfl (.more hresponds rfl (.nil _)), ?_, ?_, ?_⟩
  · simp [Unchanged]
  · decide
  · decide

/-! ## Ties and `NULL` in a table that does not change -/

/-- The values that the documentation admits in a cursor column: texts (ULIDs,
timestamps), integers in a numeric column (auto-increment, timestamps), and
`NULL`.  A text that reads as a number is stored as one in a numeric column. -/
def Documented (sqlite : Sqlite) (affinity : Affinity) : Value → Prop
  | .null => True
  | .text s => affinity.isNumeric = true → sqlite.numeric s = none
  | .integer _ => affinity.isNumeric = true
  | .real _ | .blob _ => False

/-- Every walk over the table comes to an end without starting again, and has then
returned each matching row once. -/
def ReadsAll (sqlite : Sqlite) (showF64 : F64 → String) (query : CursorQuery) (perPage : Int64)
    (table : List Row) : Prop :=
  ∃ bound, ∀ visits, Walk (Responds sqlite showF64 query perPage) none visits →
    Unchanged table visits → visits.length ≤ bound ∧ NeverRestarts visits ∧
      (Finished visits → (returned visits).Perm (table.filter query.keep))

/-- The sort keys of the matching rows, in the order of the query. -/
def CursorQuery.sortedKeys (query : CursorQuery) (table : List Row) :
    List (OrderedKey query.cursorDesc) :=
  ((table.filter query.keep).map fun row =>
    OrderedKey.of query.cursorDesc (query.value row).key).insertionSort (· ≤ ·)

/-- Wherever a full page ends, its last value is not `NULL`, and all values after
it are neither `NULL` nor equal to it. -/
def PagesContinue (query : CursorQuery) (perPage : Int64) (table : List Row) : Prop :=
  ∀ n ∈ pageSize perPage, ∀ pages, 0 < pages → pages * n < (query.sortedKeys table).length →
    ∃ last, (query.sortedKeys table)[pages * n - 1]? = some last ∧
      OrderedKey.isNull query.cursorDesc last = false ∧
      ∀ key ∈ (query.sortedKeys table).drop (pages * n),
        last < key ∧ OrderedKey.isNull query.cursorDesc key = false

theorem Documented.null_or_returnable {affinity : Affinity} {value : Value}
    (hdocumented : Documented sqlite affinity value) :
    value = .null ∨ Returnable sqlite showF64 affinity value := by
  cases value with
  | null => exact Or.inl rfl
  | text s => exact Or.inr hdocumented
  | integer n => exact Or.inr hdocumented
  | real x => exact hdocumented.elim
  | blob bytes => exact hdocumented.elim

/-- **A table with a documented cursor column is read completely exactly when no
full page ends inside a group of equal values, with `NULL` or before `NULL`.** -/
theorem reads_all_iff (hpos : 0 < perPage) {table : List Row}
    (hdocumented : ∀ row ∈ table, Documented sqlite query.affinity (query.value row)) :
    ReadsAll sqlite showF64 query perPage table ↔ PagesContinue query perPage table := by
  have hfaithful : (query.pager sqlite showF64 hpos).Faithful table :=
    faithful hpos fun row hrow _ => (hdocumented row hrow).null_or_returnable
  have hkeys : (query.pager sqlite showF64 hpos).sortedKeys table none =
      query.sortedKeys table := by
    have hadmitted : (query.pager sqlite showF64 hpos).admitted table none =
        table.filter query.keep := by
      simp [Keyset.Pager.admitted, Keyset.Pager.kept]
    rw [Keyset.Pager.sortedKeys, hadmitted]
    rfl
  have hwalks := Keyset.walks_complete_iff hfaithful
  rw [hkeys] at hwalks
  refine Iff.trans ?_ hwalks
  refine exists_congr fun bound => forall_congr' fun visits => ?_
  exact imp_congr_left ⟨walk_serves hpos,
    fun hwalk => hwalk.imp fun _ _ _ => (responds_iff_serves hpos).mpr⟩

/-- A query for all rows, oldest first, by the time they were created at. -/
def allByTime : CursorQuery where
  names := ["id", "created_at"]
  cursorColumn := "created_at"
  index := 1
  index_eq := by decide
  affinity := .text
  cursorDesc := false
  keep _ := true

/-- Two rows were created at one time, the third one later. -/
def timedRows : List Row :=
  [[.integer 1, .text "2024-05-01"], [.integer 2, .text "2024-05-01"],
   [.integer 3, .text "2024-05-02"]]

theorem timedRows_documented :
    ∀ row ∈ timedRows, Documented integerSqlite allByTime.affinity (allByTime.value row) := by
  simp [timedRows, Documented, CursorQuery.value, allByTime, Affinity.isNumeric]

theorem timedRows_read_by_two : ReadsAll integerSqlite (fun _ => "") allByTime 2 timedRows := by
  refine (reads_all_iff (by decide) timedRows_documented).mpr ?_
  intro n hn pages hpages hlt
  obtain rfl : 2 = n := Option.some.inj hn
  have hlength : (allByTime.sortedKeys timedRows).length = 3 := by decide
  obtain rfl : pages = 1 := by omega
  refine ⟨OrderedKey.of allByTime.cursorDesc (.text "2024-05-01".toList), ?_⟩
  decide

/-- With one row a page, the walk ends after the first and the third row. -/
theorem timedRows_lost_by_one :
    (∀ row ∈ timedRows, Documented integerSqlite allByTime.affinity (allByTime.value row)) ∧
      ¬ ReadsAll integerSqlite (fun _ => "") allByTime 1 timedRows := by
  refine ⟨timedRows_documented, ?_⟩
  rintro ⟨bound, hwalks⟩
  have hfirst : Responds integerSqlite (fun _ => "") allByTime 1 timedRows none
      ⟨timedRows.take 1, some "2024-05-01", true⟩ := by
    refine ⟨timedRows.take 2, _, ⟨timedRows, ?_, ?_, ?_⟩, rfl, ?_⟩
    all_goals decide
  have hsecond : Responds integerSqlite (fun _ => "") allByTime 1 timedRows (some "2024-05-01")
      ⟨timedRows.drop 2, none, false⟩ := by
    refine ⟨timedRows.drop 2, _, ⟨timedRows.drop 2, ?_, ?_, ?_⟩, rfl, ?_⟩
    all_goals decide
  obtain ⟨-, -, hcomplete⟩ := hwalks _ (.more hfirst rfl (.last hsecond rfl)) (by simp [Unchanged])
  have hperm := hcomplete ⟨_, List.mem_cons_of_mem _ List.mem_cons_self, rfl⟩
  exact absurd hperm.length_eq (by decide)

end Modo.Db
