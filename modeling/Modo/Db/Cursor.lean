import Mathlib.Tactic.Simps.Basic
import Modo.Db.Value
import Modo.Lib.Keyset

/-!
# Cursor pagination

`SelectBuilder::cursor` fetches one row more than a page holds, ordered by the
cursor column.  When that row is there, it is dropped, and the value of the last
row left is handed out as a text, to be bound in the next request as
`"col" < ?` (newest first) or `"col" > ?` (oldest first).

The rows come from SQLite: `IsAnswer` leaves the order of rows with equal values
open, and asks nothing of the table but that it is there at the request.

A query is an instance of a `Keyset.Pager` (`responds_iff_serves`).  Its cursors
are faithful when the values of the column can be sent back (`Returnable`): a
blob has no text, and a number whose text is not read as a number again compares
with no number.
-/

namespace Modo.Db

/-- The values of a row, by column. -/
abbrev Row := List Value

/-! ## Requests and pages -/

structure PaginationConfig where
  defaultPerPage : Int64
  maxPerPage : Int64

structure CursorRequest where
  after : Option String
  perPage : Int64

/-- The page size after the clamp. -/
def CursorRequest.clamp (req : CursorRequest) (config : PaginationConfig) : CursorRequest :=
  let perPage := if req.perPage < 1 then config.defaultPerPage else req.perPage
  { req with perPage := if config.maxPerPage < perPage then config.maxPerPage else perPage }

structure CursorPage (T : Type) extends Keyset.Page T String where
  perPage : Int64

/-! ## Building a page from the rows of a query -/

section Loop

variable (showF64 : F64 → String)

/-- The cursor value of a row, `showF64` being the text of an `f64`. -/
def cursorValue : Option Value → Option String
  | some (.text s) => some s
  | some (.integer n) => some (toString n.toInt)
  | some (.real x) => some (showF64 x)
  | _ => none

variable {T : Type} (fromRow : Row → Except Error T) (names : List String) (col : String)

/-- The loop over the rows; the index of the cursor column is looked up at the
first one. -/
def readRows : Option ℕ → List T → List (Option String) → List Row →
    Except Error (List T × List (Option String))
  | _, items, cursorValues, [] => .ok (items, cursorValues)
  | cursorColIdx, items, cursorValues, row :: rest =>
      match cursorColIdx <|> names.idxOf? col with
      | none => .error (.internal s!"cursor column '{col}' not found in result set")
      | some idx =>
          match fromRow row with
          | .error error => .error error
          | .ok item =>
              readRows (some idx) (items ++ [item])
                (cursorValues ++ [cursorValue showF64 row[idx]?]) rest

/-- The page made of the rows that `LIMIT per_page + 1` left. -/
def cursorPage (perPage : Int64) (rows : List Row) : Except Error (CursorPage T) :=
  match readRows showF64 fromRow names col none [] [] rows with
  | .error error => .error error
  | .ok (items, cursorValues) =>
      let hasMore := decide (perPage < Int64.ofNat items.length)
      let items := if hasMore then items.dropLast else items
      let cursorValues := if hasMore then cursorValues.dropLast else cursorValues
      let nextCursor := if hasMore then cursorValues.getLast?.join else none
      .ok { items, nextCursor, hasMore, perPage }

end Loop

/-! ## The query -/

/-- What `cursor` selects: the rows of a table that a filter keeps, with the
columns `names`, ordered by one of them. -/
structure CursorQuery where
  names : List String
  cursorColumn : String
  /-- The first result column of that name. -/
  index : ℕ
  index_eq : names.idxOf? cursorColumn = some index
  affinity : Affinity
  cursorDesc : Bool
  /-- The clauses of the filter are true of the row. -/
  keep : Row → Bool

namespace CursorQuery

/-- The value of the cursor column. -/
def value (query : CursorQuery) (row : Row) : Value := row[query.index]?.getD .null

/-- The operator of the cursor condition. -/
def op (query : CursorQuery) : Comparison := if query.cursorDesc then .lt else .gt

/-- `"col" op ?` is true, the cursor being bound as a text. -/
def beyond (sqlite : Sqlite) (query : CursorQuery) (cursor : String) (row : Row) : Bool :=
  query.op.eval sqlite query.affinity (query.value row) (.text cursor) == some true

/-- `ORDER BY "col" DESC` or `ASC`. -/
def inOrder (query : CursorQuery) (row other : Row) : Prop :=
  if query.cursorDesc then (query.value other).key ≤ (query.value row).key
  else (query.value row).key ≤ (query.value other).key

instance (query : CursorQuery) : DecidableRel query.inOrder := fun row other =>
  inferInstanceAs (Decidable (if query.cursorDesc then
    (query.value other).key ≤ (query.value row).key
    else (query.value row).key ≤ (query.value other).key))

end CursorQuery

/-- `LIMIT`; a negative limit is none. -/
def limited (limit : Int64) (rows : List Row) : List Row :=
  if limit < 0 then rows else rows.take limit.toInt.toNat

/-- `rows` is a possible answer of the statement that `cursor` executes. -/
def IsAnswer (sqlite : Sqlite) (query : CursorQuery) (table : List Row) (after : Option String)
    (limit : Int64) (rows : List Row) : Prop :=
  ∃ answer : List Row,
    answer.Perm (table.filter fun row =>
      query.keep row && after.all (query.beyond sqlite · row)) ∧
    answer.Pairwise query.inOrder ∧ rows = limited limit answer

/-- `cursor` can return `page` when it finds the table. -/
def Responds (sqlite : Sqlite) (showF64 : F64 → String) (query : CursorQuery) (perPage : Int64)
    (table : List Row) (after : Option String) (page : Keyset.Page Row String) : Prop :=
  ∃ rows response, IsAnswer sqlite query table after (perPage + 1) rows ∧
    cursorPage showF64 .ok query.names query.cursorColumn perPage rows = .ok response ∧
    response.toPage = page

/-! ## The pager -/

/-- Sort keys in the direction of a query. -/
def OrderedKey : Bool → Type
  | true => SortKeyᵒᵈ
  | false => SortKey

namespace OrderedKey

instance : (desc : Bool) → LinearOrder (OrderedKey desc)
  | true => inferInstanceAs (LinearOrder SortKeyᵒᵈ)
  | false => inferInstanceAs (LinearOrder SortKey)

def of : (desc : Bool) → SortKey → OrderedKey desc
  | true, key => OrderDual.toDual key
  | false, key => key

def sortKey : (desc : Bool) → OrderedKey desc → SortKey
  | true, key => OrderDual.ofDual (α := SortKey) key
  | false, key => key

@[simp] theorem sortKey_of (desc : Bool) (key : SortKey) : sortKey desc (of desc key) = key := by
  cases desc <;> rfl

/-- The key of `NULL`. -/
def isNull (desc : Bool) (key : OrderedKey desc) : Bool := decide (sortKey desc key = ⊥)

theorem of_lt_of {desc : Bool} {a b : SortKey} :
    of desc a < of desc b ↔ if desc then b < a else a < b := by
  cases desc <;> rfl

theorem of_le_of {desc : Bool} {a b : SortKey} :
    of desc a ≤ of desc b ↔ if desc then b ≤ a else a ≤ b := by
  cases desc <;> rfl

theorem of_injective (desc : Bool) : Function.Injective (of desc) :=
  Function.LeftInverse.injective (sortKey_of desc)

@[simp] theorem isNull_of (desc : Bool) (key : SortKey) :
    isNull desc (of desc key) = decide (key = ⊥) := by
  simp [isNull]

end OrderedKey

/-- The rows of a full page.  At `i64::MAX` the look-ahead wraps to a negative
`LIMIT`, and no length exceeds the page size. -/
def pageSize (perPage : Int64) : Option ℕ :=
  if perPage = Int64.maxValue then none else some perPage.toInt.toNat

theorem toNat_toInt {perPage : Int64} (hpos : 0 < perPage) :
    (perPage.toInt.toNat : ℤ) = perPage.toInt := by
  rw [Int64.lt_iff_toInt_lt] at hpos
  exact Int.toNat_of_nonneg (le_of_lt hpos)

theorem pageSize_pos {perPage : Int64} (hpos : 0 < perPage) : ∀ n ∈ pageSize perPage, 0 < n := by
  intro n hn
  have htoNat := toNat_toInt hpos
  rw [Int64.lt_iff_toInt_lt] at hpos
  unfold pageSize at hn
  split at hn
  · simp at hn
  · rw [Option.mem_some_iff] at hn
    have hzero : (0 : Int64).toInt = 0 := rfl
    omega

/-- The query as a keyset pager. -/
@[simps]
def CursorQuery.pager (sqlite : Sqlite) (showF64 : F64 → String) (query : CursorQuery)
    {perPage : Int64} (hpos : 0 < perPage) :
    Keyset.Pager Row String (OrderedKey query.cursorDesc) where
  keep := query.keep
  key row := .of query.cursorDesc (query.value row).key
  absent := OrderedKey.isNull query.cursorDesc
  beyond := query.beyond sqlite
  cursorOf row := cursorValue showF64 row[query.index]?
  size := pageSize perPage
  size_pos := pageSize_pos hpos

section Page

variable {sqlite : Sqlite} {showF64 : F64 → String} {query : CursorQuery} {perPage : Int64}

/-- The loop keeps every row and its cursor value. -/
theorem readRows_eq (idx : Option ℕ) (hidx : idx = none ∨ idx = some query.index)
    (items : List Row) (cursorValues : List (Option String)) (rows : List Row) :
    readRows showF64 .ok query.names query.cursorColumn idx items cursorValues rows =
      .ok (items ++ rows,
        cursorValues ++ rows.map fun row => cursorValue showF64 row[query.index]?) := by
  induction rows generalizing idx items cursorValues with
  | nil => simp [readRows]
  | cons row rest ih =>
      have hfound : (idx <|> query.names.idxOf? query.cursorColumn) = some query.index := by
        rcases hidx with rfl | rfl
        · exact query.index_eq
        · rfl
      simp only [readRows, hfound]
      rw [ih _ (Or.inr rfl)]
      simp

/-- The page that `cursor` makes of a list of rows. -/
theorem cursorPage_eq (rows : List Row) (hasMore : Bool)
    (hmore : decide (perPage < Int64.ofNat rows.length) = hasMore) :
    cursorPage showF64 .ok query.names query.cursorColumn perPage rows =
      .ok { items := if hasMore then rows.dropLast else rows,
            nextCursor := if hasMore then
              rows.dropLast.getLast?.bind fun row => cursorValue showF64 row[query.index]?
              else none,
            hasMore, perPage } := by
  subst hmore
  unfold cursorPage
  rw [readRows_eq none (Or.inl rfl)]
  simp only [List.nil_append]
  split_ifs with hmore
  · rw [← List.map_dropLast, List.getLast?_map]
    cases rows.dropLast.getLast? <;> rfl
  · rfl

/-- The limit is one more than a page holds. -/
theorem toInt_limit (hpos : 0 < perPage) (hmax : perPage ≠ Int64.maxValue) :
    (perPage + 1).toInt = perPage.toInt + 1 ∧ perPage.toInt + 1 < 2 ^ 63 := by
  have hzero : (0 : Int64).toInt = 0 := rfl
  have hone : (1 : Int64).toInt = 1 := rfl
  have hle := perPage.toInt_le
  have hne : perPage.toInt ≠ Int64.maxValue.toInt := fun h => hmax (Int64.toInt_inj.mp h)
  rw [Int64.lt_iff_toInt_lt] at hpos
  rw [Int64.toInt_maxValue] at hle hne
  refine ⟨?_, by omega⟩
  rw [Int64.toInt_add, hone]
  exact Int.bmod_eq_of_le (by omega) (by omega)

theorem limited_of_ne_max (hpos : 0 < perPage) (hmax : perPage ≠ Int64.maxValue)
    (answer : List Row) :
    limited (perPage + 1) answer = answer.take (perPage.toInt.toNat + 1) := by
  obtain ⟨hlimit, -⟩ := toInt_limit hpos hmax
  have hzero : (0 : Int64).toInt = 0 := rfl
  have htoNat := toNat_toInt hpos
  unfold limited
  rw [if_neg]
  · rw [hlimit]
    congr 1
    omega
  · rw [Int64.lt_iff_toInt_lt, hlimit]
    omega

/-- More rows than a page holds were fetched when there are more in the answer. -/
theorem lt_ofNat_length_iff (hpos : 0 < perPage) (hmax : perPage ≠ Int64.maxValue)
    (answer : List Row) :
    perPage < Int64.ofNat (answer.take (perPage.toInt.toNat + 1)).length ↔
      perPage.toInt.toNat < answer.length := by
  obtain ⟨-, hlt⟩ := toInt_limit hpos hmax
  have htoNat := toNat_toInt hpos
  rw [Int64.lt_iff_toInt_lt, Int64.toInt_ofNat_of_lt, List.length_take]
  · omega
  · rw [List.length_take]
    omega

/-- What `cursor` returns on an ordered answer is the page of the pager. -/
theorem cursorPage_limited (sqlite : Sqlite) (showF64 : F64 → String) (query : CursorQuery)
    (hpos : 0 < perPage) (answer : List Row) :
    ∃ response, cursorPage showF64 .ok query.names query.cursorColumn perPage
        (limited (perPage + 1) answer) = .ok response ∧
      response.toPage = (query.pager sqlite showF64 hpos).pageOf answer := by
  unfold Keyset.Pager.pageOf CursorQuery.pager pageSize
  by_cases hmax : perPage = Int64.maxValue
  · have hlimited : limited (perPage + 1) answer = answer := by
      rw [hmax]
      exact if_pos (by decide)
    rw [hlimited, cursorPage_eq answer false (by simp [hmax])]
    exact ⟨_, rfl, by simp [hmax]⟩
  · have hmore := lt_ofNat_length_iff hpos hmax answer
    rw [limited_of_ne_max hpos hmax, cursorPage_eq _ _ rfl]
    refine ⟨_, rfl, ?_⟩
    simp only [if_neg hmax, hmore, decide_eq_true_eq]
    split_ifs with hlt
    · have hdrop : (answer.take (perPage.toInt.toNat + 1)).dropLast =
          answer.take perPage.toInt.toNat := by
        rw [List.dropLast_eq_take, List.take_take, List.length_take]
        congr 1
        omega
      rw [hdrop]
    · simp only [List.take_of_length_le (show answer.length ≤ perPage.toInt.toNat + 1 by omega),
        List.take_of_length_le (not_lt.mp hlt)]

/-- **`cursor` is the pager of its query.** -/
theorem responds_iff_serves (hpos : 0 < perPage) {table : List Row} {after : Option String}
    {page : Keyset.Page Row String} :
    Responds sqlite showF64 query perPage table after page ↔
      (query.pager sqlite showF64 hpos).Serves table after page := by
  have hadmitted : (query.pager sqlite showF64 hpos).admitted table after =
      table.filter fun row => query.keep row && after.all (query.beyond sqlite · row) := by
    rw [Keyset.Pager.admitted, Keyset.Pager.kept, List.filter_filter]
    refine List.filter_congr fun row _ => ?_
    exact Bool.and_comm _ _
  have hsorted : ∀ answer : List Row, answer.Pairwise query.inOrder ↔
      answer.Pairwise fun a b => (query.pager sqlite showF64 hpos).key a ≤
        (query.pager sqlite showF64 hpos).key b :=
    fun answer => List.Pairwise.iff fun a b => OrderedKey.of_le_of.symm
  rw [Keyset.Pager.serves_iff, hadmitted]
  constructor
  · rintro ⟨rows, response, ⟨answer, hperm, horder, rfl⟩, hresponse, rfl⟩
    obtain ⟨made, hmade, hpage⟩ := cursorPage_limited sqlite showF64 query hpos answer
    rw [hmade, Except.ok.injEq] at hresponse
    exact ⟨answer, hperm, (hsorted answer).mp horder, hresponse ▸ hpage⟩
  · rintro ⟨answer, hperm, horder, rfl⟩
    obtain ⟨made, hmade, hpage⟩ := cursorPage_limited sqlite showF64 query hpos answer
    exact ⟨_, made, ⟨answer, hperm, (hsorted answer).mpr horder, rfl⟩, hmade, hpage⟩

end Page

end Modo.Db
