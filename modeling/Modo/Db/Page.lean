import Modo.Db.Select
import Modo.Lib.Overflow
import Modo.Lib.Paging

/-!
# Offset pagination

`SelectBuilder::page` counts the rows, fetches those of one page with `LIMIT ? OFFSET ?` and
derives the number of pages from the count.  The three agree: the pages up to `total_pages` are
the result cut into pages (`pages_partition`).

The offset is a product of numbers from the query string, and a page number is only bounded from
below.  From `2^63` on it does not fit (`pageLaw_iff`): a build with overflow checks panics, and the
other wraps, where SQLite takes a negative offset for zero.
-/

namespace Modo.Db

open Overflow (Word Fits)

/-! ## Requests -/

def PaginationConfig.default : PaginationConfig where
  defaultPerPage := 20
  maxPerPage := 100

def PageRequest.clamp (req : PageRequest) (config : PaginationConfig) : PageRequest :=
  let page := if req.page < 1 then 1 else req.page
  let perPage := if req.perPage < 1 then config.defaultPerPage else req.perPage
  { page, perPage := if config.maxPerPage < perPage then config.maxPerPage else perPage }

section Extract

variable (config : Option PaginationConfig)

/-- The extractor behind `Query`, which reads the query string or says why it cannot. -/
def PageRequest.fromRequestParts (query : Except String PageRequest) : Except Error PageRequest :=
  match query with
  | .error e => .error (.badRequest ("invalid pagination params: " ++ e))
  | .ok req => .ok (req.clamp (config.getD .default))

def CursorRequest.fromRequestParts (query : Except String CursorRequest) :
    Except Error CursorRequest :=
  match query with
  | .error e => .error (.badRequest ("invalid pagination params: " ++ e))
  | .ok req => .ok (req.clamp (config.getD .default))

end Extract

/-- `offset`, where overflow may panic. -/
def PageRequest.offsetIn (overflowChecks : Bool) (req : PageRequest) : Option Int64 := do
  let before ← Overflow.sub overflowChecks req.page 1
  Overflow.mul overflowChecks before req.perPage

/-- The `limit` of `cursor`, where overflow may panic. -/
def CursorRequest.limitIn (overflowChecks : Bool) (req : CursorRequest) : Option Int64 :=
  Overflow.add overflowChecks req.perPage 1

/-! ## Pages -/

structure Page (T : Type) where
  items : List T
  total : Int64
  page : Int64
  perPage : Int64
  totalPages : Int64
  hasNext : Bool
  hasPrev : Bool
  deriving DecidableEq

/-- The `total_pages` of `Page::new`. -/
def totalPagesIn (overflowChecks : Bool) (total perPage : Int64) : Option Int64 :=
  if total = 0 ∨ perPage = 0 then some 0
  else do
    let sum ← Overflow.add overflowChecks total perPage
    let last ← Overflow.sub overflowChecks sum 1
    Overflow.div last perPage

def Page.new {T : Type} (overflowChecks : Bool) (items : List T) (total page perPage : Int64) :
    Option (Page T) :=
  (totalPagesIn overflowChecks total perPage).map fun totalPages =>
    { items, total, page, perPage, totalPages
      hasNext := decide (page < totalPages)
      hasPrev := decide (1 < page) }

/-! ## The query -/

section Query

variable {T : Type} (query : Statement → List (Except Error Row))
  (get : Row → Except Error Int64) (fromRow : Row → Except Error T)

/-- The loop over the rows. -/
def readItems : List T → List (Except Error Row) → Except Error (List T)
  | items, [] => .ok items
  | items, step :: rest => do
      let row ← step
      let item ← fromRow row
      readItems (items ++ [item]) rest

/-- `query` gives the steps over the rows of a statement, and `get` reads the count from its row.
`none` is a panic. -/
def SelectBuilder.page (overflowChecks : Bool) (builder : SelectBuilder) (req : PageRequest) :
    Option (Except Error (Page T)) :=
  match query builder.countStatement with
  | [] => some (.error (.internal "count query returned no rows"))
  | step :: _ =>
      match step >>= get with
      | .error error => some (.error error)
      | .ok total =>
          -- the offset that `dataStatement` binds is what is left after wrapping
          (req.offsetIn overflowChecks).bind fun _ =>
            match readItems fromRow [] (query (builder.dataStatement req)) with
            | .error error => some (.error error)
            | .ok items => (Page.new overflowChecks items total req.page req.perPage).map .ok

end Query

/-- `LIMIT limit OFFSET offset`; a negative offset is zero. -/
def limitOffset (limit offset : Int64) (rows : List Row) : List Row :=
  limited limit (rows.drop offset.toInt.toNat)

/-- SQLite answers the statements of `page` from the rows of the result, in their order. -/
structure Answers (query : Statement → List (Except Error Row)) (get : Row → Except Error Int64)
    (builder : SelectBuilder) (rows : List Row) : Prop where
  count : ∃ row, query builder.countStatement = [.ok row] ∧
    get row = .ok (Int64.ofNat rows.length)
  data : ∀ req : PageRequest, query (builder.dataStatement req) =
    (limitOffset req.perPage req.offset rows).map .ok

/-! ## What the arithmetic gives -/

theorem toInt_one : (1 : Int64).toInt = 1 := rfl

theorem toInt_zero : (0 : Int64).toInt = 0 := rfl

theorem Int64.pos_iff {a : Int64} : 0 < a ↔ 0 < a.toInt := Int64.lt_iff_toInt_lt

theorem Int64.one_le_iff {a : Int64} : 1 ≤ a ↔ 1 ≤ a.toInt := Int64.le_iff_toInt_le

/-- The page number before the given one is there. -/
theorem toInt_sub_one {page : Int64} (hpage : 1 ≤ page) : (page - 1).toInt = page.toInt - 1 := by
  rw [Int64.one_le_iff] at hpage
  have hlt := page.toInt_lt
  rw [← Overflow.ofInt_sub]
  exact Overflow.fits_int64.mpr ⟨by rw [toInt_one]; omega, by rw [toInt_one]; omega⟩

/-- Only the product of the offset can overflow. -/
theorem PageRequest.offsetIn_eq (req : PageRequest) (hpage : 1 ≤ req.page) (overflowChecks : Bool) :
    req.offsetIn overflowChecks =
      if overflowChecks ∧ ¬ Fits Int64 ((req.page.toInt - 1) * req.perPage.toInt) then none
      else some req.offset := by
  have hsub : Overflow.sub overflowChecks req.page 1 = some (req.page - 1) := by
    have hfits : Fits Int64 (req.page.toInt - (1 : Int64).toInt) := by
      rw [toInt_one, ← toInt_sub_one hpage]
      exact Overflow.fits_toInt (req.page - 1)
    rw [Overflow.sub, Overflow.toInt_int64, Overflow.toInt_int64,
      Overflow.compute_of_fits hfits, Overflow.ofInt_int64, Overflow.ofInt_sub]
  rw [offsetIn, hsub, Option.bind_eq_bind, Option.bind_some, Overflow.mul, Overflow.compute,
    Overflow.toInt_int64, Overflow.toInt_int64, toInt_sub_one hpage, offset,
    ← Overflow.ofInt_mul, toInt_sub_one hpage, Overflow.ofInt_int64]

/-- The number of pages, where the sum with the page size fits. -/
theorem totalPagesIn_eq {total perPage : Int64} {n size : ℕ} (htotal : total.toInt = n)
    (hsize : perPage.toInt = size) (hpos : 0 < size) (hfits : n + size < 2 ^ 63)
    (overflowChecks : Bool) :
    totalPagesIn overflowChecks total perPage = some (Int64.ofNat (Paging.count size n)) := by
  have hperPage : perPage ≠ 0 := by
    rintro rfl
    rw [toInt_zero] at hsize
    omega
  unfold totalPagesIn
  by_cases hzero : total = 0
  · have hn : n = 0 := by
      rw [hzero, toInt_zero] at htotal
      omega
    rw [if_pos (Or.inl hzero), hn, Paging.count_zero hpos]
    rfl
  · have hle : (n + size - 1) / size ≤ n + size - 1 := Nat.div_le_self _ _
    -- no intermediate result leaves the type, so every build computes the same
    have hsum : (Int64.ofNat (n + size)).toInt = (n + size : ℕ) :=
      Int64.toInt_ofNat_of_lt hfits
    have hlast : (Int64.ofNat (n + size - 1)).toInt = (n + size - 1 : ℕ) :=
      Int64.toInt_ofNat_of_lt (by omega)
    have hcount : (Int64.ofNat (Paging.count size n)).toInt = Paging.count size n :=
      Int64.toInt_ofNat_of_lt (by rw [Paging.count]; omega)
    have hadd : Overflow.add overflowChecks total perPage = some (Int64.ofNat (n + size)) := by
      apply Overflow.compute_of_toInt
      rw [Overflow.toInt_int64, Overflow.toInt_int64, Overflow.toInt_int64, hsum, htotal, hsize,
        Nat.cast_add]
    have hsub : Overflow.sub overflowChecks (Int64.ofNat (n + size)) 1 =
        some (Int64.ofNat (n + size - 1)) := by
      apply Overflow.compute_of_toInt
      rw [Overflow.toInt_int64, Overflow.toInt_int64, Overflow.toInt_int64, hsum, hlast, toInt_one]
      omega
    have hdiv : Overflow.div (Int64.ofNat (n + size - 1)) perPage =
        some (Int64.ofNat (Paging.count size n)) := by
      rw [Overflow.div, Overflow.toInt_int64, if_neg (by omega)]
      apply Overflow.compute_of_toInt
      rw [Overflow.toInt_int64, Overflow.toInt_int64, hlast, hsize, hcount, Paging.count,
        Int.ofNat_tdiv]
    rw [if_neg (by simp [hzero, hperPage]), hadd, Option.bind_eq_bind, Option.bind_some, hsub,
      Option.bind_some, hdiv]

/-! ## What a request is answered with -/

section Serve

variable {T : Type} {query : Statement → List (Except Error Row)}
  {get : Row → Except Error Int64} {fromRow : Row → Except Error T}

theorem readItems_map_ok {rows : List Row} {found : List T}
    (hrows : rows.map fromRow = found.map .ok) (items : List T) :
    readItems fromRow items (rows.map .ok) = .ok (items ++ found) := by
  induction rows generalizing items found with
  | nil =>
      rw [List.map_nil, eq_comm, List.map_eq_nil_iff] at hrows
      rw [hrows, List.append_nil]
      rfl
  | cons row rest ih =>
      cases found with
      | nil => simp at hrows
      | cons item found =>
          rw [List.map_cons, List.map_cons, List.cons.injEq] at hrows
          obtain ⟨hitem, hrest⟩ := hrows
          calc
            readItems fromRow items ((row :: rest).map .ok)
              = (fromRow row).bind fun item => readItems fromRow (items ++ [item]) (rest.map .ok) :=
                rfl
            _ = readItems fromRow (items ++ [item]) (rest.map .ok) := by rw [hitem]; rfl
            _ = .ok (items ++ item :: found) := by
              rw [ih hrest, List.append_assoc, List.singleton_append]

/-- The items between the limit and the offset that a request binds. -/
def PageRequest.selected (req : PageRequest) (items : List T) : List T :=
  (items.drop req.offset.toInt.toNat).take req.perPage.toInt.toNat

/-- The response to a request for a page of `items`. -/
def PageRequest.response (req : PageRequest) (items : List T) : Page T where
  items := req.selected items
  total := Int64.ofNat items.length
  page := req.page
  perPage := req.perPage
  totalPages := Int64.ofNat (Paging.count req.perPage.toInt.toNat items.length)
  hasNext := decide (req.page < Int64.ofNat (Paging.count req.perPage.toInt.toNat items.length))
  hasPrev := decide (1 < req.page)

/-- Behind the offset, `page` cannot fail. -/
theorem page_eq {builder : SelectBuilder} {rows : List Row} {items : List T}
    (hanswers : Answers query get builder rows) (hrows : rows.map fromRow = items.map .ok)
    (req : PageRequest) (hpos : 1 ≤ req.perPage)
    (hfits : items.length + req.perPage.toInt < 2 ^ 63) (overflowChecks : Bool) :
    builder.page query get fromRow overflowChecks req =
      (req.offsetIn overflowChecks).map fun _ => .ok (req.response items) := by
  obtain ⟨row, hcount, hget⟩ := hanswers.count
  rw [Int64.one_le_iff] at hpos
  have hlength : rows.length = items.length := by
    have hmap := congrArg List.length hrows
    rwa [List.length_map, List.length_map] at hmap
  have hlimit : limitOffset req.perPage req.offset rows =
      (rows.drop req.offset.toInt.toNat).take req.perPage.toInt.toNat := by
    rw [limitOffset, limited, if_neg]
    rw [Int64.lt_iff_toInt_lt, toInt_zero]
    omega
  have hitems : readItems fromRow [] (query (builder.dataStatement req)) =
      .ok (req.selected items) := by
    have hselected : ((rows.drop req.offset.toInt.toNat).take req.perPage.toInt.toNat).map fromRow =
        (req.selected items).map .ok := by
      rw [PageRequest.selected, List.map_take, List.map_drop, hrows, List.map_take, List.map_drop]
    rw [hanswers.data, hlimit, readItems_map_ok hselected, List.nil_append]
  have hpages : totalPagesIn overflowChecks (Int64.ofNat items.length) req.perPage =
      some (Int64.ofNat (Paging.count req.perPage.toInt.toNat items.length)) :=
    totalPagesIn_eq (Int64.toInt_ofNat_of_lt (by omega)) (by omega) (by omega) (by omega) _
  have htotal : (Except.ok row >>= get : Except Error Int64) = .ok (Int64.ofNat items.length) := by
    rw [← hlength]
    exact hget
  simp only [SelectBuilder.page, hcount, htotal, hitems, Page.new, hpages, Option.map_some]
  cases req.offsetIn overflowChecks <;> rfl

end Serve

/-! ## Pages of a result -/

section Law

variable {T : Type} (serve : PageRequest → Option (Except Error (Page T))) (items : List T)
  (perPage : Int64)

/-- The pages from the first to the last are the items, cut into pages. -/
def Partitions : Prop :=
  ∃ pages : List (Page T),
    (∀ page response, 1 ≤ page → serve { page, perPage } = some (.ok response) →
      response.totalPages.toInt = pages.length) ∧
    (∀ (i : ℕ) (hi : i < pages.length),
      serve { page := Int64.ofNat (i + 1), perPage } = some (.ok pages[i])) ∧
    (∀ page ∈ pages, page.items ≠ []) ∧ pages.flatMap Page.items = items

/-- A page is empty beyond the last one, and knows what stands before and after it. -/
def PageLaw (page : Int64) : Prop :=
  ∃ response, serve { page, perPage } = some (.ok response) ∧
    (response.totalPages < page → response.items = []) ∧
    (response.hasNext = true ↔ items.drop (page.toInt * perPage.toInt).toNat ≠ []) ∧
    (response.hasPrev = true ↔ 1 < page)

end Law

/-- What the product of an offset wraps to. -/
def wrappedOffset (page perPage : Int64) : ℤ := ((page.toInt - 1) * perPage.toInt).bmod (2 ^ 64)

theorem PageRequest.toInt_offset (req : PageRequest) (hpage : 1 ≤ req.page) :
    req.offset.toInt = wrappedOffset req.page req.perPage := by
  rw [offset, Int64.toInt_mul, toInt_sub_one hpage, wrappedOffset]

/-- The number of items on the pages before. -/
theorem cast_before {page perPage : Int64} (hpage : 1 ≤ page) (hpos : 1 ≤ perPage) :
    (((page.toInt.toNat - 1) * perPage.toInt.toNat : ℕ) : ℤ) =
      (page.toInt - 1) * perPage.toInt := by
  rw [Int64.one_le_iff] at hpage hpos
  rw [Int.natCast_mul, Int.toNat_of_nonneg (by omega)]
  congr 1
  omega

/-- An offset that fits is the number of items on the pages before. -/
theorem PageRequest.selected_of_fits {T : Type} (req : PageRequest) (hpage : 1 ≤ req.page)
    (hpos : 1 ≤ req.perPage) (hfits : (req.page.toInt - 1) * req.perPage.toInt < 2 ^ 63)
    (items : List T) :
    req.selected items = Paging.slice req.perPage.toInt.toNat items (req.page.toInt.toNat - 1) := by
  have hbefore := cast_before hpage hpos
  have hoffset : req.offset.toInt.toNat = (req.page.toInt.toNat - 1) * req.perPage.toInt.toNat := by
    rw [req.toInt_offset hpage, wrappedOffset, Int.bmod_eq_of_le (by omega) (by omega), ← hbefore,
      Int.toNat_natCast]
  rw [selected, hoffset, Paging.slice]

section Results

variable {T : Type} {query : Statement → List (Except Error Row)}
  {get : Row → Except Error Int64} {fromRow : Row → Except Error T} {builder : SelectBuilder}
  {rows : List Row} {items : List T} {perPage : Int64}

/-- The pages up to the count are served, in whichever build. -/
theorem page_eq_slice (hanswers : Answers query get builder rows)
    (hrows : rows.map fromRow = items.map .ok) (hpos : 1 ≤ perPage)
    (hfits : items.length + perPage.toInt < 2 ^ 63) {i : ℕ}
    (hi : i < Paging.count perPage.toInt.toNat items.length) {page : Int64}
    (hpage : page.toInt = (i + 1 : ℕ)) (overflowChecks : Bool) :
    builder.page query get fromRow overflowChecks { page, perPage } =
        some (.ok (PageRequest.response { page, perPage } items)) ∧
      PageRequest.selected { page, perPage } items = Paging.slice perPage.toInt.toNat items i := by
  have hsize : 1 ≤ perPage.toInt := Int64.one_le_iff.mp hpos
  have hbegin := (Paging.lt_count_iff (by omega)).mp hi
  have hone : 1 ≤ page := by
    rw [Int64.one_le_iff, hpage]
    omega
  have hproduct : (page.toInt - 1) * perPage.toInt = (i * perPage.toInt.toNat : ℕ) := by
    rw [← cast_before hone hpos, hpage]
    rfl
  constructor
  · rw [page_eq hanswers hrows ⟨page, perPage⟩ hpos hfits,
      PageRequest.offsetIn_eq ⟨page, perPage⟩ hone, hproduct, if_neg]
    · rfl
    · rintro ⟨-, hnot⟩
      exact hnot (Overflow.fits_int64.mpr ⟨by omega, by omega⟩)
  · rw [PageRequest.selected_of_fits ⟨page, perPage⟩ hone hpos (by rw [hproduct]; omega), hpage]
    rfl

/-- The numbers of the pages do not wrap. -/
theorem toInt_index (hsize : 0 < perPage.toInt.toNat)
    (hfits : items.length + perPage.toInt < 2 ^ 63) {i : ℕ}
    (hi : i < Paging.count perPage.toInt.toNat items.length) :
    (Int64.ofNat (i + 1)).toInt = (i + 1 : ℕ) := by
  have hbegin := (Paging.lt_count_iff hsize).mp hi
  have hle : i ≤ i * perPage.toInt.toNat := Nat.le_mul_of_pos_right _ hsize
  exact Int64.toInt_ofNat_of_lt (by omega)

/-- **The pages up to `total_pages` are the result.** -/
theorem pages_partition (hanswers : Answers query get builder rows)
    (hrows : rows.map fromRow = items.map .ok) (hpos : 1 ≤ perPage)
    (hfits : items.length + perPage.toInt < 2 ^ 63) (overflowChecks : Bool) :
    Partitions (builder.page query get fromRow overflowChecks) items perPage := by
  have hsize : 0 < perPage.toInt.toNat := by
    rw [Int64.one_le_iff] at hpos
    omega
  -- every page that there is holds the slice at its index
  have hslices : ∀ i ∈ List.range (Paging.count perPage.toInt.toNat items.length),
      builder.page query get fromRow overflowChecks { page := Int64.ofNat (i + 1), perPage } =
          some (.ok (PageRequest.response { page := Int64.ofNat (i + 1), perPage } items)) ∧
        PageRequest.selected { page := Int64.ofNat (i + 1), perPage } items =
          Paging.slice perPage.toInt.toNat items i :=
    fun i hi => page_eq_slice hanswers hrows hpos hfits (List.mem_range.mp hi)
      (toInt_index hsize hfits (List.mem_range.mp hi)) overflowChecks
  refine ⟨(List.range (Paging.count perPage.toInt.toNat items.length)).map fun i =>
    PageRequest.response { page := Int64.ofNat (i + 1), perPage } items, ?_, ?_, ?_, ?_⟩
  · intro page response hpage hserved
    rw [page_eq hanswers hrows ⟨page, perPage⟩ hpos hfits, Option.map_eq_some_iff] at hserved
    obtain ⟨offset, -, hresponse⟩ := hserved
    rw [Except.ok.injEq] at hresponse
    have hle : Paging.count perPage.toInt.toNat items.length ≤
        items.length + perPage.toInt.toNat - 1 := Nat.div_le_self _ _
    rw [← hresponse, List.length_map, List.length_range]
    show (Int64.ofNat (Paging.count perPage.toInt.toNat items.length)).toInt = _
    exact Int64.toInt_ofNat_of_lt (by omega)
  · intro i hi
    rw [List.length_map, List.length_range] at hi
    rw [List.getElem_map, List.getElem_range]
    exact (hslices i (List.mem_range.mpr hi)).1
  · intro page hmem
    obtain ⟨i, hi, rfl⟩ := List.mem_map.mp hmem
    show PageRequest.selected _ items ≠ []
    rw [(hslices i hi).2, Paging.slice_ne_nil_iff hsize]
    exact List.mem_range.mp hi
  · calc
      ((List.range _).map fun i =>
          PageRequest.response { page := Int64.ofNat (i + 1), perPage } items).flatMap Page.items
        = ((List.range _).map (Paging.slice perPage.toInt.toNat items)).flatten := by
          rw [List.flatMap_def, List.map_map]
          exact congrArg List.flatten (List.map_congr_left fun i hi => (hslices i hi).2)
      _ = items := Paging.flatten_slices hsize items

/-- What a response says about the pages around it. -/
theorem pageLaw_iff_of_served {serve : PageRequest → Option (Except Error (Page T))}
    (hpos : 1 ≤ perPage) (hfits : items.length + perPage.toInt < 2 ^ 63) {page : Int64}
    (hpage : 1 ≤ page)
    (hserve : serve { page, perPage } = some (.ok (PageRequest.response { page, perPage } items))) :
    PageLaw serve items perPage page ↔
      (items.length ≤ (page.toInt - 1) * perPage.toInt →
        PageRequest.selected { page, perPage } items = []) := by
  have hone : 1 ≤ page.toInt := Int64.one_le_iff.mp hpage
  have hsize : 1 ≤ perPage.toInt := Int64.one_le_iff.mp hpos
  set pages := Paging.count perPage.toInt.toNat items.length with hpages
  have hle : pages ≤ items.length + perPage.toInt.toNat - 1 := Nat.div_le_self _ _
  have htotal : (Int64.ofNat pages).toInt = pages := Int64.toInt_ofNat_of_lt (by omega)
  -- the page at `index` of the library is the page after it
  obtain ⟨index, hindex⟩ : ∃ index : ℕ, page.toInt = (index + 1 : ℕ) :=
    ⟨page.toInt.toNat - 1, by omega⟩
  have hbefore : (page.toInt - 1) * perPage.toInt = (index * perPage.toInt.toNat : ℕ) := by
    rw [← cast_before hpage hpos, hindex]
    rfl
  have hbehind : (page.toInt * perPage.toInt).toNat = (index + 1) * perPage.toInt.toNat := by
    rw [hindex, Int.toNat_mul (by omega) (by omega), Int.toNat_natCast]
  have hbeyond : Int64.ofNat pages < page ↔ items.length ≤ (page.toInt - 1) * perPage.toInt := by
    rw [Int64.lt_iff_toInt_lt, htotal, hbefore, hindex]
    have hcount : index < pages ↔ index * perPage.toInt.toNat < items.length :=
      Paging.lt_count_iff (by omega)
    omega
  have hnext : page < Int64.ofNat pages ↔
      items.drop (page.toInt * perPage.toInt).toNat ≠ [] := by
    rw [hbehind, Paging.drop_ne_nil_iff (by omega), Int64.lt_iff_toInt_lt, htotal, hindex]
    exact Int.ofNat_lt
  constructor
  · rintro ⟨response, hresponse, hempty, -, -⟩ hpast
    rw [hserve, Option.some.injEq, Except.ok.injEq] at hresponse
    subst hresponse
    exact hempty (hbeyond.mpr hpast)
  · intro hempty
    refine ⟨_, hserve, ?_, ?_, ?_⟩
    · exact fun hlast => hempty (hbeyond.mp hlast)
    · show decide (page < Int64.ofNat pages) = true ↔ _
      rw [decide_eq_true_iff, hnext]
    · exact decide_eq_true_iff

/-- A page is as it should be when its offset fits, and without overflow checks also when the offset
wraps to one behind the end. -/
theorem pageLaw_iff (hanswers : Answers query get builder rows)
    (hrows : rows.map fromRow = items.map .ok) (hpos : 1 ≤ perPage)
    (hfits : items.length + perPage.toInt < 2 ^ 63) {page : Int64} (hpage : 1 ≤ page)
    (overflowChecks : Bool) :
    PageLaw (builder.page query get fromRow overflowChecks) items perPage page ↔
      (page.toInt - 1) * perPage.toInt < 2 ^ 63 ∨
        overflowChecks = false ∧ items.length ≤ (wrappedOffset page perPage).toNat := by
  have hone : 1 ≤ page.toInt := Int64.one_le_iff.mp hpage
  have hsize : 1 ≤ perPage.toInt := Int64.one_le_iff.mp hpos
  have hnonneg : 0 ≤ (page.toInt - 1) * perPage.toInt := Int.mul_nonneg (by omega) (by omega)
  have hpageEq := page_eq hanswers hrows ⟨page, perPage⟩ hpos hfits overflowChecks
  rw [PageRequest.offsetIn_eq ⟨page, perPage⟩ hpage] at hpageEq
  by_cases hoffset : (page.toInt - 1) * perPage.toInt < 2 ^ 63
  · have hfit : Fits Int64 ((page.toInt - 1) * perPage.toInt) :=
      Overflow.fits_int64.mpr ⟨by omega, hoffset⟩
    rw [if_neg fun h => h.2 hfit] at hpageEq
    rw [pageLaw_iff_of_served hpos hfits hpage hpageEq]
    refine iff_of_true ?_ (Or.inl hoffset)
    intro hpast
    rw [PageRequest.selected_of_fits ⟨page, perPage⟩ hpage hpos hoffset]
    show Paging.slice perPage.toInt.toNat items (page.toInt.toNat - 1) = []
    rw [← cast_before hpage hpos, Int.ofNat_le] at hpast
    exact (Paging.slice_eq_nil_iff (by omega) items).mpr hpast
  -- the offset does not fit: one build panics, and the other wraps it
  · have hunfit : ¬ Fits Int64 ((page.toInt - 1) * perPage.toInt) :=
      fun h => hoffset (Overflow.fits_int64.mp h).2
    cases overflowChecks with
    | true =>
        rw [if_pos ⟨rfl, hunfit⟩] at hpageEq
        refine iff_of_false ?_ (by simpa using hoffset)
        rintro ⟨response, hresponse, -⟩
        rw [hpageEq] at hresponse
        cases hresponse
    | false =>
        rw [if_neg (by simp)] at hpageEq
        rw [pageLaw_iff_of_served hpos hfits hpage hpageEq, PageRequest.selected,
          List.take_eq_nil_iff, List.drop_eq_nil_iff,
          PageRequest.toInt_offset ⟨page, perPage⟩ hpage]
        simp only [hoffset, true_and, false_or]
        constructor
        · intro hempty
          exact (hempty (by omega)).resolve_left (by omega)
        · exact fun hlength _ => Or.inr hlength

/-- **Offset pagination.**  The pages partition the result, and a page keeps the law exactly when
its offset fits, or wraps to one behind the end in a build without overflow checks. -/
theorem paginates_iff (hanswers : Answers query get builder rows)
    (hrows : rows.map fromRow = items.map .ok) (hpos : 1 ≤ perPage)
    (hfits : items.length + perPage.toInt < 2 ^ 63) {page : Int64} (hpage : 1 ≤ page)
    (overflowChecks : Bool) :
    Partitions (builder.page query get fromRow overflowChecks) items perPage ∧
        PageLaw (builder.page query get fromRow overflowChecks) items perPage page ↔
      (page.toInt - 1) * perPage.toInt < 2 ^ 63 ∨
        overflowChecks = false ∧ items.length ≤ (wrappedOffset page perPage).toNat := by
  rw [pageLaw_iff hanswers hrows hpos hfits hpage]
  exact and_iff_right (pages_partition hanswers hrows hpos hfits overflowChecks)

/-- A table that is read by queries without conditions. -/
def tableQuery (rows : List Row) (statement : Statement) : List (Except Error Row) :=
  match statement.params with
  | [.integer limit, .integer offset] => (limitOffset limit offset rows).map .ok
  | _ => [.ok [.integer (Int64.ofNat rows.length)]]

def getInteger : Row → Except Error Int64
  | .integer n :: _ => .ok n
  | _ => .error (.internal "invalid column type")

theorem tableQuery_answers (sql : String) (rows : List Row) :
    Answers (tableQuery rows) getInteger (.new sql) rows :=
  ⟨⟨_, rfl, rfl⟩, fun _ => rfl⟩

/-- The last of two pages of three rows. -/
theorem paginates_threeRows :
    Partitions ((SelectBuilder.new "SELECT id FROM items").page
        (tableQuery [[.integer 1], [.integer 2], [.integer 3]]) getInteger .ok true)
        [[.integer 1], [.integer 2], [.integer 3]] 2 ∧
      PageLaw ((SelectBuilder.new "SELECT id FROM items").page
        (tableQuery [[.integer 1], [.integer 2], [.integer 3]]) getInteger .ok true)
        [[.integer 1], [.integer 2], [.integer 3]] 2 2 :=
  (paginates_iff (tableQuery_answers _ _) rfl (by decide) (by decide) (by decide) true).mpr
    (Or.inl (by decide))

/-- Page `2^62 + 1` of pages of two starts over, or panics. -/
theorem pageLaw_startsOver :
    (SelectBuilder.new "SELECT id FROM items").page
        (tableQuery [[.integer 1], [.integer 2], [.integer 3]]) getInteger .ok false
        { page := 4611686018427387905, perPage := 2 } =
      some (.ok { items := [[.integer 1], [.integer 2]], total := 3, page := 4611686018427387905,
                  perPage := 2, totalPages := 2, hasNext := false, hasPrev := true }) ∧
    ¬ PageLaw ((SelectBuilder.new "SELECT id FROM items").page
        (tableQuery [[.integer 1], [.integer 2], [.integer 3]]) getInteger .ok false)
        [[.integer 1], [.integer 2], [.integer 3]] 2 4611686018427387905 ∧
    (SelectBuilder.new "SELECT id FROM items").page
        (tableQuery [[.integer 1], [.integer 2], [.integer 3]]) getInteger .ok true
        { page := 4611686018427387905, perPage := 2 } = none := by
  refine ⟨by decide, ?_, by decide⟩
  rw [pageLaw_iff (tableQuery_answers _ _) rfl (by decide) (by decide) (by decide)]
  decide

end Results

/-! ## Overflow -/

/-- The page size after the clamp. -/
def clampedSize (config : PaginationConfig) (perPage : Int64) : ℤ :=
  min (if perPage < 1 then config.defaultPerPage else perPage).toInt config.maxPerPage.toInt

/-- Every build computes the offset, the number of pages and the limit of `cursor` exactly, and the
statements bind them. -/
def StaysWithin (req : PageRequest) (cursor : CursorRequest) (total : Int64) : Prop :=
  ∀ overflowChecks,
    (∃ offset, req.offsetIn overflowChecks = some offset ∧
      offset.toInt = (req.page.toInt - 1) * req.perPage.toInt ∧
      ∀ builder : SelectBuilder,
        (builder.dataStatement req).params.getLast? = some (.integer offset)) ∧
    (∃ pages, totalPagesIn overflowChecks total req.perPage = some pages ∧
      pages.toInt = (total.toInt + req.perPage.toInt - 1) / req.perPage.toInt) ∧
    (∃ limit, cursor.limitIn overflowChecks = some limit ∧
      limit.toInt = cursor.perPage.toInt + 1 ∧
      ∀ builder : SelectBuilder,
        (builder.cursorStatement cursor).params.getLast? = some (.integer limit))

theorem exists_offsetIn_iff {req : PageRequest} (hpage : 1 ≤ req.page) (hpos : 1 ≤ req.perPage) :
    (∀ overflowChecks, ∃ offset, req.offsetIn overflowChecks = some offset ∧
      offset.toInt = (req.page.toInt - 1) * req.perPage.toInt ∧
      ∀ builder : SelectBuilder,
        (builder.dataStatement req).params.getLast? = some (.integer offset)) ↔
      (req.page.toInt - 1) * req.perPage.toInt < 2 ^ 63 := by
  have hbefore := cast_before hpage hpos
  constructor
  · intro hoffset
    obtain ⟨offset, -, hexact, -⟩ := hoffset true
    rw [← hexact]
    exact offset.toInt_lt
  · intro hlt overflowChecks
    have hfits : Fits Int64 ((req.page.toInt - 1) * req.perPage.toInt) :=
      Overflow.fits_int64.mpr ⟨by omega, hlt⟩
    refine ⟨req.offset, ?_, ?_, fun builder => by simp [SelectBuilder.dataStatement]⟩
    · rw [req.offsetIn_eq hpage, if_neg fun h => h.2 hfits]
    · rw [req.toInt_offset hpage, wrappedOffset]
      exact Int.bmod_eq_of_le (by omega) (by omega)

theorem exists_totalPagesIn_iff {total perPage : Int64} (htotal : 0 ≤ total) (hpos : 1 ≤ perPage) :
    (∀ overflowChecks, ∃ pages, totalPagesIn overflowChecks total perPage = some pages ∧
      pages.toInt = (total.toInt + perPage.toInt - 1) / perPage.toInt) ↔
      total = 0 ∨ total.toInt + perPage.toInt < 2 ^ 63 := by
  rw [Int64.le_iff_toInt_le, toInt_zero] at htotal
  rw [Int64.one_le_iff] at hpos
  constructor
  · intro hpages
    obtain ⟨pages, hsome, -⟩ := hpages true
    by_contra hnot
    rw [not_or] at hnot
    have hperPage : perPage ≠ 0 := by
      rintro rfl
      exact absurd hpos (by decide)
    have hadd : Overflow.add true total perPage = none := by
      refine Overflow.compute_checked_eq_none.mpr fun hfits => hnot.2 ?_
      exact (Overflow.fits_int64.mp hfits).2
    rw [totalPagesIn, if_neg (by simp [hnot.1, hperPage]), hadd] at hsome
    cases hsome
  · intro hfits overflowChecks
    rcases hfits with rfl | hfits
    · refine ⟨0, if_pos (Or.inl rfl), ?_⟩
      rw [toInt_zero, Int.zero_add]
      exact (Int.ediv_eq_zero_of_lt (by omega) (by omega)).symm
    · have hcount : totalPagesIn overflowChecks total perPage =
          some (Int64.ofNat (Paging.count perPage.toInt.toNat total.toInt.toNat)) :=
        totalPagesIn_eq (by omega) (by omega) (by omega) (by omega) overflowChecks
      refine ⟨_, hcount, ?_⟩
      have hle : Paging.count perPage.toInt.toNat total.toInt.toNat ≤
          total.toInt.toNat + perPage.toInt.toNat - 1 := Nat.div_le_self _ _
      rw [Int64.toInt_ofNat_of_lt (by omega), Paging.count, Int.natCast_ediv]
      congr 1 <;> omega

theorem exists_limitIn_iff {cursor : CursorRequest} (hpos : 1 ≤ cursor.perPage) :
    (∀ overflowChecks, ∃ limit, cursor.limitIn overflowChecks = some limit ∧
      limit.toInt = cursor.perPage.toInt + 1 ∧
      ∀ builder : SelectBuilder,
        (builder.cursorStatement cursor).params.getLast? = some (.integer limit)) ↔
      cursor.perPage.toInt + 1 < 2 ^ 63 := by
  rw [Int64.one_le_iff] at hpos
  constructor
  · intro hlimit
    obtain ⟨limit, -, hexact, -⟩ := hlimit true
    rw [← hexact]
    exact limit.toInt_lt
  · intro hlt overflowChecks
    have hfits : Fits Int64 (cursor.perPage.toInt + (1 : Int64).toInt) :=
      Overflow.fits_int64.mpr ⟨by rw [toInt_one]; omega, by rw [toInt_one]; omega⟩
    refine ⟨cursor.perPage + 1, ?_, ?_, fun builder => by simp [SelectBuilder.cursorStatement]⟩
    · rw [← Overflow.ofInt_add]
      exact Overflow.compute_of_fits hfits overflowChecks
    · rw [← Overflow.ofInt_add]
      exact hfits

theorem toInt_clamp_page (req : PageRequest) (config : PaginationConfig) :
    (req.clamp config).page.toInt = max req.page.toInt 1 := by
  simp only [PageRequest.clamp]
  split_ifs with hlow
  · rw [Int64.lt_iff_toInt_lt, toInt_one] at hlow
    rw [toInt_one]
    omega
  · rw [Int64.lt_iff_toInt_lt, toInt_one] at hlow
    omega

theorem toInt_min (perPage maxPerPage : Int64) :
    (if maxPerPage < perPage then maxPerPage else perPage).toInt =
      min perPage.toInt maxPerPage.toInt := by
  split_ifs with hover
  · rw [Int64.lt_iff_toInt_lt] at hover
    omega
  · rw [Int64.lt_iff_toInt_lt] at hover
    omega

theorem clampedSize_pos {config : PaginationConfig} (hdefault : 0 < config.defaultPerPage)
    (hmax : 0 < config.maxPerPage) (perPage : Int64) : 1 ≤ clampedSize config perPage := by
  rw [Int64.pos_iff] at hdefault hmax
  rw [clampedSize]
  split_ifs with hlow
  · omega
  · rw [Int64.lt_iff_toInt_lt, toInt_one] at hlow
    omega

/-- **Pagination arithmetic.**  It stays within `i64` in every build exactly when the product of the
offset, the sum with the number of rows and the look-ahead do. -/
theorem staysWithin_iff {config : Option PaginationConfig}
    (hdefault : 0 < (config.getD .default).defaultPerPage)
    (hmax : 0 < (config.getD .default).maxPerPage) {total : Int64} (htotal : 0 ≤ total)
    {pageQuery req : PageRequest} {cursorQuery cursor : CursorRequest}
    (hreq : PageRequest.fromRequestParts config (.ok pageQuery) = .ok req)
    (hcursor : CursorRequest.fromRequestParts config (.ok cursorQuery) = .ok cursor) :
    StaysWithin req cursor total ↔
      (max pageQuery.page.toInt 1 - 1) * clampedSize (config.getD .default) pageQuery.perPage
          < 2 ^ 63 ∧
        (total = 0 ∨
          total.toInt + clampedSize (config.getD .default) pageQuery.perPage < 2 ^ 63) ∧
        clampedSize (config.getD .default) cursorQuery.perPage + 1 < 2 ^ 63 := by
  rw [PageRequest.fromRequestParts, Except.ok.injEq] at hreq
  rw [CursorRequest.fromRequestParts, Except.ok.injEq] at hcursor
  subst hreq hcursor
  have hpage := toInt_clamp_page pageQuery (config.getD .default)
  have hsize : (pageQuery.clamp (config.getD .default)).perPage.toInt =
      clampedSize (config.getD .default) pageQuery.perPage := toInt_min _ _
  have hcursorSize : (cursorQuery.clamp (config.getD .default)).perPage.toInt =
      clampedSize (config.getD .default) cursorQuery.perPage := toInt_min _ _
  have hsizePos := clampedSize_pos hdefault hmax pageQuery.perPage
  have hcursorPos := clampedSize_pos hdefault hmax cursorQuery.perPage
  rw [StaysWithin, forall_and, forall_and,
    exists_offsetIn_iff (Int64.one_le_iff.mpr (by omega)) (Int64.one_le_iff.mpr (by omega)),
    exists_totalPagesIn_iff htotal (Int64.one_le_iff.mpr (by omega)),
    exists_limitIn_iff (Int64.one_le_iff.mpr (by omega)), hpage, hsize, hcursorSize]

/-- The third page of the default size. -/
theorem staysWithin_thirdPage :
    StaysWithin { page := 3, perPage := 20 } { after := none, perPage := 50 } 45 := by
  have hreq : PageRequest.fromRequestParts none (.ok { page := 3, perPage := 0 }) =
    .ok { page := 3, perPage := 20 } := rfl
  have hcursor : CursorRequest.fromRequestParts none (.ok { after := none, perPage := 50 }) =
    .ok { after := none, perPage := 50 } := rfl
  exact (staysWithin_iff (by decide) (by decide) (by decide) hreq hcursor).mpr (by decide)

/-- The largest page number of the default size panics, or asks for the first page. -/
theorem lastPage_overflows :
    PageRequest.fromRequestParts none (.ok { page := Int64.maxValue, perPage := 20 }) =
        .ok { page := Int64.maxValue, perPage := 20 } ∧
      PageRequest.offsetIn true { page := Int64.maxValue, perPage := 20 } = none ∧
      PageRequest.offsetIn false { page := Int64.maxValue, perPage := 20 } = some (-40) ∧
      ¬ StaysWithin { page := Int64.maxValue, perPage := 20 } { after := none, perPage := 20 }
        0 := by
  refine ⟨rfl, by decide, by decide, fun hstays => ?_⟩
  have hoffset := (exists_offsetIn_iff (by decide) (by decide)).mp fun checks => (hstays checks).1
  exact absurd hoffset (by decide)

end Modo.Db
